import Eligibility.Limits.Load
import Eligibility.Proofs.SettingValues

/-!
# What loading limits guarantees

Limits that are loaded can be used, and limits that cannot be used are refused in the name of the
first one that is too small. A limit has the value that the environment gives it, else the one that
the file gives it, else the standard one.

## Main definitions

* `Limits.Usable` — every limit is large enough.
* `Limits.firstTooSmall?` — the place of the first limit that is not.
* `Limits.lastWord?` — what a list of settings says about a name in the end.
* `Limits.Stands`, `Limits.Follows` — the values that limits take from what is said about them.

## Main results

* `Limits.validate_eq_ok_iff`, `Limits.validate_error` — what validation accepts, and which limit it
  complains about.
* `LimitsError.message_names` — every error names the limit that it is about.
* `Limits.load_eq_ok_iff` — what is loaded is usable, and where each limit comes from.
* `Limits.load_lt` — limits that are loaded have at most 64 bits.
* `Limits.load_invalid` — limits that are read and refused are too small.
* `Limits.load_standard` — with nothing said, the standard limits are loaded.
* `Limits.ofJson?_toJson` — limits survive as a document.
-/

set_option relaxedAutoImplicit false
set_option autoImplicit false

namespace Eligibility

namespace Limits

/-! ## Validation -/

/-- The values of the limits, in the order of their names. -/
def values (l : Limits) : List Nat := [l.minCombined, l.maxNesting, l.maxLength]

/-- The least values that limits can have, in the order of their names. -/
def leastValues : List Nat := [Formula.minCombined, 1, 1]

/-- Limits that an engine can work with. -/
structure Usable (l : Limits) : Prop where
  minCombined : Formula.minCombined ≤ l.minCombined
  maxNesting : 0 < l.maxNesting
  maxLength : 0 < l.maxLength

/-- The place of the first limit that is too small, if there is one. -/
def firstTooSmall? (l : Limits) : Option Nat :=
  (l.values.zip leastValues).findIdx? fun (value, least) => value < least

end Limits

/-- The place among the limits of the one that the error is about. -/
def LimitsError.place : LimitsError → Nat
  | minCombinedTooSmall _ => 0
  | zeroNesting => 1
  | zeroLength => 2

/-- **The wording of every error names the limit that it is about**, before it says anything
else. -/
theorem LimitsError.message_names (e : LimitsError) :
    ∃ name rest, Limits.names[e.place]? = some name ∧
      e.message = "invalid configuration: " ++ (name ++ (" must be " ++ rest)) := by
  cases e with
  | minCombinedTooSmall n =>
    have hname : "min_combine_rules must be at least " =
        "min_combine_rules" ++ (" must be " ++ "at least ") := by decide
    refine ⟨"min_combine_rules", "at least " ++ (Formula.minCombined.repr ++ (", got " ++ n.repr)),
      rfl, ?_⟩
    unfold message
    simp only [hname, String.append_assoc]
  | zeroNesting => exact ⟨"max_nesting_depth", "positive", rfl, by decide⟩
  | zeroLength => exact ⟨"max_rule_length", "positive", rfl, by decide⟩

namespace Limits

variable {l : Limits}

/-- No limit is too small exactly in limits that an engine can work with. -/
theorem firstTooSmall?_eq_none_iff : l.firstTooSmall? = none ↔ l.Usable := by
  simp only [firstTooSmall?, values, leastValues, List.zip_cons_cons, List.zip_nil_right,
    List.findIdx?_eq_none_iff, List.forall_mem_cons, decide_eq_false_iff_not, Nat.not_lt,
    List.not_mem_nil, false_implies, implies_true, and_true]
  exact ⟨fun ⟨h, h', h''⟩ => ⟨h, h', h''⟩, fun h => ⟨h.minCombined, h.maxNesting, h.maxLength⟩⟩

/-- Validation finds the first limit that is too small. -/
theorem firstTooSmall?_eq_validate :
    l.firstTooSmall? = match l.validate with
      | .ok () => none
      | .error e => some e.place := by
  simp only [firstTooSmall?, values, leastValues, List.zip_cons_cons, List.zip_nil_right,
    List.findIdx?_cons, List.findIdx?_nil, decide_eq_true_eq, Nat.lt_one_iff, validate]
  split
  case isTrue => rfl
  split
  case isTrue => rfl
  split <;> rfl

/-- **Validation accepts exactly the limits that an engine can work with.** -/
theorem validate_eq_ok_iff : l.validate = .ok () ↔ l.Usable := by
  rw [← firstTooSmall?_eq_none_iff, firstTooSmall?_eq_validate]
  cases l.validate <;> simp

/-- **Validation complains about the first limit that is too small.** -/
theorem validate_error {e : LimitsError} (h : l.validate = .error e) :
    l.firstTooSmall? = some e.place := by
  rw [firstTooSmall?_eq_validate, h]

/-! ## Where a limit comes from -/

/-- What a list of settings says about a name in the end. -/
def lastWord? (settings : List (String × Setting)) (name : String) : Option Setting :=
  (settings.map fun (name, v) => Setting.assign name v).reverse.lookup name

/-- A limit takes the value that is said about it, and the standard one if nothing is said. -/
def Stands (word : Option Setting) (standard value : Nat) : Prop :=
  match word with
  | none => value = standard
  | some v => v.natural? = some value

/-- All limits stand, where `word` is what is said about a name. -/
def Follows (l : Limits) (word : String → Option Setting) : Prop :=
  ∀ p ∈ names.zip (standard.values.zip l.values), Stands (word p.1) p.2.1 p.2.2

/-- **Later settings have the last word**, and earlier ones where later ones say nothing. -/
theorem lastWord?_append (earlier later : List (String × Setting)) (name : String) :
    lastWord? (earlier ++ later) name = (lastWord? later name).or (lastWord? earlier name) := by
  rw [lastWord?, List.map_append, List.reverse_append, List.lookup_append]
  rfl

/-- Reading what is said about a limit and falling back on the standard value makes the limit
stand. -/
theorem stands_iff {word : Option Setting} {standard value : Nat} :
    Stands word standard value ↔
      ∃ field, word.mapM Setting.natural? = some field ∧ field.getD standard = value := by
  cases word with
  | none => simp [Stands, eq_comm]
  | some v => cases h : v.natural? <;> simp [Stands, h]

/-- All limits stand if each of the three does. -/
theorem follows_iff {word : String → Option Setting} :
    l.Follows word ↔
      Stands (word "min_combine_rules") standard.minCombined l.minCombined ∧
        Stands (word "max_nesting_depth") standard.maxNesting l.maxNesting ∧
          Stands (word "max_rule_length") standard.maxLength l.maxLength := by
  simp only [Follows, names, values, List.zip_cons_cons, List.zip_nil_right, List.forall_mem_cons,
    List.not_mem_nil, false_implies, implies_true, and_true]

/-- **Settings give limits exactly when all limits stand**: what is said about a limit in the end is
a natural number. -/
theorem ofSettings?_eq_some_iff {settings : List (String × Setting)} :
    ofSettings? settings = some l ↔ l.Follows (lastWord? settings) := by
  obtain ⟨minCombined, maxNesting, maxLength⟩ := l
  have hread : ofSettings? settings = (names.mapM fun name =>
      (lastWord? settings name).mapM Setting.natural?).bind ofFields? := rfl
  simp only [follows_iff, stands_iff, hread, names, List.mapM_cons, List.mapM_nil,
    Option.bind_eq_bind, Option.pure_def, Option.bind_eq_some_iff, Option.some.injEq]
  constructor
  · rintro ⟨_, ⟨a, ha, _, ⟨b, hb, _, ⟨c, hc, _, rfl, rfl⟩, rfl⟩, rfl⟩, hfields⟩
    cases hfields
    exact ⟨⟨a, ha, rfl⟩, ⟨b, hb, rfl⟩, ⟨c, hc, rfl⟩⟩
  · rintro ⟨⟨a, ha, rfl⟩, ⟨b, hb, rfl⟩, ⟨c, hc, rfl⟩⟩
    exact ⟨[a, b, c], ⟨a, ha, [b, c], ⟨b, hb, [c], ⟨c, hc, [], rfl, rfl⟩, rfl⟩, rfl⟩, rfl⟩

/-! ## Loading -/

variable {file : Option (Option String)} {env : List (String × String)}

/-- Limits that are read are loaded as far as validation accepts them. -/
theorem load_of_read {settings : List (String × Setting)}
    (hfile : fileSettings? file = some settings)
    (hread : ofSettings? (settings ++ environment env) = some l) :
    load file env = (l.validate.mapError .invalid).map fun _ => l := by
  simp only [load, hfile, hread]

/-- What loading can do: read no limits, or read some and let validation decide. -/
theorem load_cases (file : Option (Option String)) (env : List (String × String)) :
    load file env = .error .unreadable ∨
      ∃ l settings, fileSettings? file = some settings ∧
        ofSettings? (settings ++ environment env) = some l ∧
        load file env = (l.validate.mapError .invalid).map fun _ => l := by
  cases hfile : fileSettings? file with
  | none => exact .inl (by simp only [load, hfile])
  | some settings =>
    cases hread : ofSettings? (settings ++ environment env) with
    | none => exact .inl (by simp only [load, hfile, hread])
    | some l => exact .inr ⟨l, settings, rfl, hread, load_of_read hfile hread⟩

/-- **What is loaded is usable, and each limit is what the environment says, else what the file
says, else the standard one.**

**Proof sketch.** What loading does is read the limits and let validation decide (`load_cases`).
What is said in the end is what the environment says, else what the file says. -/
theorem load_eq_ok_iff :
    load file env = .ok l ↔
      l.Usable ∧ ∃ settings, fileSettings? file = some settings ∧
        l.Follows fun name => (lastWord? (environment env) name).or (lastWord? settings name) := by
  simp only [← lastWord?_append, ← ofSettings?_eq_some_iff, ← validate_eq_ok_iff]
  constructor
  · intro h
    obtain hnone | ⟨read, settings, hfile, hread, hload⟩ := load_cases file env
    · rw [hnone] at h
      cases h
    · rw [hload] at h
      cases hvalid : read.validate with
      | error e => simp [hvalid, Except.mapError, Except.map] at h
      | ok _ =>
        obtain rfl : read = l := by simpa [hvalid, Except.mapError, Except.map] using h
        exact ⟨hvalid, settings, hfile, hread⟩
  · rintro ⟨hvalid, settings, hfile, hread⟩
    rw [load_of_read hfile hread, hvalid]
    rfl

/-- What a list of settings says about a name is the value of one of them, or that it has parts, so
it fits if they do. -/
theorem fits_of_lastWord? {settings : List (String × Setting)} (h : ∀ p ∈ settings, p.2.Fits)
    {name : String} {v : Setting} (hv : lastWord? settings name = some v) : v.Fits := by
  obtain ⟨before, after, hsplit, -⟩ := List.lookup_eq_some_iff.1 hv
  have hmem : (name, v) ∈ settings.map fun (name, v) => Setting.assign name v :=
    List.mem_reverse.1 (hsplit ▸ List.mem_append_right before List.mem_cons_self)
  obtain ⟨p, hp, hassign⟩ := List.mem_map.1 hmem
  dsimp only [Setting.assign] at hassign
  split at hassign
  · cases hassign
    trivial
  · cases hassign
    exact h p hp

/-- The settings of a file fit. -/
theorem fits_of_fileSettings? {settings : List (String × Setting)}
    (h : fileSettings? file = some settings) : ∀ p ∈ settings, p.2.Fits := by
  cases file with
  | none =>
    cases h
    simp
  | some text =>
    obtain ⟨text, -, hsettings⟩ := Option.bind_eq_some_iff.1 h
    exact (Toml.settings?_grown hsettings).2

/-- The settings of the environment fit. -/
theorem fits_of_environment : ∀ p ∈ environment env, p.2.Fits := by
  intro p hp
  obtain ⟨⟨name, text⟩, -, hp⟩ := List.mem_filterMap.1 hp
  obtain ⟨-, hp⟩ := Option.ite_none_right_eq_some.1 hp
  cases hp
  exact Setting.fits_ofText text

/-- A limit that takes its value from a setting that fits has at most 64 bits. -/
theorem Stands.lt {word : Option Setting} {standard value : Nat} (h : Stands word standard value)
    (hstandard : standard < 2 ^ 64) (hword : ∀ v, word = some v → v.Fits) : value < 2 ^ 64 := by
  cases word with
  | none => exact h ▸ hstandard
  | some v => exact (hword v rfl).natural?_lt h

/-- **Limits that are loaded have at most 64 bits**, whatever the file and the environment say. -/
theorem load_lt (h : load file env = .ok l) : ∀ n ∈ l.values, n < 2 ^ 64 := by
  obtain ⟨-, settings, hfile, hfollows⟩ := load_eq_ok_iff.1 h
  have hword (name : String) (v : Setting)
      (hv : (lastWord? (environment env) name).or (lastWord? settings name) = some v) : v.Fits := by
    obtain hv | ⟨-, hv⟩ := Option.or_eq_some_iff.1 hv
    · exact fits_of_lastWord? fits_of_environment hv
    · exact fits_of_lastWord? (fits_of_fileSettings? hfile) hv
  obtain ⟨hmin, hnesting, hlength⟩ := follows_iff.1 hfollows
  simp only [values, List.forall_mem_cons, List.not_mem_nil, false_implies, implies_true, and_true]
  exact ⟨hmin.lt (by decide) (hword _), hnesting.lt (by decide) (hword _),
    hlength.lt (by decide) (hword _)⟩

/-- **Limits that are read and refused are too small**, and the error is about the first of them
that is. -/
theorem load_invalid {e : LimitsError} (h : load file env = .error (.invalid e)) :
    ∃ l settings, fileSettings? file = some settings ∧
      ofSettings? (settings ++ environment env) = some l ∧ l.firstTooSmall? = some e.place := by
  obtain hnone | ⟨l, settings, hfile, hread, hload⟩ := load_cases file env
  · rw [hnone] at h
    cases h
  · rw [hload] at h
    cases hvalid : l.validate with
    | ok _ => simp [hvalid, Except.mapError, Except.map] at h
    | error e' =>
      obtain rfl : e' = e := by simpa [hvalid, Except.mapError, Except.map] using h
      exact ⟨l, settings, hfile, hread, validate_error hvalid⟩

/-- The standard limits are usable, so that validation accepts them. -/
theorem standard_usable : standard.Usable := ⟨by decide, by decide, by decide⟩

/-- Variables for other programs give no settings. -/
theorem environment_eq_nil (h : ∀ p ∈ env, ¬ variableStart <+: (lowerCase p.1).toList) :
    environment env = [] := by
  rw [environment, List.filterMap_eq_nil_iff]
  intro p hp
  simp [h p hp]

/-- **With nothing said, the standard limits are loaded.** -/
theorem load_standard (h : ∀ p ∈ env, ¬ variableStart <+: (lowerCase p.1).toList) :
    load none env = .ok standard := by
  refine load_eq_ok_iff.2 ⟨standard_usable, [], rfl, follows_iff.2 ?_⟩
  rw [environment_eq_nil h]
  exact ⟨rfl, rfl, rfl⟩

/-! ## Documents -/

/-- **Limits survive as a document.** -/
theorem ofJson?_toJson (l : Limits) : ofJson? l.toJson = some l := by
  have hrecord : l.toJson.record? = some (.members [("min_combine_rules", .ofNat l.minCombined),
      ("max_nesting_depth", .ofNat l.maxNesting), ("max_rule_length", .ofNat l.maxLength)]) := rfl
  simp [ofJson?, hrecord, names, Json.Record.fields?, Json.Record.member?, ofFields?]

end Limits

end Eligibility
