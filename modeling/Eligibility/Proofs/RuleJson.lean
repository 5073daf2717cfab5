import Eligibility.Proofs.FormulaJson
import Eligibility.Proofs.Restoring
import Eligibility.Proofs.StoredText
import Eligibility.Rule.Json

/-!
# Stored rules in JSON

The document of a rule holds the document of its formula inside one object more. A stored rule has
finite numbers only and ids and numbers of 64 bits, so that it is read back from its own text as
long as its formula leaves room for that object. The depth limit of formulas is far above this, and
a store holds rules whose text is written and is not read again.

## Main definitions

* `Rule.Storable`, `Store.Storable` — rules as an engine stores them, and stores of such rules.

## Main results

* `Rule.ofJson?_received` — the rule that is read of its own document.
* `Rule.ofJson?_text` — the rule that is read of its own text.
* `Store.Storable.act`, `Host.storable_after` — every act and every run store such rules only.
* `Host.ofJson?_stored_text` — the stored rules that are read back from their texts, in every run.
* `Host.stored_text_not_read` — a stored rule that is not.
-/

set_option relaxedAutoImplicit false
set_option autoImplicit false

namespace Eligibility

namespace Json

/-- Members fit if those of each part do. -/
theorem membersFit_append {ms ns : List (String × Json)} :
    MembersFit (ms ++ ns) ↔ MembersFit ms ∧ MembersFit ns := by
  induction ms with
  | nil => simp [MembersFit]
  | cons m ms ih => rw [List.cons_append, MembersFit, ih, MembersFit, and_assoc]

/-- Natural numbers are received as they are. -/
theorem itemsReceived_ofNat (ns : List Nat) (room : Nat) :
    itemsReceived (ns.map ofNat) room = ns.map ofNat := by
  induction ns with
  | nil => rfl
  | cons n ns ih => rw [List.map_cons, itemsReceived, ih]; rfl

/-- A list of natural numbers is read back from its document. -/
theorem mapM_natural? (ns : List Nat) : (ns.map ofNat).mapM natural? = some ns := by
  induction ns with
  | nil => rfl
  | cons n ns ih => simp [ih]

/-- A natural number of 64 bits fits. -/
theorem integersFit_ofNat {n : Nat} (h : n < 2 ^ 64) : (ofNat n).IntegersFit := by
  constructor <;> omega

/-- Natural numbers of 64 bits fit as a list. -/
theorem itemsFit_ofNat {ns : List Nat} (h : ∀ n ∈ ns, n < 2 ^ 64) : ItemsFit (ns.map ofNat) := by
  induction ns with
  | nil => trivial
  | cons n ns ih =>
    exact ⟨integersFit_ofNat (h n List.mem_cons_self), ih fun m hm =>
        h m (List.mem_cons_of_mem n hm)⟩

end Json

namespace Rule

/-- The integers of the document of a rule have at most 64 bits when those of the rule do. -/
theorem integersFit_toJson {r : Rule} (hid : r.id < 2 ^ 64) (hr : r.toDraft.Fits) :
    r.toJson.IntegersFit := by
  refine Json.membersFit_append.mpr ⟨⟨Json.integersFit_ofNat hid, trivial,
    r.formula.integersFit_toJson, trivial, ?_, trivial⟩, ?_⟩
  · cases hnumber : r.number with
    | none => trivial
    | some n => exact Json.integersFit_ofNat (hr.number n hnumber)
  · cases r.sources.isEmpty with
    | true => trivial
    | false => exact ⟨Json.itemsFit_ofNat hr.sources, trivial⟩

/-- The number of a rule is read of its field. -/
theorem numberOf?_received (number : Option Nat) (room : Nat) :
    numberOf? ((number.elim .null Json.ofNat).received room) = some number := by
  cases number with
  | none => rfl
  | some n =>
    show (Json.ofNat n).natural?.map some = _
    rw [Json.natural?_ofNat]
    rfl

/-- The rule that is read of its fields, where the sources may be left out when there are none. -/
theorem ofFields?_received (r : Rule) (room : Nat) (sources : Option Json)
    (hsources : idsOf? (sources.getD (.array [])) = some r.sources) :
    ofFields? [some (.ofNat r.id), some (.string r.text), some (r.formula.toJson.received room),
      some (.bool (r.kind == .combined)), some ((r.number.elim .null Json.ofNat).received room),
      sources] = if r.formula.isFinite ∧ r.formula.depth ≤ room then some r else none := by
  have hkind : (if (r.kind == .combined) = true then RuleKind.combined else .base) = r.kind := by
    cases r.kind <;> rfl
  simp only [ofFields?, r.formula.ofJson?_received room, numberOf?_received,
    Json.natural?_ofNat, hkind,
    hsources, Option.getD_some, Option.bind_eq_bind, Option.bind_some, Option.pure_def]
  split <;> rfl

/-- **The rule that is read of its own document**: itself, when all its numbers are finite and there
is room for its formula inside the object of the rule, and otherwise none.

**Proof sketch.** By whether the rule has sources, because a rule without has no field for them. The
formula is read with the room that is left inside the object of the rule. -/
theorem ofJson?_received (r : Rule) (room : Nat) :
    ofJson? (r.toJson.received (room + 2)) =
      if r.formula.isFinite ∧ r.formula.depth ≤ room + 1 then some r else none := by
  have hid : (Json.ofNat r.id).received (room + 1) = .ofNat r.id := rfl
  -- a rule without sources has no field for them
  cases hsources : r.sources with
  | nil =>
    rw [← r.ofFields?_received (room + 1) none (by rw [hsources]; rfl)]
    simp [toJson, hsources, Json.received, Json.membersReceived, ofJson?, Json.record?,
      Json.Record.fields?, Json.Record.member?, hid]
  | cons source more =>
    have hitems := Json.itemsReceived_ofNat (source :: more) room
    have hread : idsOf? (.array ((source :: more).map Json.ofNat)) = some r.sources := by
      rw [hsources]
      exact Json.mapM_natural? (source :: more)
    rw [List.map_cons] at hitems hread
    rw [← r.ofFields?_received (room + 1) (some _) hread]
    simp [toJson, hsources, Json.received, Json.membersReceived, ofJson?, Json.record?,
      Json.Record.fields?, Json.Record.member?, hid, hitems]

/-- **The rule that is read of its own text**: itself, when all its numbers are finite and its
formula has fewer levels than containers may be nested, and otherwise none. -/
theorem ofJson?_text {r : Rule} (hid : r.id < 2 ^ 64) (hr : r.toDraft.Fits) :
    (Json.parse? r.toJson.text).bind ofJson? =
      if r.formula.isFinite ∧ r.formula.depth < Json.maxDepth then some r else none := by
  rw [Json.parse?_text (integersFit_toJson hid hr), Option.bind_some]
  exact (r.ofJson?_received 125).trans
    (if_congr (and_congr_right fun _ => Nat.lt_succ_iff.symm) rfl rfl)

end Rule

/-- The numbers of a formula with a spelling are finite. -/
theorem Formula.Lexable.isFinite {f : Formula} (h : f.Lexable) : f.isFinite = true := by
  refine List.all_eq_true.mpr fun c hc => ?_
  have hliteral := (h c hc).literal
  cases hc : c.literal with
  | number x =>
    rw [hc] at hliteral
    exact hliteral
  | text s => rfl

/-! ## Stored rules -/

/-- A rule whose text parses to its formula and whose id and numbers have 64 bits. -/
structure Rule.Storable (limits : Limits) (r : Rule) : Prop where
  readsBack : r.ReadsBack limits
  id_lt : r.id < 2 ^ 64
  fits : r.toDraft.Fits

/-- A storable rule is read back from its text as long as its formula leaves room for the object of
the rule. -/
theorem Rule.Storable.ofJson?_text {limits : Limits} {r : Rule} (h : r.Storable limits) :
    (Json.parse? r.toJson.text).bind Rule.ofJson? =
      if r.formula.depth < Json.maxDepth then some r else none := by
  rw [Rule.ofJson?_text h.id_lt h.fits]
  simp only [h.readsBack.lexable.isFinite, true_and]

namespace Store

variable {limits : Limits} {s s' : Store}

/-- A store with storable rules and counters of 64 bits. -/
structure Storable (limits : Limits) (s : Store) : Prop extends CountersFit s where
  rules : ∀ r ∈ s.rules, r.Storable limits

/-- Every act leaves storable rules and counters of 64 bits, also where a counter wraps.

**Proof sketch.** By the act. A number that is taken has 64 bits also after a wrap. A draft that the
engine made carries the last number of its kind and the ids of stored rules, and the rule that it
becomes takes the place of another or none. -/
theorem Storable.act (hs : s.Storable limits) (act : Act limits s s') : s'.Storable limits := by
  have hreads := act.readsBack fun r hr => (hs.rules r hr).readsBack
  cases act with
  | takeNumber kind =>
    refine ⟨?_, by rw [takeNumber_rules]; exact hs.rules⟩
    cases kind with
    | base => exact ⟨hs.lastId, next_lt _, hs.lastCombined⟩
    | combined => exact ⟨hs.lastId, hs.lastBase, next_lt _⟩
  | @create d r _ made hcreate =>
    obtain ⟨rfl, rfl, -⟩ := create_ok hcreate
    have hdraft : d.Fits := by
      cases made with
      | base => exact ⟨fun n hn => Option.some.inj hn ▸ hs.lastBase, by simp [Draft.base]⟩
      | combined =>
        refine ⟨fun n hn => Option.some.inj hn ▸ hs.lastCombined, List.forall_mem_map.mpr ?_⟩
        exact fun b hb => (hs.rules b (mem_of_mem_findByIds hb).1).id_lt
    refine ⟨⟨next_lt _, hs.lastBase, hs.lastCombined⟩, fun r hr => ?_⟩
    rcases mem_of_mem_insertById hr with rfl | hold
    · exact ⟨hreads _ hr, next_lt _, hdraft⟩
    · exact hs.rules r hold

end Store

namespace Host

/-- The rules that an engine has stored are storable. -/
theorem storable_after (limits : Limits) (run : List Event) :
    ((ofStore .empty).after limits run).store.Storable limits := by
  refine invariant_after (P := Store.Storable limits) Store.Storable.act ⟨?_, ?_⟩ run
  · exact ⟨Nat.two_pow_pos 64, Nat.two_pow_pos 64, Nat.two_pow_pos 64⟩
  · simp [ofStore, Store.empty]

/-- **The stored rules that are read back from their texts** are, in every run of an engine and
whatever fails in it, those with formulas of fewer levels than the containers that a text may nest.
The texts of all others are no rules.

**Proof sketch.** Every act keeps the stored rules storable, so that their numbers are finite. What
is left to decide is whether there is room for the formula. -/
theorem ofJson?_stored_text (limits : Limits) (run : List Event) (r : Rule)
    (hr : r ∈ ((ofStore .empty).after limits run).store.rules) :
    (Json.parse? r.toJson.text).bind Rule.ofJson? =
      if r.formula.depth < Json.maxDepth then some r else none :=
  ((storable_after limits run).rules r hr).ofJson?_text

/-- A rule that was combined of two others, after a request that the store refused. -/
theorem ofJson?_stored_text_combined :
    let run : List Event := [.request (.createRule "a = 'x' OR b < 2.5"),
      .failures fun c => if c = .create then some (.unavailable "full") else none,
      .request (.createRule "c >= 3"), .failures fun _ => none,
      .request (.createRule "c >= -3"), .request (.combineRules [2, 1])]
    ∃ r ∈ ((ofStore .empty).after .standard run).store.rules, r.sources = [2, 1] ∧
      (Json.parse? r.toJson.text).bind Rule.ofJson? = some r := by
  intro run
  have hstored : ∃ r ∈ ((ofStore .empty).after .standard run).store.rules,
      r.sources = [2, 1] ∧ r.formula.depth < Json.maxDepth := by
    decide +kernel
  obtain ⟨r, hr, hsources, hdepth⟩ := hstored
  refine ⟨r, hr, hsources, ?_⟩
  rw [ofJson?_stored_text .standard run r hr, if_pos hdepth]

end Host

/-! ## Rules that are not read back -/

namespace Formula

/-- A condition joined with itself, `n` times. -/
def repeated (c : Condition) : (n : Nat) → Formula
  | 0 => condition c
  | n + 1 => (repeated c n).and (condition c)

variable (c : Condition) (n : Nat)

/-- Each repetition makes a chain one level deeper. -/
theorem depth_repeated : (repeated c n).depth = n + 1 := by
  induction n with
  | zero => rfl
  | succ n ih =>
    show max (repeated c n).depth 1 + 1 = _
    rw [ih]
    omega

/-- A chain of conjunctions stands to the left of another one without parentheses. -/
theorem needsParens_repeated : (repeated c n).needsParens .and .left = false := by
  cases n <;> rfl

/-- So the text of a chain has no parentheses, however long it is. -/
theorem nesting_repeated : (repeated c n).nesting = 0 := by
  induction n with
  | zero => rfl
  | succ n ih =>
    show max ((repeated c n).nesting + ((repeated c n).needsParens .and .left).toNat) 0 = 0
    rw [ih, needsParens_repeated]
    rfl

/-- A chain has a spelling if its condition has one. -/
theorem lexable_repeated (h : c.Lexable) : (repeated c n).Lexable := by
  induction n with
  | zero =>
    intro d hd
    rwa [List.mem_singleton.mp hd]
  | succ n ih =>
    refine lexable_join.mpr ⟨ih, fun d hd => ?_⟩
    rwa [List.mem_singleton.mp hd]

/-- The text of a chain grows by the condition and the keyword with each repetition. -/
theorem utf8ByteSize_text_repeated :
    (repeated c n).text.utf8ByteSize = c.text.utf8ByteSize + n * (c.text.utf8ByteSize + 5) := by
  induction n with
  | zero =>
    rw [Nat.zero_mul]
    rfl
  | succ n ih =>
    have htext : (repeated c (n + 1)).text =
        (repeated c n).text ++ " " ++ "AND" ++ " " ++ c.text := by
      rw [repeated, Formula.and, text, needsParens_repeated]
      rfl
    have hspace : " ".utf8ByteSize = 1 := rfl
    have hkeyword : "AND".utf8ByteSize = 3 := rfl
    simp only [htext, String.utf8ByteSize_append, ih, hspace, hkeyword, Nat.succ_mul]
    omega

end Formula

namespace Host

/-- The first rule of a store. -/
theorem store_after_createRule {limits : Limits} {text : String} {f : Formula}
    (hlength : ¬ limits.maxLength < text.utf8ByteSize)
    (hparse : Formula.parse limits.maxNesting text = .ok f) :
    ((ofStore .empty).after limits [.request (.createRule text)]).store =
      ⟨[⟨.base text f 1, 1⟩], 1, 1, 0⟩ := by
  show (((Request.createRule text).perform limits).outcome (ofStore .empty)).2.store = _
  rw [Request.perform, Access.outcome_map, Engine.createRule_outcome, if_neg hlength, hparse]
  dsimp only
  rw [Engine.outcome_storeNumbered]
  rfl

/-- **A rule that is stored and not read back**: an author joins 127 conditions, which is far within
the limits for the text and the formula, and the text of the stored rule is no rule. -/
theorem stored_text_not_read :
    let f := Formula.repeated ⟨"a", .equal, .text "x"⟩ 126
    let run : List Event := [.request (.createRule f.text)]
    ∃ r ∈ ((ofStore .empty).after .standard run).store.rules, r.formula = f ∧
      (Json.parse? r.toJson.text).bind Rule.ofJson? = none := by
  intro f run
  have hlexable : f.Lexable := Formula.lexable_repeated _ 126 (by decide)
  have hdepth : f.depth = 127 := Formula.depth_repeated _ 126
  have hlength : ¬ Limits.standard.maxLength < f.text.utf8ByteSize := by
    rw [Formula.utf8ByteSize_text_repeated]
    decide +kernel
  have hparse : Formula.parse Limits.standard.maxNesting f.text = .ok f := by
    refine Formula.parse_text hlexable (by rw [hdepth]; decide) ?_
    rw [Formula.nesting_repeated]
    exact Nat.zero_le _
  have hstore := store_after_createRule hlength hparse
  have hr : ⟨.base f.text f 1, 1⟩ ∈ ((ofStore .empty).after .standard run).store.rules := by
    rw [hstore]
    exact List.mem_singleton.mpr rfl
  have hdeep : ¬ f.depth < Json.maxDepth := by
    rw [hdepth]
    decide
  refine ⟨_, hr, rfl, ?_⟩
  rw [((storable_after .standard run).rules _ hr).ofJson?_text]
  exact if_neg hdeep

end Host

end Eligibility
