import Eligibility.Proofs.SettingsText

/-!
# The values of settings

Whatever a text or the environment says, a setting that is an integer has at most 64 bits, and so
has the natural number that any setting stands for. The tables of a document grow so that no key
gets two values, and the settings of a text have different names.

## Main definitions

* `Setting.Fits`, `Toml.Node.Fits` — integers have at most 64 bits.
* `Toml.Grown` — the entries of a table as they grow.

## Main results

* `Setting.Fits.natural?_lt` — the natural number that a setting stands for has at most 64 bits.
* `Toml.Grown.document?` — every line of a document keeps its entries in order.
* `Toml.settings?_grown` — the settings of a text have different names and fit.
-/

set_option relaxedAutoImplicit false
set_option autoImplicit false

namespace Eligibility

/-! ## Integers of 64 bits -/

namespace Setting

/-- An integer has at most 64 bits. -/
def Fits : Setting → Prop
  | integer i => -2 ^ 63 ≤ i ∧ i < 2 ^ 63
  | _ => True

/-- A number is brought into the range of 64 bits. -/
theorem clamp_lt (x : Binary64) : clamp x < 2 ^ 64 := by
  unfold clamp
  split
  · decide
  · split
    · omega
    · decide

/-- The natural number that a text spells has at most 64 bits. -/
theorem natural?_lt {text : String} {n : Nat} (h : Eligibility.natural? text = some n) :
    n < 2 ^ 64 := by
  obtain ⟨m, -, h⟩ := Option.bind_eq_some_iff.1 h
  obtain ⟨hlt, hm⟩ := Option.ite_none_right_eq_some.1 h
  cases hm
  exact hlt

/-- The integer that a text spells has at most 64 bits. -/
theorem integer?_fits {text : String} {i : Int} (h : Eligibility.integer? text = some i) :
    (integer i).Fits := by
  obtain ⟨n, -, h⟩ := Option.bind_eq_some_iff.1 h
  obtain ⟨hrange, hi⟩ := Option.ite_none_right_eq_some.1 h
  cases hi
  exact hrange

/-- **A setting that fits stands for a natural number of at most 64 bits.** -/
theorem Fits.natural?_lt {v : Setting} (h : v.Fits) {n : Nat} (hn : v.natural? = some n) :
    n < 2 ^ 64 := by
  cases v with
  | boolean b =>
    cases hn
    exact Nat.lt_of_le_of_lt b.toNat_le (by decide)
  | integer i =>
    have hi : i < 2 ^ 63 := h.2
    simp only [natural?] at hn
    split at hn
    · cases hn
      omega
    · cases hn
  | number x =>
    cases hn
    exact clamp_lt x
  | text s =>
    rw [natural?.eq_def] at hn
    dsimp only at hn
    split at hn
    all_goals first | exact Setting.natural?_lt hn | (cases hn; decide)
  | structured => cases hn

/-- A text of the environment gives a setting that fits. -/
theorem fits_ofText (s : String) : (ofText s).Fits := by
  rw [ofText]
  split
  · trivial
  · trivial
  · split
    case h_1 hinteger => exact integer?_fits hinteger
    case h_2 => trivial
    case h_3 => trivial

end Setting

namespace Toml

/-- What a key holds fits, if it is an unquoted scalar. -/
def Node.Fits : Node → Prop
  | .scalar v => v.Fits
  | _ => True

/-- The entries of a table as they grow: no key stands twice, and scalars fit. -/
structure Grown (entries : Entries) : Prop where
  nodup : (entries.map Prod.fst).Nodup
  fits : ∀ p ∈ entries, p.2.Fits

variable {entries entries' : Entries}

/-- A document begins without entries. -/
theorem grown_nil : Grown [] := ⟨List.nodup_nil, by simp⟩

/-- Making a key hold something keeps the entries of a table in order. -/
theorem Grown.put (h : Grown entries) (key : String) {node : Node} (hnode : node.Fits) :
    Grown (put key node entries) where
  nodup := by
    have hfresh : key ∉ (entries.filter (·.1 ≠ key)).map Prod.fst := by simp
    exact List.nodup_cons.2 ⟨hfresh, h.nodup.sublist (List.filter_sublist.map _)⟩
  fits p hp := by
    obtain rfl | hp := List.mem_cons.1 hp
    · exact hnode
    · exact h.fits p (List.mem_of_mem_filter hp)

/-- A table puts the value of a dotted key, or another table, where its first part leads.

**Proof sketch.** By cases on the path and on what its first part leads to. In every case at most
one entry is put, and what is put there fits. -/
theorem Grown.define? {v : Node} (hv : v.Fits) {path : List String} (h : Grown entries)
    (hdefine : define? v path entries = some entries') : Grown entries' := by
  rw [define?.eq_def] at hdefine
  split at hdefine
  · cases hdefine
  · split at hdefine
    · cases hdefine
    · cases hdefine
      exact h.put _ hv
  · split at hdefine
    case h_1 =>
      obtain ⟨_, -, rfl⟩ := Option.map_eq_some_iff.1 hdefine
      exact h.put _ trivial
    case h_2 =>
      obtain ⟨_, -, rfl⟩ := Option.map_eq_some_iff.1 hdefine
      exact h.put _ trivial
    case h_3 =>
      obtain ⟨_, hdefine⟩ := Option.ite_none_left_eq_some.1 hdefine
      obtain ⟨_, -, rfl⟩ := Option.map_eq_some_iff.1 hdefine
      exact h.put _ trivial
    case h_4 =>
      obtain ⟨_, hdefine⟩ := Option.ite_none_left_eq_some.1 hdefine
      obtain ⟨_, -, rfl⟩ := Option.map_eq_some_iff.1 hdefine
      exact h.put _ trivial
    case h_5 => cases hdefine

/-- A change of a table within a document keeps the document in order if it keeps tables in
order. -/
theorem Grown.within? {change : Entries → Option Entries}
    (hchange : ∀ {entries entries'}, Grown entries → change entries = some entries' →
      Grown entries')
    {path : List String} (h : Grown entries)
    (hwithin : within? change path entries = some entries') : Grown entries' := by
  rw [within?.eq_def] at hwithin
  split at hwithin
  · exact hchange h hwithin
  · split at hwithin
    case h_1 =>
      obtain ⟨_, -, rfl⟩ := Option.map_eq_some_iff.1 hwithin
      exact h.put _ trivial
    case h_2 => cases hwithin
    case h_3 =>
      obtain ⟨_, -, rfl⟩ := Option.map_eq_some_iff.1 hwithin
      exact h.put _ trivial
    case h_4 =>
      obtain ⟨_, -, rfl⟩ := Option.map_eq_some_iff.1 hwithin
      exact h.put _ trivial
    case h_5 => cases hwithin

/-- A header makes a new table, or makes one that was only on the path to a header its own. -/
theorem Grown.openKey? {key : String} (h : Grown entries)
    (hopen : openKey? key entries = some entries') : Grown entries' := by
  rw [Toml.openKey?] at hopen
  split at hopen
  · cases hopen
    exact h.put _ trivial
  · cases hopen
    exact h.put _ trivial
  · cases hopen

/-- A header for a further table in a list makes the list or adds to it. -/
theorem Grown.extendKey? {key : String} (h : Grown entries)
    (hextend : extendKey? key entries = some entries') : Grown entries' := by
  rw [Toml.extendKey?] at hextend
  split at hextend
  · cases hextend
    exact h.put _ trivial
  · cases hextend
    exact h.put _ trivial
  · cases hextend

/-- A header keeps a document in order, wherever its table is. -/
theorem Grown.openTable? {path : List String} (h : Grown entries)
    (hopen : openTable? path entries = some entries') : Grown entries' := by
  obtain ⟨_, -, hopen⟩ := Option.bind_eq_some_iff.1 hopen
  exact h.within? Grown.openKey? hopen

/-- So does a header for a further table in a list. -/
theorem Grown.extendTables? {path : List String} (h : Grown entries)
    (hextend : extendTables? path entries = some entries') : Grown entries' := by
  obtain ⟨_, -, hextend⟩ := Option.bind_eq_some_iff.1 hextend
  exact h.within? Grown.extendKey? hextend

/-- The integers of a document have at most 64 bits. -/
theorem integer?_fits {cs : List Char} {i : Int} (h : integer? cs = some i) :
    (Setting.integer i).Fits := by
  obtain ⟨n, -, h⟩ := Option.bind_eq_some_iff.1 h
  obtain ⟨hrange, hi⟩ := Option.ite_none_right_eq_some.1 h
  cases hi
  exact hrange

/-- Unquoted scalars fit: those that are no integers have nothing to fit. -/
theorem scalar?_fits {cs : List Char} {v : Setting} (h : scalar? cs = some v) : v.Fits := by
  rw [scalar?.eq_def] at h
  split at h
  · cases h
    trivial
  · cases h
    trivial
  · split at h
    · cases h
      trivial
    · obtain hinteger | ⟨-, hnumber⟩ := Option.or_eq_some_iff.1 h
      · obtain ⟨i, hi, rfl⟩ := Option.map_eq_some_iff.1 hinteger
        exact integer?_fits hi
      · obtain ⟨x, -, rfl⟩ := Option.map_eq_some_iff.1 hnumber
        trivial

/-- The unquoted scalar at the start of a text fits. -/
theorem unquoted?_fits {cs rest : List Char} {v : Setting} (h : unquoted? cs = some (v, rest)) :
    v.Fits := by
  rw [unquoted?] at h
  split at h
  all_goals
    obtain ⟨_, hscalar, hp⟩ := Option.map_eq_some_iff.1 h
    cases hp
    exact scalar?_fits hscalar

/-- The value at the start of a text fits, since strings, lists and tables have nothing to fit. -/
theorem value?_fits {bound room : Nat} {cs rest : List Char} {v : Node}
    (h : value? bound room cs = some (v, rest)) : v.Fits := by
  cases bound with
  | zero => simp [value?] at h
  | succ bound =>
    rw [value?.eq_def] at h
    dsimp only at h
    split at h
    case h_5 | h_6 =>
      split at h
      · cases h
      · obtain ⟨_, -, rfl⟩ := exists_of_map h fun _ => rfl
        trivial
    case h_7 =>
      obtain ⟨_, hscalar, rfl⟩ := exists_of_map h fun _ => rfl
      exact unquoted?_fits hscalar
    all_goals
      obtain ⟨_, -, rfl⟩ := exists_of_map h fun _ => rfl
      trivial

/-- Every line keeps the entries of a document in order. -/
theorem Grown.line {header header' : List String} {cs rest : List Char} (h : Grown entries)
    (hline : Line header entries cs header' entries' rest) : Grown entries' := by
  cases hline with
  | tables _ hgrown _ => exact h.extendTables? hgrown
  | table _ _ hgrown _ => exact h.openTable? hgrown
  | pair _ _ _ hvalue hgrown _ =>
    exact h.within? (fun h hdefine => h.define? (value?_fits hvalue) hdefine) hgrown

/-- **Every document keeps its entries in order**, line by line. -/
theorem Grown.document? {bound : Nat} {header : List String} {cs : List Char} (h : Grown entries)
    (hdocument : document? bound header entries cs = some entries') : Grown entries' := by
  induction bound generalizing header entries cs with
  | zero => simp [Toml.document?] at hdocument
  | succ bound ih =>
    obtain ⟨_, -, ⟨-, rfl⟩ | ⟨_, grown, _, hline, hnext⟩⟩ := document?_succ_iff.1 hdocument
    · exact h
    · exact ih (h.line hline) hnext

/-- A table that says something is a text, if it stands for a moment, or is structured. -/
theorem tableSetting?_fits {settings : List (Option Setting)} {v : Setting}
    (h : tableSetting? entries settings = some v) : v.Fits := by
  rw [tableSetting?] at h
  split at h
  · split at h
    · obtain ⟨-, hv⟩ := Option.ite_none_right_eq_some.1 h
      cases hv
      trivial
    · cases h
  · obtain ⟨-, hv⟩ := Option.ite_none_right_eq_some.1 h
    cases hv
    trivial

/-- A scalar keeps its value as a setting, and whatever else a key holds is no integer. -/
theorem Node.Fits.setting? {node : Node} (h : node.Fits) {v : Setting}
    (hv : node.setting? = some v) : v.Fits := by
  cases node with
  | text s =>
    cases hv
    trivial
  | scalar w =>
    cases hv
    exact h
  | list items =>
    obtain ⟨-, hv⟩ := Option.ite_none_right_eq_some.1 hv
    cases hv
    trivial
  | table origin inner => exact tableSetting?_fits hv
  | tables earlier last =>
    obtain ⟨-, hv⟩ := Option.ite_none_right_eq_some.1 hv
    obtain ⟨_, -, rfl⟩ := Option.map_eq_some_iff.1 hv
    trivial

/-- The settings that entries are have the keys of the entries, and fit if these do. -/
theorem mapM_setting? {settings : List (String × Setting)}
    (h : entries.mapM (fun p => p.2.setting?.map (p.1, ·)) = some settings) :
    settings.map Prod.fst = entries.map Prod.fst ∧
      ((∀ p ∈ entries, p.2.Fits) → ∀ p ∈ settings, p.2.Fits) := by
  induction entries generalizing settings with
  | nil =>
    cases h
    simp
  | cons entry entries ih =>
    rw [List.mapM_cons] at h
    obtain ⟨setting, hsetting, h⟩ := Option.bind_eq_some_iff.1 h
    obtain ⟨v, hv, rfl⟩ := Option.map_eq_some_iff.1 hsetting
    obtain ⟨others, hothers, h⟩ := Option.bind_eq_some_iff.1 h
    cases h
    obtain ⟨hnames, hfits⟩ := ih hothers
    refine ⟨by simp [hnames], fun hentries => ?_⟩
    rw [List.forall_mem_cons] at hentries ⊢
    exact ⟨hentries.1.setting? hv, hfits hentries.2⟩

/-- **The settings of a text have different names and fit.** -/
theorem settings?_grown {text : String} {settings : List (String × Setting)}
    (h : settings? text = some settings) :
    (settings.map Prod.fst).Nodup ∧ ∀ p ∈ settings, p.2.Fits := by
  obtain ⟨document, hdocument, hsettings⟩ := Option.bind_eq_some_iff.1 h
  have hgrown := grown_nil.document? hdocument
  obtain ⟨-, hsettings⟩ := Option.ite_none_left_eq_some.1 hsettings
  obtain ⟨hnames, hfits⟩ := mapM_setting? hsettings
  exact ⟨hnames ▸ hgrown.nodup, hfits hgrown.fits⟩

end Toml

end Eligibility
