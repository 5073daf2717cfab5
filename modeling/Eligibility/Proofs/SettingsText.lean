import Mathlib.Data.List.Infix
import Eligibility.Setting.Toml.Document

/-!
# Reading settings from a text

A reader of TOML takes something from the front of a text and leaves the rest as it stands. So the
bounds that make the readers of values and documents recursive never decide what is read: a text
that is read with some bound is read with every bound that is at least the length of what is taken.
A document is then what its lines make of the entries before them, one line after another.

## Main definitions

* `Toml.Takes` — something is taken from the front of a text.
* `Toml.Spends` — a bounded reader takes something, and with every bound as large as that.
* `Toml.Line` — what one line of a document makes of the entries before it.

## Main results

* `Toml.spends` — the bound does not decide which value is read.
* `Toml.document?_of_length_lt` — nor which document is.
* `Toml.document?_succ_iff` — a document is read line by line.
* `Toml.settings?_eq_some_iff` — which settings a text gives.
-/

set_option relaxedAutoImplicit false
set_option autoImplicit false

namespace Eligibility

namespace Toml

/-! ## What a reader takes -/

/-- Something is taken from the front of the text `cs`, and `rest` is left. -/
structure Takes (cs rest : List Char) : Prop where
  suffix : rest <:+ cs
  length_lt : rest.length < cs.length

variable {c : Char} {cs cs' rest s : List Char}

/-- Whatever is left behind a character is left of something. -/
theorem Takes.of_cons (h : rest <:+ cs) : Takes (c :: cs) rest where
  suffix := h.trans (List.suffix_cons c cs)
  length_lt := Nat.lt_succ_of_le h.length_le

/-- What takes something of a text takes something of a longer one. -/
theorem Takes.cons (h : Takes cs rest) : Takes (c :: cs) rest := .of_cons h.suffix

/-- Something is taken also where a reader passed over a part before. -/
theorem Takes.before (h : Takes cs rest) (h' : cs <:+ cs') : Takes cs' rest where
  suffix := h.suffix.trans h'
  length_lt := Nat.lt_of_lt_of_le h.length_lt h'.length_le

/-- Something is taken also where one more character is. -/
theorem Takes.tail (h : Takes cs (c :: rest)) : Takes cs rest where
  suffix := (List.suffix_cons c rest).trans h.suffix
  length_lt := Nat.lt_trans (Nat.lt_succ_self _) h.length_lt

/-- Something is taken also where a reader passes over a part after. -/
theorem Takes.after (h : Takes cs cs') (h' : rest <:+ cs') : Takes cs rest where
  suffix := h'.trans h.suffix
  length_lt := Nat.lt_of_le_of_lt h'.length_le h.length_lt

/-- Spaces are passed over from the front. -/
theorem skipSpace_suffix (cs : List Char) : skipSpace cs <:+ cs := List.dropWhile_suffix _

/-- Spaces, line ends and comments are passed over from the front. -/
theorem skipLines_suffix {inComment : Bool} (h : skipLines inComment cs = some rest) :
    rest <:+ cs := by
  fun_induction skipLines inComment cs
  case case1 | case8 =>
    cases h
    exact List.suffix_rfl
  case case2 ih => exact (ih h).trans ((List.suffix_cons _ _).trans (List.suffix_cons _ _))
  case case3 ih | case4 ih | case6 ih | case7 ih => exact (ih h).trans (List.suffix_cons _ _)
  case case5 => cases h

/-- The text behind the first character of a part of a text. -/
theorem tail_suffix (h : c :: rest <:+ cs) : rest <:+ cs := (List.suffix_cons c rest).trans h

/-- The rest of a line is passed over from the front. -/
theorem endLine?_suffix (h : endLine? cs = some rest) : rest <:+ cs := by
  have hspace := skipSpace_suffix cs
  rw [endLine?] at h
  split at h
  case h_1 =>
    cases h
    exact List.nil_suffix
  case h_2 heq =>
    cases h
    exact tail_suffix (heq ▸ hspace)
  case h_3 heq =>
    cases h
    exact tail_suffix (tail_suffix (heq ▸ hspace))
  case h_4 comment heq =>
    have hcomment : comment.dropWhile isText <:+ cs :=
      (List.dropWhile_suffix _).trans (tail_suffix (heq ▸ hspace))
    split at h
    case h_1 =>
      cases h
      exact List.nil_suffix
    case h_2 heq =>
      cases h
      exact tail_suffix (heq ▸ hcomment)
    case h_3 heq =>
      cases h
      exact tail_suffix (tail_suffix (heq ▸ hcomment))
    case h_4 => cases h
  case h_5 => cases h

/-- A reader that changes what another one has read leaves what the other one leaves. -/
theorem exists_of_map {α β : Type} {read : Option (α × List Char)}
    {f : α × List Char → β × List Char} {v : β} (h : read.map f = some (v, rest))
    (hf : ∀ r, (f r).2 = r.2) : ∃ a, read = some (a, rest) ∧ (f (a, rest)).1 = v := by
  obtain ⟨⟨a, tail⟩, hread, hp⟩ := Option.map_eq_some_iff.1 h
  have htail : tail = rest := (hf (a, tail)).symm.trans (congrArg Prod.snd hp)
  subst htail
  exact ⟨a, hread, congrArg Prod.fst hp⟩

/-- A reader that puts an escaped character before what another one has read leaves what the other
one leaves. -/
theorem exists_of_escape {char? : Option Char} {read : Option (List Char × List Char)}
    (h : (do
      let char ← char?
      let (s, rest) ← read
      return (char :: s, rest)) = some (s, rest)) : ∃ s, read = some (s, rest) := by
  obtain ⟨char, -, h⟩ := Option.bind_eq_some_iff.1 h
  obtain ⟨⟨s, _⟩, hread, hp⟩ := Option.bind_eq_some_iff.1 h
  cases hp
  exact ⟨s, hread⟩

/-- A string with escapes takes at least its closing quote.

**Proof sketch.** By induction along the reader. Every case takes a character or an escape, and goes
on behind it. -/
theorem basic?_takes (h : basic? cs = some (s, rest)) : Takes cs rest := by
  fun_induction basic? cs generalizing s
  case case1 | case8 => cases h
  case case2 =>
    cases h
    exact .of_cons List.suffix_rfl
  case case3 ih =>
    obtain ⟨s, hs⟩ := exists_of_escape h
    exact (ih hs).cons.cons.cons.cons
  case case4 ih =>
    obtain ⟨s, hs⟩ := exists_of_escape h
    exact (ih hs).cons.cons.cons.cons.cons.cons
  case case5 ih =>
    obtain ⟨s, hs⟩ := exists_of_escape h
    exact (ih hs).cons.cons.cons.cons.cons.cons.cons.cons.cons.cons
  case case6 ih =>
    obtain ⟨s, hs⟩ := exists_of_escape h
    exact (ih hs).cons.cons
  case case7 ih =>
    obtain ⟨s, hs, -⟩ := exists_of_map h fun _ => rfl
    exact (ih hs).cons

/-- The line end behind opening quotes is passed over from the front. -/
theorem skipFirstLineEnd_suffix (cs : List Char) : skipFirstLineEnd cs <:+ cs := by
  fun_cases skipFirstLineEnd cs with
  | case1 => exact List.suffix_cons _ _
  | case2 => exact (List.suffix_cons _ _).trans (List.suffix_cons _ _)
  | case3 => exact List.suffix_rfl

/-- A string without escapes takes at least its closing quote. -/
theorem raw?_takes (h : raw? cs = some (s, rest)) : Takes cs rest := by
  fun_induction raw? cs generalizing s
  case case1 | case4 => cases h
  case case2 =>
    cases h
    exact .of_cons List.suffix_rfl
  case case3 ih =>
    obtain ⟨s, hs, -⟩ := exists_of_map h fun _ => rfl
    exact (ih hs).cons

/-- A string takes at least its quotes. -/
theorem quoted?_takes (h : quoted? cs = some (s, rest)) : Takes cs rest := by
  rw [quoted?.eq_def] at h
  split at h
  · exact (basic?_takes h).cons
  · exact (raw?_takes h).cons
  · cases h

/-- A string of several lines takes at least its closing quotes.

**Proof sketch.** By induction along the reader. Every case takes a character, a line end or an
escape, and goes on behind it. -/
theorem lines?_takes {quote : Char} {folding : Bool}
    (h : lines? quote folding cs = some (s, rest)) : Takes cs rest := by
  fun_induction lines? quote folding cs generalizing s
  case case1 | case11 | case13 => cases h
  case case2 ih | case4 ih => exact (ih h).cons
  case case3 ih | case12 ih =>
    obtain ⟨s, hs, -⟩ := exists_of_map h fun _ => rfl
    exact (ih hs).cons
  case case5 =>
    -- the first three quotes end the string, and at most two more belong to it
    cases h
    exact .of_cons ((List.drop_suffix _ _).trans (List.drop_suffix _ _))
  case case6 ih =>
    obtain ⟨s, hs⟩ := exists_of_escape h
    exact (ih hs).cons.cons.cons.cons
  case case7 ih =>
    obtain ⟨s, hs⟩ := exists_of_escape h
    exact (ih hs).cons.cons.cons.cons.cons.cons
  case case8 ih =>
    obtain ⟨s, hs⟩ := exists_of_escape h
    exact (ih hs).cons.cons.cons.cons.cons.cons.cons.cons.cons.cons
  case case9 ih => exact (ih h).cons.cons
  case case10 ih =>
    obtain ⟨s, hs⟩ := exists_of_escape h
    exact (ih hs).cons.cons

/-- A word that is not empty is something. -/
theorem takes_dropWhile {p : Char → Bool} (h : cs.takeWhile p ≠ []) :
    Takes cs (cs.dropWhile p) := by
  cases cs with
  | nil => exact absurd rfl h
  | cons c cs =>
    have hc : p c := by
      by_contra hc
      exact h (List.takeWhile_cons_of_neg hc)
    rw [List.dropWhile_cons_of_pos hc]
    exact .of_cons (List.dropWhile_suffix p)

/-- A key takes at least one character, or its quotes. -/
theorem key?_takes {key : String} (h : key? cs = some (key, rest)) : Takes cs rest := by
  rw [key?.eq_def] at h
  cases hquoted : quoted? cs with
  | some r =>
    obtain ⟨k, tail⟩ := r
    obtain ⟨-, rfl⟩ : String.ofList k = key ∧ tail = rest := by simpa [hquoted] using h
    exact quoted?_takes hquoted
  | none =>
    simp only [hquoted] at h
    split at h
    case isTrue => cases h
    case isFalse hempty =>
      cases h
      exact takes_dropWhile (by simpa using hempty)

/-- A dotted key takes at least its first part. -/
theorem path?_takes {parts : Nat} {path : List String} (h : path? parts cs = some (path, rest)) :
    Takes cs rest := by
  induction parts generalizing cs path with
  | zero => simp [path?] at h
  | succ parts ih =>
    rw [path?] at h
    obtain ⟨⟨key, tail⟩, hkey, h⟩ := Option.bind_eq_some_iff.1 h
    have htail : Takes cs (skipSpace tail) := (key?_takes hkey).after (skipSpace_suffix tail)
    dsimp only at h
    split at h
    case h_1 heq =>
      obtain ⟨⟨path, _⟩, hpath, hp⟩ := Option.bind_eq_some_iff.1 h
      cases hp
      exact (ih hpath).before (skipSpace_suffix _) |>.cons.before (heq ▸ htail.suffix)
    case h_2 =>
      cases h
      exact htail

/-- An unquoted scalar is not empty. -/
theorem unquoted?_takes {v : Setting} (h : unquoted? cs = some (v, rest)) : Takes cs rest := by
  rw [unquoted?] at h
  split at h
  case isTrue hspace =>
    -- a date goes on with a time after a space
    obtain ⟨_, -, hp⟩ := Option.map_eq_some_iff.1 h
    cases hp
    have hhead : (cs.dropWhile isScalarChar).head? = some ' ' := by simp_all
    obtain ⟨tail, htail⟩ := List.head?_eq_some_iff.1 hhead
    rw [htail]
    exact Takes.before (.of_cons (List.dropWhile_suffix _)) (htail ▸ List.dropWhile_suffix _)
  case isFalse =>
    obtain ⟨_, hscalar, hp⟩ := Option.map_eq_some_iff.1 h
    cases hp
    refine takes_dropWhile fun hempty => ?_
    rw [hempty] at hscalar
    cases hscalar

/-! ## The bound of the reader of values -/

/-- A bounded reader takes something of the text `cs`, and takes it with every bound that is at
least its length. -/
structure Spends {α : Type} (read : Nat → List Char → Option (α × List Char)) (cs : List Char)
    (a : α) (rest : List Char) : Prop where
  takes : Takes cs rest
  read_eq : ∀ bound, cs.length ≤ bound + rest.length → read bound cs = some (a, rest)

/-- What a value is: a scalar, for which the bound and the room do not matter, a list, or a table in
braces.

**Proof sketch.** By the first characters. Only brackets and braces lead to readers that are
bounded. -/
theorem value?_cases {bound room : Nat} {v : Node}
    (h : value? (bound + 1) room cs = some (v, rest)) :
    (Takes cs rest ∧ ∀ bound room, value? (bound + 1) room cs = some (v, rest)) ∨
      (∃ inner items tail, room = inner + 1 ∧ cs = '[' :: tail ∧ v = .list items ∧
        items? bound inner tail = some (items, rest)) ∨
      (∃ inner entries tail, room = inner + 1 ∧ cs = '\x7b' :: tail ∧ v = .table .braces entries ∧
        pairs? bound inner [] tail = some (entries, rest)) := by
  rw [value?.eq_def] at h
  dsimp only at h
  split at h
  case h_1 =>
    obtain ⟨_, hs, -⟩ := exists_of_map h fun _ => rfl
    have htakes := (lines?_takes hs).before (skipFirstLineEnd_suffix _)
    exact .inl ⟨htakes.cons.cons.cons, fun _ _ => by rw [value?]; exact h⟩
  case h_2 =>
    obtain ⟨_, hs, -⟩ := exists_of_map h fun _ => rfl
    have htakes := (lines?_takes hs).before (skipFirstLineEnd_suffix _)
    exact .inl ⟨htakes.cons.cons.cons, fun _ _ => by rw [value?]; exact h⟩
  case h_3 tail hne =>
    obtain ⟨_, hs, -⟩ := exists_of_map h fun _ => rfl
    exact .inl ⟨(basic?_takes hs).cons, fun _ _ => by rw [value?]; exacts [h, hne]⟩
  case h_4 tail hne =>
    obtain ⟨_, hs, -⟩ := exists_of_map h fun _ => rfl
    exact .inl ⟨(raw?_takes hs).cons, fun _ _ => by rw [value?]; exacts [h, hne]⟩
  case h_5 =>
    split at h
    · cases h
    · obtain ⟨items, hitems, rfl⟩ := exists_of_map h fun _ => rfl
      exact .inr (.inl ⟨_, items, _, rfl, rfl, rfl, hitems⟩)
  case h_6 =>
    split at h
    · cases h
    · obtain ⟨entries, hentries, rfl⟩ := exists_of_map h fun _ => rfl
      exact .inr (.inr ⟨_, entries, _, rfl, rfl, rfl, hentries⟩)
  case h_7 =>
    obtain ⟨_, hs, -⟩ := exists_of_map h fun _ => rfl
    exact .inl ⟨unquoted?_takes hs, fun _ _ => by rw [value?] <;> assumption⟩

/-- A bounded reader that takes something needs a bound. -/
theorem Spends.of_succ {α : Type} {read : Nat → List Char → Option (α × List Char)} {a : α}
    (htakes : Takes cs rest)
    (h : ∀ bound, cs.length ≤ bound + 1 + rest.length → read (bound + 1) cs = some (a, rest)) :
    Spends read cs a rest where
  takes := htakes
  read_eq bound hbound := by
    cases bound with
    | zero => exact absurd htakes.length_lt (by omega)
    | succ bound => exact h bound hbound

section Step

variable {bound : Nat}
  (hvalue : ∀ {room cs v rest}, value? bound room cs = some (v, rest) →
    Spends (value? · room) cs v rest)
  (hitems : ∀ {room cs items rest}, items? bound room cs = some (items, rest) →
    Spends (items? · room) cs items rest)
  (hpairs : ∀ {room entries cs entries' rest},
    pairs? bound room entries cs = some (entries', rest) →
    Spends (pairs? · room entries) cs entries' rest)

include hitems hpairs in
/-- A container spends one of the bound on its opening bracket. -/
theorem value?_spends_succ {room : Nat} {v : Node}
    (h : value? (bound + 1) room cs = some (v, rest)) :
    Spends (value? · room) cs v rest := by
  obtain ⟨htakes, hread⟩ | ⟨inner, items, tail, rfl, rfl, rfl, hread⟩ |
    ⟨inner, entries, tail, rfl, rfl, rfl, hread⟩ := value?_cases h
  · exact .of_succ htakes fun bound _ => hread bound room
  · have hinner := hitems hread
    refine .of_succ hinner.takes.cons fun bound hbound => ?_
    rw [List.length_cons] at hbound
    rw [value?, hinner.read_eq bound (by omega)]
    rfl
  · have hinner := hpairs hread
    refine .of_succ hinner.takes.cons fun bound hbound => ?_
    rw [List.length_cons] at hbound
    rw [value?, hinner.read_eq bound (by omega)]
    rfl

include hvalue hitems in
/-- An item spends one of the bound on the comma or the bracket behind it.

**Proof sketch.** What comes before an item is passed over, and the item and the others are read
with every bound that is large enough for them, by hypothesis. The comma between them pays for the
step. -/
theorem items?_spends_succ {room : Nat} {items : List Node}
    (h : items? (bound + 1) room cs = some (items, rest)) :
    Spends (items? · room) cs items rest := by
  rw [items?] at h
  obtain ⟨start, hstart, h⟩ := Option.bind_eq_some_iff.1 h
  have hsuffix := skipLines_suffix hstart
  split at h
  case h_1 =>
    cases h
    exact .of_succ ((Takes.of_cons List.suffix_rfl).before hsuffix) fun bound _ => by
      simp [items?, hstart]
  case h_2 hne =>
    obtain ⟨⟨item, behind⟩, hitem, h⟩ := Option.bind_eq_some_iff.1 h
    obtain ⟨next, hnext, h⟩ := Option.bind_eq_some_iff.1 h
    have hitem := hvalue hitem
    have hbehind := skipLines_suffix hnext
    have hstartLength := hsuffix.length_le
    have hitemLength := hitem.takes.length_lt
    have hnextLength := hbehind.length_le
    split at h
    case h_1 =>
      cases h
      refine .of_succ ((hitem.takes.after (tail_suffix hbehind)).before hsuffix)
        fun bound hbound => ?_
      rw [List.length_cons] at hnextLength
      have hstep := hitem.read_eq bound (by omega)
      simp [items?, hstart, hstep, hnext]
    case h_2 =>
      obtain ⟨⟨others, _⟩, hothers, hp⟩ := Option.bind_eq_some_iff.1 h
      cases hp
      have hothers := hitems hothers
      refine .of_succ
        (((hothers.takes.cons.before hbehind).before hitem.takes.suffix).before hsuffix)
        fun bound hbound => ?_
      have hothersLength := hothers.takes.length_lt
      rw [List.length_cons] at hnextLength
      have hstep := hitem.read_eq bound (by omega)
      have hmore := hothers.read_eq bound (by omega)
      simp [items?, hstart, hstep, hnext, hmore]
    case h_3 => cases h

include hvalue hpairs in
/-- So does an entry.

**Proof sketch.** As for items, with a key before each value. -/
theorem pairs?_spends_succ {room : Nat} {entries entries' : Entries}
    (h : pairs? (bound + 1) room entries cs = some (entries', rest)) :
    Spends (pairs? · room entries) cs entries' rest := by
  rw [pairs?] at h
  obtain ⟨start, hstart, h⟩ := Option.bind_eq_some_iff.1 h
  have hsuffix := skipLines_suffix hstart
  split at h
  case h_1 =>
    cases h
    exact .of_succ ((Takes.of_cons List.suffix_rfl).before hsuffix) fun bound _ => by
      simp [pairs?, hstart]
  case h_2 hne =>
    obtain ⟨⟨path, behind⟩, hpath, h⟩ := Option.bind_eq_some_iff.1 h
    obtain ⟨equals, hequals, h⟩ := Option.bind_eq_some_iff.1 h
    split at h
    case h_2 => cases h
    obtain ⟨front, hfront, h⟩ := Option.bind_eq_some_iff.1 h
    obtain ⟨⟨v, back⟩, hv, h⟩ := Option.bind_eq_some_iff.1 h
    obtain ⟨grown, hgrown, h⟩ := Option.bind_eq_some_iff.1 h
    obtain ⟨next, hnext, h⟩ := Option.bind_eq_some_iff.1 h
    have hv := hvalue hv
    have hback := skipLines_suffix hnext
    have hfrontTakes : Takes cs front :=
      (((path?_takes hpath).after (tail_suffix (skipLines_suffix hequals))).before hsuffix).after
        (skipLines_suffix hfront)
    have hfrontLength := hfrontTakes.length_lt
    have hvLength := hv.takes.length_lt
    have hnextLength := hback.length_le
    split at h
    case h_1 =>
      cases h
      refine .of_succ ((hv.takes.after (tail_suffix hback)).before hfrontTakes.suffix)
        fun bound hbound => ?_
      rw [List.length_cons] at hnextLength
      have hstep := hv.read_eq bound (by omega)
      simp [pairs?, hstart, hpath, hequals, hfront, hstep, hgrown, hnext]
    case h_2 =>
      have hothers := hpairs h
      refine .of_succ (((hothers.takes.cons.before hback).before hv.takes.suffix).before
        hfrontTakes.suffix) fun bound hbound => ?_
      have hothersLength := hothers.takes.length_lt
      rw [List.length_cons] at hnextLength
      have hstep := hv.read_eq bound (by omega)
      have hmore := hothers.read_eq bound (by omega)
      simp [pairs?, hstart, hpath, hequals, hfront, hstep, hgrown, hnext, hmore]
    case h_3 => cases h

end Step

/-- **The bound does not decide what is read**: not of a value, nor of the items of a list, nor of
the entries of a table in braces.

**Proof sketch.** Induction on the bound. A list or a table spends one of it on its opening bracket,
and each further item or entry on the comma before it, so that what is left is still at least the
length of what comes. -/
theorem spends (bound : Nat) :
    (∀ {room cs v rest}, value? bound room cs = some (v, rest) →
      Spends (value? · room) cs v rest) ∧
    (∀ {room cs items rest}, items? bound room cs = some (items, rest) →
      Spends (items? · room) cs items rest) ∧
    (∀ {room entries cs entries' rest}, pairs? bound room entries cs = some (entries', rest) →
      Spends (pairs? · room entries) cs entries' rest) := by
  induction bound with
  | zero => simp [value?, items?, pairs?]
  | succ bound ih =>
    obtain ⟨hvalue, hitems, hpairs⟩ := ih
    exact ⟨value?_spends_succ hitems hpairs, items?_spends_succ hvalue hitems,
      pairs?_spends_succ hvalue hpairs⟩

/-- The bound that a document gives to the reader of a value is as good as any. -/
theorem value?_length {bound room : Nat} {v : Node}
    (h : value? bound room (skipSpace cs) = some (v, rest)) :
    value? cs.length room (skipSpace cs) = some (v, rest) :=
  ((spends bound).1 h).read_eq cs.length
    ((skipSpace_suffix cs).length_le.trans (Nat.le_add_right _ _))

/-! ## The bound of the reader of documents -/

/-- What a line of a document does: it changes the last header and the entries, and leaves the lines
after it. -/
inductive Line (header : List String) (entries : Entries) :
    List Char → List String → Entries → List Char → Prop where
  /-- A header for a further table in a list. -/
  | tables {cs tail next : List Char} {path : List String} {grown : Entries} :
    path? maxNesting (skipSpace cs) = some (path, ']' :: ']' :: tail) →
      extendTables? path entries = some grown → endLine? tail = some next →
      Line header entries ('[' :: '[' :: cs) path grown next
  /-- A header for a table. -/
  | table {cs tail next : List Char} {path : List String} {grown : Entries} :
    (∀ cs', cs ≠ '[' :: cs') → path? maxNesting (skipSpace cs) = some (path, ']' :: tail) →
      openTable? path entries = some grown → endLine? tail = some next →
      Line header entries ('[' :: cs) path grown next
  /-- A key with its value, which some bound lets be read. -/
  | pair {cs tail behind next : List Char} {path : List String} {bound : Nat} {v : Node}
    {grown : Entries} :
    cs ≠ [] → (∀ cs', cs ≠ '[' :: cs') → path? maxNesting cs = some (path, '=' :: tail) →
      value? bound maxNesting (skipSpace tail) = some (v, behind) →
      within? (define? v path) header entries = some grown → endLine? behind = some next →
      Line header entries cs header grown next

variable {header header' : List String} {entries grown document : Entries}

/-- Every line takes something of the text. -/
theorem Line.takes (h : Line header entries cs header' grown rest) : Takes cs rest := by
  cases h with
  | tables hpath _ hend =>
    exact (((path?_takes hpath).tail.tail.before (skipSpace_suffix _)).after
      (endLine?_suffix hend)).cons.cons
  | table _ hpath _ hend =>
    exact (((path?_takes hpath).tail.before (skipSpace_suffix _)).after (endLine?_suffix hend)).cons
  | pair _ _ hpath hvalue _ hend =>
    have hbehind := ((spends _).1 hvalue).takes.suffix.trans (skipSpace_suffix _)
    exact ((path?_takes hpath).tail.after hbehind).after (endLine?_suffix hend)

/-- A document ends, or a line and the rest of it follow.

**Proof sketch.** Both directions follow the readers of one line. Its first characters say which
kind of line it is, and the bound on its value does not matter. -/
theorem document?_succ_iff {bound : Nat} :
    document? (bound + 1) header entries cs = some document ↔
      ∃ start, skipLines false cs = some start ∧
        (start = [] ∧ entries = document ∨
          ∃ header' grown next, Line header entries start header' grown next ∧
            document? bound header' grown next = some document) := by
  constructor
  · intro h
    rw [document?] at h
    obtain ⟨start, hstart, h⟩ := Option.bind_eq_some_iff.1 h
    refine ⟨start, hstart, ?_⟩
    split at h
    case h_1 => exact .inl ⟨rfl, Option.some.inj h⟩
    case h_2 =>
      obtain ⟨_, hpath, h⟩ := Option.bind_eq_some_iff.1 h
      split at h
      case h_2 => cases h
      obtain ⟨grown, hgrown, h⟩ := Option.bind_eq_some_iff.1 h
      obtain ⟨next, hnext, h⟩ := Option.bind_eq_some_iff.1 h
      exact .inr ⟨_, grown, next, .tables hpath hgrown hnext, h⟩
    case h_3 hne =>
      obtain ⟨_, hpath, h⟩ := Option.bind_eq_some_iff.1 h
      split at h
      case h_2 => cases h
      obtain ⟨grown, hgrown, h⟩ := Option.bind_eq_some_iff.1 h
      obtain ⟨next, hnext, h⟩ := Option.bind_eq_some_iff.1 h
      exact .inr ⟨_, grown, next, .table hne hpath hgrown hnext, h⟩
    case h_4 hnil _ hne =>
      obtain ⟨_, hpath, h⟩ := Option.bind_eq_some_iff.1 h
      split at h
      case h_2 => cases h
      obtain ⟨⟨v, back⟩, hv, h⟩ := Option.bind_eq_some_iff.1 h
      obtain ⟨grown, hgrown, h⟩ := Option.bind_eq_some_iff.1 h
      obtain ⟨next, hnext, h⟩ := Option.bind_eq_some_iff.1 h
      exact .inr ⟨_, grown, next, .pair hnil hne hpath hv hgrown hnext, h⟩
  · rintro ⟨start, hstart, ⟨rfl, rfl⟩ | ⟨header', grown, next, hline, h⟩⟩
    · simp [document?, hstart]
    · cases hline with
      | tables hpath hgrown hnext => simp [document?, hstart, hpath, hgrown, hnext, h]
      | table hne hpath hgrown hnext => simp [document?, hstart, hpath, hgrown, hnext, h]
      | pair hnil hne hpath hv hgrown hnext =>
        simp [document?, hstart, hpath, value?_length hv, hgrown, hnext, h, hne]

/-- **Nor does the bound decide which document is read**: every bound above the length of the text
reads the same.

**Proof sketch.** Induction on the bound. Every line takes something of the text, so that what is
left of the bound is still above the length of the lines after it. -/
theorem document?_of_length_lt {bound : Nat}
    (h : document? bound header entries cs = some document) :
    ∀ bound', cs.length < bound' → document? bound' header entries cs = some document := by
  induction bound generalizing header entries cs with
  | zero => simp [document?] at h
  | succ bound ih =>
    intro bound' hbound
    obtain ⟨bound', rfl⟩ : ∃ n, bound' = n + 1 := ⟨bound' - 1, by omega⟩
    obtain ⟨start, hstart, hend | ⟨header', grown, next, hline, hnext⟩⟩ := document?_succ_iff.1 h
    · exact document?_succ_iff.2 ⟨start, hstart, .inl hend⟩
    · have hshorter := (hline.takes.before (skipLines_suffix hstart)).length_lt
      exact document?_succ_iff.2
        ⟨start, hstart, .inr ⟨header', grown, next, hline, ih hnext bound' (by omega)⟩⟩

/-- **Settings are read from a text exactly when some bound lets them be read.** -/
theorem settings?_eq_some_iff {text : String} {settings : List (String × Setting)} :
    settings? text = some settings ↔ ∃ bound document,
      document? bound [] [] (skipMark (skipMark text.toList)) = some document ∧
        settingsOf? document = some settings := by
  constructor
  · intro h
    obtain ⟨document, hdocument, hsettings⟩ := Option.bind_eq_some_iff.1 h
    exact ⟨_, document, hdocument, hsettings⟩
  · rintro ⟨bound, document, hdocument, hsettings⟩
    exact Option.bind_eq_some_iff.2
      ⟨document, document?_of_length_lt hdocument _ (Nat.lt_succ_self _), hsettings⟩

end Toml

end Eligibility
