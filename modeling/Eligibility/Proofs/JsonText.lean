import Eligibility.Proofs.JsonNumber

/-!
# The text of a JSON document

The text of a document is the text of its lexemes, one after the other, and these are what is read
from it. Only a number can run into what follows it, and no separator or bracket goes on with a
number.

## Main definitions

* `Json.lexemes` — the lexemes that a document is written as.
* `Json.IntegersFit` — a document whose integers have at most 64 bits.

## Main results

* `Json.Lexeme.read?_quote` — a string is read from its text.
* `Json.readAll?_text` — the lexemes of a document are read from its text.
-/

set_option relaxedAutoImplicit false
set_option autoImplicit false

namespace Eligibility

open Scan (StopsAt stopsAt_cons stopsAt_nil)

namespace Json

/-- Induction over documents and all of their items and members. -/
@[elab_as_elim]
theorem induction {P : Json → Prop} (null : P null) (bool : ∀ b, P (bool b))
    (integer : ∀ i, P (integer i)) (number : ∀ x, P (number x)) (string : ∀ s, P (string s))
    (array : ∀ items, (∀ v ∈ items, P v) → P (array items))
    (object : ∀ members, (∀ m ∈ members, P m.2) → P (object members)) (unusable : P unusable)
    (v : Json) : P v := by
  refine Json.rec (motive_1 := P) (motive_2 := fun vs => ∀ v ∈ vs, P v)
    (motive_3 := fun ms => ∀ m ∈ ms, P m.2) (motive_4 := fun m => P m.2) null bool integer number
    string array object unusable ?_ ?_ ?_ ?_ ?_ v
  · intro v hv
    cases hv
  · intro v vs hv hvs
    exact List.forall_mem_cons.mpr ⟨hv, hvs⟩
  · intro m hm
    cases hm
  · intro m ms hm hms
    exact List.forall_mem_cons.mpr ⟨hm, hms⟩
  · intro key v hv
    exact hv

/-! ## What is written -/

mutual

/-- The lexemes that a document is written as. -/
def lexemes : Json → List Lexeme
  | null => [.scalar null]
  | bool b => [.scalar (bool b)]
  | integer i => [.scalar (integer i)]
  | number x => [.scalar (if x.isFinite then number x else null)]
  | string s => [.text (some s)]
  | array items => .openBracket :: (itemsLexemes items ++ [.closeBracket])
  | object members => .openBrace :: (membersLexemes members ++ [.closeBrace])
  | unusable => [.scalar null]

/-- The lexemes of items with commas between them. -/
def itemsLexemes : List Json → List Lexeme
  | [] => []
  | [v] => v.lexemes
  | v :: vs => v.lexemes ++ .comma :: itemsLexemes vs

/-- The lexemes of members with commas between them. -/
def membersLexemes : List (String × Json) → List Lexeme
  | [] => []
  | [(key, v)] => .text (some key) :: .colon :: v.lexemes
  | (key, v) :: ms => .text (some key) :: .colon :: (v.lexemes ++ .comma :: membersLexemes ms)

end

/-- There is a comma between an item and those after it. -/
theorem itemsLexemes_cons_cons (v w : Json) (vs : List Json) :
    itemsLexemes (v :: w :: vs) = v.lexemes ++ .comma :: itemsLexemes (w :: vs) := by
  rw [itemsLexemes]
  exact List.cons_ne_nil w vs

/-- There is a comma between a member and those after it. -/
theorem membersLexemes_cons_cons (key : String) (v : Json) (m : String × Json)
    (ms : List (String × Json)) :
    membersLexemes ((key, v) :: m :: ms) =
      .text (some key) :: .colon :: (v.lexemes ++ .comma :: membersLexemes (m :: ms)) := by
  rw [membersLexemes]
  exact List.cons_ne_nil m ms

mutual

/-- A document whose integers have at most 64 bits. -/
def IntegersFit : Json → Prop
  | integer i => Lexeme.IsWord i
  | array items => ItemsFit items
  | object members => MembersFit members
  | _ => True

/-- Items whose integers have at most 64 bits. -/
def ItemsFit : List Json → Prop
  | [] => True
  | v :: vs => v.IntegersFit ∧ ItemsFit vs

/-- Members whose integers have at most 64 bits. -/
def MembersFit : List (String × Json) → Prop
  | [] => True
  | (_, v) :: ms => v.IntegersFit ∧ MembersFit ms

end

namespace Lexeme

/-! ## Strings -/

/-- A hexadecimal digit is read as the number that it is written for. -/
theorem hexValue?_hexDigit : ∀ n < 16, hexValue? (hexDigit n) = some n := by decide

/-- A backslash and a character other than `u` stand for one code point. -/
theorem units?_backslash {c : Char} (hc : c ≠ 'u') (rest : List Char) :
    units? ('\\' :: c :: rest) = (unescape? c).bind fun unit =>
      (units? rest).map fun (units, rest) => (unit :: units, rest) := by
  rw [units?]
  · cases unescape? c with
    | none => rfl
    | some unit => cases units? rest <;> rfl
  · rintro a b d e tail rfl
    exact absurd rfl hc

/-- A character that need not be escaped stands for itself. -/
theorem units?_plain {c : Char} (hquote : c ≠ '"') (hbackslash : c ≠ '\\')
    (hcontrol : ¬ c.toNat < 0x20) (rest : List Char) :
    units? (c :: rest) = (units? rest).map fun (units, rest) => (c.toNat :: units, rest) := by
  have hplain : ¬ (c.toNat < 0x20 ∨ c = '\\') := fun h => h.elim hcontrol hbackslash
  rw [units?, if_neg hplain]
  · exact hquote
  · intro _ _ _ _ _ h _
    exact hbackslash h
  · intro _ _ h _
    exact hbackslash h

/-- **A character is read from what stands for it** between quotes. -/
theorem units?_escape (c : Char) (rest : List Char) :
    units? (escape c ++ rest) =
      (units? rest).map fun (units, rest) => (c.toNat :: units, rest) := by
  unfold escape
  split
  case h_8 hquote hbackslash _ _ _ _ _ =>
    split
    · rename_i hcontrol
      have hhigh := hexValue?_hexDigit (c.toNat / 16) (by omega)
      have hlow := hexValue?_hexDigit (c.toNat % 16) (by omega)
      have hzero : hexValue? '0' = some 0 := rfl
      have hvalue : c.toNat / 16 * 16 + c.toNat % 16 = c.toNat := Nat.div_add_mod' ..
      simp only [List.cons_append, List.nil_append, units?, hexValue4?, hzero, hhigh, hlow,
        Option.bind_eq_bind, Option.bind_some, Option.pure_def, Nat.zero_mul, Nat.zero_add, hvalue]
      cases units? rest <;> rfl
    · rename_i hplain
      exact units?_plain hquote hbackslash hplain rest
  all_goals exact units?_backslash (by decide) rest

/-- A character is no half of a surrogate pair. -/
theorem isHigh_isLow_toNat (c : Char) : isHigh c.toNat = false ∧ isLow c.toNat = false := by
  have hvalid : c.toNat < 0xd800 ∨ (0xdfff < c.toNat ∧ c.toNat < 0x110000) := c.valid
  simp only [isHigh, isLow, Bool.and_eq_false_iff, decide_eq_false_iff_not]
  omega

/-- The characters of code points. -/
theorem ofUnits?_map_toNat (cs : List Char) : ofUnits? (cs.map Char.toNat) = some cs := by
  induction cs with
  | nil => rfl
  | cons c cs ih =>
    obtain ⟨hhigh, hlow⟩ := isHigh_isLow_toNat c
    cases cs with
    | nil => simp [ofUnits?, hhigh, hlow]
    | cons d cs =>
      rw [List.map_cons] at ih
      rw [List.map_cons, List.map_cons, ofUnits?, if_neg (by simp [hhigh]), if_neg (by simp [hlow]),
        ih, Option.map_some, Char.ofNat_toNat]

/-- The characters between quotes are read up to the closing one. -/
theorem units?_flatMap_escape (cs rest : List Char) :
    units? (cs.flatMap escape ++ '"' :: rest) = some (cs.map Char.toNat, rest) := by
  induction cs with
  | nil => rw [List.flatMap_nil, List.nil_append, units?, List.map_nil]
  | cons c cs ih => rw [List.flatMap_cons, List.append_assoc, units?_escape, ih]; rfl

/-- **A string is read from its text.** -/
theorem read?_quote (s : String) (rest : List Char) :
    read? ((quote s).toList ++ rest) = some (.text (some s), rest) := by
  have hquote : (quote s).toList ++ rest = '"' :: (s.toList.flatMap escape ++ '"' :: rest) := by
    simp [quote]
  rw [hquote]
  show string? _ = _
  simp only [string?, units?_flatMap_escape, ofUnits?_map_toNat, Option.bind_eq_bind,
    Option.bind_some, Option.pure_def, Option.map_some, String.ofList_toList]

/-! ## Lexemes -/

/-- What is read starts with no white space. -/
theorem isSpace_of_read? {cs : List Char} {r : Lexeme × List Char} (h : read? cs = some r) :
    ∃ c tail, cs = c :: tail ∧ isSpace c = false := by
  cases cs with
  | nil => simp [read?, unsigned?, whole?] at h
  | cons c tail =>
    refine ⟨c, tail, rfl, ?_⟩
    cases hc : isSpace c with
    | false => rfl
    | true =>
      simp only [isSpace, Bool.or_eq_true, decide_eq_true_eq, or_assoc] at hc
      rcases hc with rfl | rfl | rfl | rfl <;> simp [read?, unsigned?, whole?] at h

/-- After a lexeme the others are read. -/
theorem readAll?_of_read? {cs rest : List Char} {l : Lexeme} (h : read? cs = some (l, rest)) :
    readAll? cs = (readAll? rest).map (l :: ·) := by
  obtain ⟨c, tail, rfl, hc⟩ := isSpace_of_read? h
  have hspace : (c :: tail).dropWhile isSpace = c :: tail := by simp [hc]
  rw [readAll?]
  split
  · rename_i heq
    rw [hspace] at heq
    cases heq
  · rename_i heq
    rw [hspace] at heq
    injection heq with hhead htail
    subst hhead htail
    split
    · rename_i hread
      rw [h] at hread
      cases hread
    · rename_i hread
      rw [h] at hread
      injection hread with hread
      injection hread with hl hrest
      subst hl hrest
      rfl

end Lexeme

/-! ## Documents -/

/-- A number that is not finite is written as `null`. -/
theorem write_of_not_finite {x : Binary64} (hx : x.isFinite = false) :
    numberStyle.write x = "null" := by
  simp only [NumberStyle.write, numberStyle, hx]
  cases x.isNaN <;> cases x.negative <;> rfl

/-- The lexemes of a document are read from its text before a text that no number goes on with. -/
def Reads (v : Json) : Prop :=
  v.IntegersFit → ∀ rest : List Char, StopsAt Lexeme.isNumberChar rest →
    Lexeme.readAll? (v.text.toList ++ rest) = (Lexeme.readAll? rest).map (v.lexemes ++ ·)

/-- Items are read when each of them is.

**Proof sketch.** By induction on the items. The comma behind an item stops a number that the item
may be. -/
theorem readAll?_itemsText {vs : List Json} (h : ∀ v ∈ vs, v.Reads) (hfit : ItemsFit vs)
    {rest : List Char} (hrest : StopsAt Lexeme.isNumberChar rest) :
    Lexeme.readAll? ((itemsText vs).toList ++ rest) =
      (Lexeme.readAll? rest).map (itemsLexemes vs ++ ·) := by
  induction vs with
  | nil => simp [itemsText, itemsLexemes]
  | cons v vs ih =>
    have hv := h v List.mem_cons_self hfit.1
    cases vs with
    | nil => exact hv rest hrest
    | cons w vs =>
      have htail := ih (fun a ha => h a (List.mem_cons_of_mem v ha)) hfit.2
      have htext : (itemsText (v :: w :: vs)).toList ++ rest =
          v.text.toList ++ (',' :: ((itemsText (w :: vs)).toList ++ rest)) := by
        simp [itemsText]
      rw [htext, hv _ (stopsAt_cons.mpr rfl), Lexeme.readAll?_of_read? rfl, htail,
        itemsLexemes_cons_cons]
      cases Lexeme.readAll? rest <;> simp

/-- Members are read when the value of each of them is.

**Proof sketch.** By induction on the members. A member is read as its key, a colon and its value,
and the comma behind it stops a number that the value may be. -/
theorem readAll?_membersText {ms : List (String × Json)} (h : ∀ m ∈ ms, m.2.Reads)
    (hfit : MembersFit ms) {rest : List Char} (hrest : StopsAt Lexeme.isNumberChar rest) :
    Lexeme.readAll? ((membersText ms).toList ++ rest) =
      (Lexeme.readAll? rest).map (membersLexemes ms ++ ·) := by
  -- a member is read as its key, a colon and its value
  have hmember {key : String} {v : Json} (hv : v.Reads) (hfit : v.IntegersFit) {rest : List Char}
      (hrest : StopsAt Lexeme.isNumberChar rest) :
      Lexeme.readAll? ((quote key).toList ++ ':' :: (v.text.toList ++ rest)) =
        (Lexeme.readAll? rest).map (.text (some key) :: .colon :: v.lexemes ++ ·) := by
    rw [Lexeme.readAll?_of_read? (Lexeme.read?_quote key _), Lexeme.readAll?_of_read? rfl,
      hv hfit rest hrest]
    cases Lexeme.readAll? rest <;> rfl
  induction ms with
  | nil => simp [membersText, membersLexemes]
  | cons m ms ih =>
    obtain ⟨key, v⟩ := m
    have hv := h (key, v) List.mem_cons_self
    cases ms with
    | nil =>
      have htext : (membersText [(key, v)]).toList ++ rest =
          (quote key).toList ++ ':' :: (v.text.toList ++ rest) := by
        simp [membersText]
      rw [htext, hmember hv hfit.1 hrest, membersLexemes]
    | cons m ms =>
      have htail := ih (fun a ha => h a (List.mem_cons_of_mem (key, v) ha)) hfit.2
      have htext : (membersText ((key, v) :: m :: ms)).toList ++ rest =
          (quote key).toList ++
            ':' :: (v.text.toList ++ (',' :: ((membersText (m :: ms)).toList ++ rest))) := by
        simp [membersText]
      rw [htext, hmember hv hfit.1 (stopsAt_cons.mpr rfl), Lexeme.readAll?_of_read? rfl, htail,
        membersLexemes_cons_cons]
      cases Lexeme.readAll? rest <;> simp

/-- **The lexemes of a document are read from its text.**

**Proof sketch.** By induction on the document. Of all lexemes only a number could go on into what
follows, and a comma or a bracket behind it stops it. -/
theorem reads (v : Json) : v.Reads := by
  induction v using Json.induction with
  | null =>
    intro _ rest _
    exact Lexeme.readAll?_of_read? rfl
  | bool b =>
    intro _ rest _
    cases b <;> exact Lexeme.readAll?_of_read? rfl
  | integer i =>
    intro hfit rest hrest
    exact Lexeme.readAll?_of_read? (Lexeme.read?_repr hfit hrest)
  | number x =>
    intro _ rest hrest
    cases hx : x.isFinite with
    | true =>
      simp only [text, lexemes, hx, if_true]
      exact Lexeme.readAll?_of_read? (Lexeme.read?_write hx hrest)
    | false =>
      simp only [text, lexemes, hx, write_of_not_finite hx]
      exact Lexeme.readAll?_of_read? rfl
  | string s =>
    intro _ rest _
    exact Lexeme.readAll?_of_read? (Lexeme.read?_quote s rest)
  | array items ih =>
    intro hfit rest hrest
    have htext : (array items).text.toList ++ rest =
        '[' :: ((itemsText items).toList ++ (']' :: rest)) := by
      simp [text]
    rw [htext, Lexeme.readAll?_of_read? rfl, readAll?_itemsText ih hfit (stopsAt_cons.mpr rfl),
      Lexeme.readAll?_of_read? rfl]
    cases Lexeme.readAll? rest <;> simp [lexemes]
  | object members ih =>
    intro hfit rest hrest
    have htext : (object members).text.toList ++ rest =
        '\x7b' :: ((membersText members).toList ++ ('\x7d' :: rest)) := by
      simp [text]
    rw [htext, Lexeme.readAll?_of_read? rfl, readAll?_membersText ih hfit (stopsAt_cons.mpr rfl),
      Lexeme.readAll?_of_read? rfl]
    cases Lexeme.readAll? rest <;> simp [lexemes]
  | unusable =>
    intro _ rest _
    exact Lexeme.readAll?_of_read? rfl

/-- The lexemes of a document are read from its text alone. -/
theorem readAll?_text {v : Json} (h : v.IntegersFit) :
    Lexeme.readAll? v.text.toList = some v.lexemes := by
  have hnone : Lexeme.readAll? [] = some [] := by
    rw [Lexeme.readAll?]
    rfl
  have hread := v.reads h [] (stopsAt_nil _)
  simpa only [List.append_nil, hnone, Option.map_some] using hread

end Json

end Eligibility
