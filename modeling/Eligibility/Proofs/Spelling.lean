import Eligibility.Proofs.NumberText

/-!
# Spellings

The lexical grammar of rule text as a relation between tokens and characters, apart from any way of
reading it. A token is spelled before some following text, because a keyword and a number must not
run into a word.

## Main definitions

* `Scan.StopsAt` — the text does not start with a character of a class.
* `Literal.Spelling`, `Token.Spelling` — the characters of a literal and of a token.
* `Token.Spelled` — a text that spells a list of tokens, with blanks around each.
* `Condition.Lexable` — a condition that has a spelling.

## Main results

* `Scan.tokens_eq_ok_iff` — scanning finds the tokens that a text spells.
* `Token.scan_eq_ok_iff` — so does the scan of a whole rule text.
* `Token.Spelled.lexable` — only conditions that have a spelling are found.
-/

set_option relaxedAutoImplicit false
set_option autoImplicit false

namespace Eligibility

namespace Scan

/-! ## Runs of characters -/

/-- The text does not start with a character of the class. -/
def StopsAt (p : Char → Bool) (cs : List Char) : Prop := ∀ c ∈ cs.head?, p c = false

/-- Every word stops at the end of a text. -/
theorem stopsAt_nil (p : Char → Bool) : StopsAt p [] := by simp [StopsAt]

/-- A word stops at a character that it cannot hold. -/
theorem stopsAt_cons {p : Char → Bool} {c : Char} {cs : List Char} :
    StopsAt p (c :: cs) ↔ p c = false := by
  simp [StopsAt]

/-- A text that stops at a class stops at every smaller one. -/
theorem StopsAt.mono {p q : Char → Bool} {cs : List Char} (h : StopsAt p cs)
    (hq : ∀ c, q c = true → p c = true) : StopsAt q cs := by
  intro c hc
  cases hqc : q c with
  | false => rfl
  | true => exact absurd (hq c hqc) (by simp [h c hc])

/-- What is left after a run stops at its class. -/
theorem stopsAt_dropWhile (p : Char → Bool) (cs : List Char) : StopsAt p (cs.dropWhile p) := by
  intro c hc
  have := List.head?_dropWhile_not p cs
  rw [Option.mem_def.mp hc] at this
  simpa using this

/-- A run is taken as a whole. -/
theorem takeWhile_append_stopsAt {p : Char → Bool} {cs rest : List Char}
    (hcs : ∀ c ∈ cs, p c = true) (hrest : StopsAt p rest) : (cs ++ rest).takeWhile p = cs := by
  rw [List.takeWhile_append_of_pos hcs]
  cases rest with
  | nil => simp
  | cons c rest => simp [stopsAt_cons.mp hrest]

/-- What follows a run is left. -/
theorem dropWhile_append_stopsAt {p : Char → Bool} {cs rest : List Char}
    (hcs : ∀ c ∈ cs, p c = true) (hrest : StopsAt p rest) : (cs ++ rest).dropWhile p = rest := by
  rw [List.dropWhile_append_of_pos hcs]
  cases rest with
  | nil => rfl
  | cons c rest => simp [stopsAt_cons.mp hrest]

/-! ## Classes of characters -/

/-- No name goes on with a blank. -/
theorem isNameChar_of_isBlank {c : Char} (h : isBlank c = true) : isNameChar c = false := by
  have hall : blankCharacters.all (fun c => !isNameChar c) = true := by decide
  have hc : c ∈ blankCharacters := by simpa [isBlank] using h
  simpa using List.all_eq_true.mp hall c hc

/-- A name can go on with each character that it can start with. -/
theorem isNameChar_of_isNameStart {c : Char} (h : isNameStart c = true) : isNameChar c = true := by
  simp only [isNameStart, isNameChar, Char.isAlphanum, Bool.or_eq_true] at h ⊢
  rcases h with h | h
  · exact .inl (.inl (.inl h))
  · exact .inl (.inr h)

/-- A name can go on with a digit. -/
theorem isNameChar_of_isDigit {c : Char} (h : c.isDigit = true) : isNameChar c = true := by
  simp [isNameChar, Char.isAlphanum, h]

/-- Blanks before a text that starts with no blank are skipped. -/
theorem skipBlanks_append {blanks cs : List Char} (hblanks : ∀ c ∈ blanks, isBlank c = true)
    (hcs : StopsAt isBlank cs) : skipBlanks (blanks ++ cs) = cs :=
  dropWhile_append_stopsAt hblanks hcs

/-! ## Numerals -/

/-- The point and the fraction of a numeral. -/
theorem fraction_append {digits rest : List Char} (hdigits : ∀ c ∈ digits, c.isDigit = true)
    (hrest : StopsAt isNameChar rest) :
    fraction ((if digits.isEmpty then [] else '.' :: digits) ++ rest) = (digits, rest) := by
  cases digits with
  | nil =>
    cases rest with
    | nil => rfl
    | cons c rest =>
      have hpoint : c ≠ '.' := by
        rintro rfl
        exact absurd (stopsAt_cons.mp hrest) (by decide)
      simp [fraction, hpoint]
  | cons d digits =>
    have hstop := hrest.mono fun _ => isNameChar_of_isDigit
    have htake := takeWhile_append_stopsAt hdigits hstop
    have hdrop := dropWhile_append_stopsAt hdigits hstop
    simp only [List.cons_append] at htake hdrop
    simp [fraction, htake, hdrop]

/-- What follows the whole part of a numeral starts with no digit. -/
theorem stopsAt_isDigit_fraction (digits : List Char) {rest : List Char}
    (hrest : StopsAt isNameChar rest) :
    StopsAt Char.isDigit ((if digits.isEmpty then [] else '.' :: digits) ++ rest) := by
  cases digits with
  | nil => exact hrest.mono fun _ => isNameChar_of_isDigit
  | cons d digits => exact stopsAt_cons.mpr (by decide)

/-- A numeral is read up to the end of its run of name characters. -/
theorem numeral?_append {n : Numeral} (hn : n.WellFormed) {rest : List Char}
    (hrest : StopsAt isNameChar rest) : numeral? (n.chars ++ rest) = some (n, rest) := by
  obtain ⟨negative, whole, digits⟩ := n
  have hstop := stopsAt_isDigit_fraction digits hrest
  have hunsigned : unsigned? negative
      (whole ++ ((if digits.isEmpty then [] else '.' :: digits) ++ rest)) =
        some (⟨negative, whole, digits⟩, rest) := by
    have hne : whole.isEmpty = false := by simpa using hn.whole_ne_nil
    simp only [unsigned?, takeWhile_append_stopsAt hn.whole hstop,
      dropWhile_append_stopsAt hn.whole hstop, fraction_append hn.fraction hrest, hne,
      Bool.false_eq_true, if_false]
  cases negative with
  | true => simpa [Numeral.chars, numeral?] using hunsigned
  | false =>
    obtain ⟨c, cs, rfl⟩ := List.exists_cons_of_ne_nil hn.whole_ne_nil
    have hsign : c ≠ '-' := by
      rintro rfl
      exact absurd (hn.whole '-' List.mem_cons_self) (by decide)
    simpa [Numeral.chars, numeral?, hsign] using hunsigned

/-- A fraction that is read stands at the start of the text. -/
theorem fraction_spells (cs : List Char) :
    (if (fraction cs).1.isEmpty then [] else '.' :: (fraction cs).1) ++ (fraction cs).2 = cs ∧
      ∀ c ∈ (fraction cs).1, c.isDigit = true := by
  unfold fraction
  split
  · split
    · simp
    · rename_i hdigits
      exact ⟨by simp, fun c hc => List.all_eq_true.mp List.all_takeWhile c hc⟩
  · simp

/-- A numeral that is read stands at the start of the text.

**Proof sketch.** By whether a sign stands first. Without it the digits up to the point and those
behind it are what the reader took. -/
theorem numeral?_spells {cs rest : List Char} {n : Numeral} (h : numeral? cs = some (n, rest)) :
    n.WellFormed ∧ cs = n.chars ++ rest := by
  have hunsigned {negative : Bool} {cs : List Char}
      (h : unsigned? negative cs = some (n, rest)) :
      n.WellFormed ∧ n.negative = negative ∧
        cs = n.whole ++ ((if n.fraction.isEmpty then [] else '.' :: n.fraction) ++ rest) := by
    simp only [unsigned?] at h
    split at h
    · cases h
    · rename_i hwhole
      obtain ⟨hchars, hdigits⟩ := fraction_spells (cs.dropWhile Char.isDigit)
      simp only [Option.some.injEq, Prod.mk.injEq] at h
      obtain ⟨rfl, rfl⟩ := h
      refine ⟨⟨by simpa using hwhole, ?_, hdigits⟩, rfl, ?_⟩
      · exact fun c hc => List.all_eq_true.mp List.all_takeWhile c hc
      · rw [hchars, List.takeWhile_append_dropWhile]
  unfold numeral? at h
  split at h
  · obtain ⟨hn, hnegative, hchars⟩ := hunsigned h
    exact ⟨hn, by simp [Numeral.chars, hnegative, hchars]⟩
  · obtain ⟨hn, hnegative, hchars⟩ := hunsigned h
    exact ⟨hn, by simp [Numeral.chars, hnegative, hchars]⟩

/-- A numeral starts with a sign or a digit, so neither with a quote nor with a comparator. -/
theorem Numeral.WellFormed.stopsAt {n : Numeral} (hn : n.WellFormed) (rest : List Char)
    {p : Char → Bool} (hsign : p '-' = false) (hdigit : ∀ c, c.isDigit = true → p c = false) :
    StopsAt p (n.chars ++ rest) := by
  obtain ⟨negative, whole, digits⟩ := n
  obtain ⟨c, cs, rfl⟩ := List.exists_cons_of_ne_nil hn.whole_ne_nil
  cases negative with
  | true => simpa [Numeral.chars, StopsAt] using hsign
  | false => simpa [Numeral.chars, StopsAt] using hdigit c (hn.whole c List.mem_cons_self)

/-! ## Quoted texts -/

/-- A text without quotes is read up to its closing quote. -/
theorem quoted?_append {s rest : List Char} (hs : '\'' ∉ s) :
    quoted? (s ++ '\'' :: rest) = some (s, rest) := by
  have hchars : ∀ c ∈ s, decide (c ≠ '\'') = true := by
    intro c hc
    rw [decide_eq_true_iff]
    rintro rfl
    exact hs hc
  have hstop : StopsAt (fun c => decide (c ≠ '\'')) ('\'' :: rest) := stopsAt_cons.mpr (by simp)
  simp only [quoted?, dropWhile_append_stopsAt hchars hstop, takeWhile_append_stopsAt hchars hstop]

/-- A quoted text that is read has no quotes and ends at the first one. -/
theorem quoted?_spells {cs s rest : List Char} (h : quoted? cs = some (s, rest)) :
    '\'' ∉ s ∧ cs = s ++ '\'' :: rest := by
  unfold quoted? at h
  split at h
  · cases h
  · rename_i quote tail hdrop
    simp only [Option.some.injEq, Prod.mk.injEq] at h
    obtain ⟨rfl, rfl⟩ := h
    have hquote : quote = '\'' := by
      have hstop := stopsAt_dropWhile (fun c => decide (c ≠ '\'')) cs
      rw [hdrop] at hstop
      simpa using stopsAt_cons.mp hstop
    constructor
    · intro hmem
      have := List.all_eq_true.mp List.all_takeWhile '\'' hmem
      simp at this
    · subst hquote
      rw [← hdrop, List.takeWhile_append_dropWhile]

/-! ## Literals -/

end Scan

/-- **The spelling of a literal** before some text: a quoted text without quotes, or a numeral that
does not run into a word and is not too large. -/
inductive Literal.Spelling : Literal → List Char → List Char → Prop where
  | text {s : String} (rest : List Char) : '\'' ∉ s.toList →
    Spelling (.text s) ('\'' :: (s.toList ++ ['\''])) rest
  | number {n : Scan.Numeral} {rest : List Char} : n.WellFormed → n.value.isFinite = true →
    Scan.StopsAt Scan.isNameChar rest → Spelling (.number n.value) n.chars rest

namespace Scan

/-- No literal starts with a character that a comparator or a blank could be. -/
theorem stopsAt_of_literal {l : Literal} {s rest : List Char} (h : l.Spelling s rest)
    {p : Char → Bool} (hquote : p '\'' = false) (hsign : p '-' = false)
    (hdigit : ∀ c, c.isDigit = true → p c = false) : StopsAt p (s ++ rest) := by
  cases h with
  | text => exact stopsAt_cons.mpr hquote
  | number hn => exact hn.stopsAt rest hsign hdigit

/-- A literal is read from its spelling.

**Proof sketch.** By the two ways to spell a literal. A numeral does not begin with a quote and is
read to its end, because what follows does not go on in it. -/
theorem literal_of_spelling (path : String) {l : Literal} {s rest : List Char}
    (h : l.Spelling s rest) : literal path (s ++ rest) = .ok (l, rest) := by
  cases h with
  | text _ hs => simp [literal, quoted?_append hs]
  | @number n _ hn hfinite hrest =>
    have hstop : StopsAt (fun c => decide (c = '\'')) (n.chars ++ rest) := by
      refine hn.stopsAt rest (by decide) fun c hc => ?_
      rw [decide_eq_false_iff_not]
      rintro rfl
      exact absurd hc (by decide)
    have hglued : (rest.takeWhile isNameChar).isEmpty = true := by
      have hnone : ∀ c ∈ ([] : List Char), isNameChar c = true := by simp
      simpa using takeWhile_append_stopsAt hnone hrest
    have hnumber : number n rest = .ok (.number n.value) := by
      simp only [number, hglued, hfinite, if_true]
    have hread := numeral?_append hn hrest
    unfold literal
    split
    · rename_i heq
      rw [heq] at hstop
      exact absurd (stopsAt_cons.mp hstop) (by simp)
    · rw [hread]
      simp only [hnumber]
      rfl

/-- A literal that is read is spelled at the start of the text.

**Proof sketch.** By the first character: a quote begins a text, and anything else can only be a
number, whose numeral must be finite and must not go on in a word. -/
theorem literal_spells {path : String} {cs rest : List Char} {l : Literal}
    (h : literal path cs = .ok (l, rest)) : ∃ s, cs = s ++ rest ∧ l.Spelling s rest := by
  unfold literal at h
  split at h
  · split at h
    · rename_i s tail hquoted
      obtain ⟨hs, hcs⟩ := quoted?_spells hquoted
      simp only [Except.ok.injEq, Prod.mk.injEq] at h
      obtain ⟨rfl, rfl⟩ := h
      refine ⟨'\'' :: (s ++ ['\'']), by simp [hcs], ?_⟩
      have hspelling := Literal.Spelling.text (s := .ofList s) tail (by simpa using hs)
      simpa using hspelling
    · cases h
  · split at h
    · rename_i n tail hnumeral
      obtain ⟨hn, hcs⟩ := numeral?_spells hnumeral
      unfold number at h
      simp only at h
      split at h
      · rename_i hglued
        split at h
        · rename_i hfinite
          simp only [Except.map, Except.ok.injEq, Prod.mk.injEq] at h
          obtain ⟨rfl, rfl⟩ := h
          refine ⟨n.chars, hcs, .number hn hfinite ?_⟩
          cases tail with
          | nil => exact stopsAt_nil _
          | cons c tail => exact stopsAt_cons.mpr (by simpa [List.takeWhile_cons] using hglued)
        · cases h
      · cases h
    · cases h

/-! ## Comparators -/

/-- The longest comparator is read: what follows one does not start with `=`. -/
theorem comparator?_append (c : Comparator) {rest : List Char}
    (hrest : StopsAt (fun d => decide (d = '=')) rest) :
    comparator? (c.symbol.toList ++ rest) = some (c, rest) := by
  cases c with
  | greater | less =>
    cases rest with
    | nil => rfl
    | cons d tail =>
      have hd : d ≠ '=' := by simpa using stopsAt_cons.mp hrest
      simp [Comparator.symbol, comparator?, hd]
  | atLeast | atMost | equal => rfl

/-- A comparator that is read stands at the start of the text. -/
theorem comparator?_spells {cs rest : List Char} {c : Comparator}
    (h : comparator? cs = some (c, rest)) : cs = c.symbol.toList ++ rest := by
  unfold comparator? at h
  split at h <;> simp only [Option.some.injEq, Prod.mk.injEq, reduceCtorEq] at h <;>
    obtain ⟨rfl, rfl⟩ := h <;> rfl

/-! ## Tokens -/

/-- The characters of an attribute or a keyword. -/
def IsName : List Char → Prop
  | [] => False
  | c :: cs => isNameStart c = true ∧ ∀ d ∈ cs, isNameChar d = true

/-- Whether a text is a name can be told from its characters. -/
instance : DecidablePred IsName
  | [] => inferInstanceAs (Decidable False)
  | c :: cs =>
    decidable_of_iff (isNameStart c = true ∧ cs.all isNameChar = true)
      (and_congr Iff.rfl List.all_eq_true)

end Scan

/-- Only the two keywords are connectives. -/
theorem Connective.ofKeyword?_eq_none_iff {word : String} :
    ofKeyword? word = none ↔ word ≠ "AND" ∧ word ≠ "OR" := by
  rw [ofKeyword?, List.find?_eq_none]
  constructor
  · intro h
    exact ⟨fun hword => h and (by simp) (decide_eq_true hword.symm),
      fun hword => h or (by simp) (decide_eq_true hword.symm)⟩
  · rintro ⟨hand, hor⟩ op - hop
    cases op with
    | and => exact hand (of_decide_eq_true hop).symm
    | or => exact hor (of_decide_eq_true hop).symm

/-- **The spelling of a token** before some text: a parenthesis; a keyword that does not run into a
longer word; or an attribute, a comparator and a literal, with blanks between them. -/
inductive Token.Spelling : Token → List Char → List Char → Prop where
  | openParen (rest : List Char) : Spelling .openParen ['('] rest
  | closeParen (rest : List Char) : Spelling .closeParen [')'] rest
  | connective (op : Connective) {rest : List Char} : Scan.StopsAt Scan.isNameChar rest →
    Spelling (.connective op) op.keyword.toList rest
  | condition {path : String} {comparator : Comparator} {literal : Literal}
    {before after value rest : List Char} : Scan.IsName path.toList → path ≠ "AND" → path ≠ "OR" →
    (∀ c ∈ before, isBlank c = true) → (∀ c ∈ after, isBlank c = true) →
    literal.Spelling value rest →
    Spelling (.condition ⟨path, comparator, literal⟩)
      (path.toList ++ before ++ comparator.symbol.toList ++ after ++ value) rest

namespace Scan

/-- A comparator starts with no blank and no character of a name. -/
theorem stopsAt_symbol (c : Comparator) (rest : List Char) {p : Char → Bool}
    (hgreater : p '>' = false)
    (hless : p '<' = false) (hequal : p '=' = false) : StopsAt p (c.symbol.toList ++ rest) := by
  cases c with
  | greater | atLeast => exact stopsAt_cons.mpr hgreater
  | less | atMost => exact stopsAt_cons.mpr hless
  | equal => exact stopsAt_cons.mpr hequal

/-- Blanks do not change that a text starts with no character of a name. -/
theorem stopsAt_isNameChar_blanks {blanks rest : List Char}
    (hblanks : ∀ c ∈ blanks, isBlank c = true)
    (hrest : StopsAt isNameChar rest) : StopsAt isNameChar (blanks ++ rest) := by
  cases blanks with
  | nil => exact hrest
  | cons c blanks =>
    exact stopsAt_cons.mpr (isNameChar_of_isBlank (hblanks c List.mem_cons_self))

/-- The rest of a condition is read from its spelling.

**Proof sketch.** A comparator is read as far as it goes, so what follows it must not begin with the
sign that would make it longer; nor does a literal begin with a blank. -/
theorem test_of_spelling (path : String) (comparator : Comparator) {literal : Literal}
    {before after value rest : List Char} (hbefore : ∀ c ∈ before, isBlank c = true)
    (hafter : ∀ c ∈ after, isBlank c = true) (hvalue : literal.Spelling value rest) :
    test path (before ++ (comparator.symbol.toList ++ (after ++ (value ++ rest)))) =
      .ok (⟨path, comparator, literal⟩, rest) := by
  have hblank : StopsAt isBlank (value ++ rest) :=
    stopsAt_of_literal hvalue (by decide) (by decide) fun c hc => by
      cases hb : isBlank c with
      | false => rfl
      | true => exact absurd (isNameChar_of_isDigit hc) (by simp [isNameChar_of_isBlank hb])
  have hequal : StopsAt (fun d => decide (d = '=')) (after ++ (value ++ rest)) := by
    cases after with
    | nil =>
      refine stopsAt_of_literal hvalue (by decide) (by decide) fun c hc => ?_
      rw [decide_eq_false_iff_not]
      rintro rfl
      exact absurd hc (by decide)
    | cons c after =>
      refine stopsAt_cons.mpr (decide_eq_false_iff_not.mpr ?_)
      rintro rfl
      exact absurd (hafter '=' List.mem_cons_self) (by decide)
  have hcomparator := skipBlanks_append hbefore
    (stopsAt_symbol comparator (after ++ (value ++ rest)) (p := isBlank) (by decide) (by decide)
      (by decide))
  simp only [test, hcomparator, comparator?_append comparator hequal,
    skipBlanks_append hafter hblank, literal_of_spelling path hvalue]

/-- The rest of a condition that is read is spelled at the start of the text. -/
theorem test_spells {path : String} {cs rest : List Char} {c : Condition}
    (h : test path cs = .ok (c, rest)) : ∃ before after value, c.path = path ∧
      (∀ d ∈ before, isBlank d = true) ∧ (∀ d ∈ after, isBlank d = true) ∧
      c.literal.Spelling value rest ∧
      cs = before ++ (c.comparator.symbol.toList ++ (after ++ (value ++ rest))) := by
  unfold test at h
  split at h
  · cases h
  · rename_i comparator tail hcomparator
    split at h
    · cases h
    · rename_i literal _ hliteral
      simp only [Except.ok.injEq, Prod.mk.injEq] at h
      obtain ⟨rfl, rfl⟩ := h
      obtain ⟨value, hvalue, hspelling⟩ := literal_spells hliteral
      refine ⟨cs.takeWhile isBlank, tail.takeWhile isBlank, value, rfl,
        fun d hd => List.all_eq_true.mp List.all_takeWhile d hd,
        fun d hd => List.all_eq_true.mp List.all_takeWhile d hd, hspelling, ?_⟩
      rw [← hvalue, skipBlanks, List.takeWhile_append_dropWhile, ← comparator?_spells hcomparator,
        skipBlanks, List.takeWhile_append_dropWhile]

/-- A name that does not go on is read as a word.

**Proof sketch.** A name begins with a letter or an underscore, which is neither a blank nor a
parenthesis, and the characters of names that follow end with it. -/
theorem token_of_name {name rest : List Char} (hname : IsName name)
    (hrest : StopsAt isNameChar rest) : ∃ c tail, name ++ rest = c :: tail ∧ isBlank c = false ∧
      token c tail = word (.ofList name) rest := by
  obtain _ | ⟨c, cs⟩ := name
  · exact hname.elim
  · obtain ⟨hstart, hchars⟩ := hname
    have hblank : isBlank c = false := by
      cases hb : isBlank c with
      | false => rfl
      | true =>
        exact absurd (isNameChar_of_isNameStart hstart) (by simp [isNameChar_of_isBlank hb])
    have hopen : c ≠ '(' := by
      rintro rfl
      exact absurd hstart (by decide)
    have hclose : c ≠ ')' := by
      rintro rfl
      exact absurd hstart (by decide)
    refine ⟨c, cs ++ rest, rfl, hblank, ?_⟩
    simp only [token, if_neg hopen, if_neg hclose, hstart, if_true,
      takeWhile_append_stopsAt hchars hrest, dropWhile_append_stopsAt hchars hrest]

/-- A keyword is a name. -/
theorem isName_keyword (op : Connective) : IsName op.keyword.toList := by
  cases op <;> decide

/-- A token is read from its spelling. -/
theorem token_of_spelling {t : Token} {s rest : List Char} (h : t.Spelling s rest) :
    ∃ c tail, s ++ rest = c :: tail ∧ isBlank c = false ∧ token c tail = .ok (t, rest) := by
  cases h with
  | openParen => exact ⟨'(', rest, rfl, by decide, by simp [token]⟩
  | closeParen => exact ⟨')', rest, rfl, by decide, by simp [token]⟩
  | connective op hrest =>
    obtain ⟨c, tail, hs, hblank, htoken⟩ := token_of_name (isName_keyword op) hrest
    refine ⟨c, tail, hs, hblank, htoken.trans ?_⟩
    simp [word, Connective.ofKeyword?_keyword]
  | @condition path comparator literal before after value _ hname hand hor hbefore hafter hvalue =>
    have hstop := stopsAt_isNameChar_blanks hbefore
      (stopsAt_symbol comparator (after ++ (value ++ rest)) (p := isNameChar) (by decide)
        (by decide) (by decide))
    obtain ⟨c, tail, hs, hblank, htoken⟩ := token_of_name hname hstop
    refine ⟨c, tail, by rw [← hs]; simp, hblank, htoken.trans ?_⟩
    simp [word, Connective.ofKeyword?_eq_none_iff.mpr ⟨hand, hor⟩,
      test_of_spelling path comparator hbefore hafter hvalue, Except.map]

/-- A name that is read with what it asks for is spelled at the start of the text.

**Proof sketch.** A name is a keyword, which ends the token, or begins a condition, which the rest
of the token completes. -/
theorem word_spells {name cs rest : List Char} {t : Token} (hname : IsName name)
    (hstop : StopsAt isNameChar cs) (h : word (.ofList name) cs = .ok (t, rest)) :
    ∃ s, name ++ cs = s ++ rest ∧ t.Spelling s rest := by
  unfold word at h
  cases hop : Connective.ofKeyword? (.ofList name) with
  | some op =>
    rw [hop] at h
    simp only [Except.ok.injEq, Prod.mk.injEq] at h
    obtain ⟨rfl, rfl⟩ := h
    have hkeyword : op.keyword = .ofList name := by simpa using List.find?_some hop
    refine ⟨op.keyword.toList, ?_, .connective op hstop⟩
    rw [hkeyword, String.toList_ofList]
  | none =>
    rw [hop] at h
    cases htest : test (.ofList name) cs with
    | error e =>
      rw [htest] at h
      cases h
    | ok result =>
      rw [htest] at h
      simp only [Except.map, Except.ok.injEq, Prod.mk.injEq] at h
      obtain ⟨rfl, rfl⟩ := h
      obtain ⟨before, after, value, hpath, hbefore, hafter, hvalue, hchars⟩ := test_spells htest
      have hand := Connective.ofKeyword?_eq_none_iff.mp hop
      rw [← hpath] at hand
      have hpathname : IsName result.1.path.toList := by
        rw [hpath, String.toList_ofList]
        exact hname
      refine ⟨_, ?_, .condition hpathname hand.1 hand.2 hbefore hafter hvalue⟩
      rw [hchars, hpath]
      simp

/-- A token that is read is spelled at the start of the text.

**Proof sketch.** By the first character, as the scanner does it. -/
theorem token_spells {c : Char} {cs rest : List Char} {t : Token}
    (h : token c cs = .ok (t, rest)) : ∃ s, c :: cs = s ++ rest ∧ t.Spelling s rest := by
  unfold token at h
  by_cases hopen : c = '('
  · rw [if_pos hopen] at h
    cases h
    exact ⟨['('], by rw [hopen]; rfl, .openParen _⟩
  rw [if_neg hopen] at h
  by_cases hclose : c = ')'
  · rw [if_pos hclose] at h
    cases h
    exact ⟨[')'], by rw [hclose]; rfl, .closeParen _⟩
  rw [if_neg hclose] at h
  by_cases hstart : isNameStart c = true
  · rw [if_pos hstart] at h
    have hname : IsName (c :: cs.takeWhile isNameChar) :=
      ⟨hstart, fun d hd => List.all_eq_true.mp List.all_takeWhile d hd⟩
    have hcs : (c :: cs.takeWhile isNameChar) ++ cs.dropWhile isNameChar = c :: cs := by
      rw [List.cons_append, List.takeWhile_append_dropWhile]
    rw [← hcs]
    exact word_spells hname (stopsAt_dropWhile _ _) h
  · rw [if_neg hstart] at h
    cases h

end Scan

/-! ## Texts -/

/-- **The texts that spell a list of tokens**, with blanks before, between and after them. -/
inductive Token.Spelled : List Token → List Char → Prop where
  | nil {blanks : List Char} : (∀ c ∈ blanks, isBlank c = true) → Spelled [] blanks
  | cons {t : Token} {ts : List Token} {blanks s rest : List Char} :
    (∀ c ∈ blanks, isBlank c = true) → t.Spelling s rest → Spelled ts rest →
    Spelled (t :: ts) (blanks ++ (s ++ rest))

namespace Scan

/-- Blanks alone are no tokens. -/
theorem tokens_of_blanks {cs : List Char} (h : skipBlanks cs = []) : tokens cs = .ok [] := by
  rw [tokens]
  split
  · rfl
  · rename_i heq
    rw [h] at heq
    cases heq

/-- After the blanks one token is read, and then the others. -/
theorem tokens_of_cons {cs tail : List Char} {c : Char} (h : skipBlanks cs = c :: tail) :
    tokens cs = (token c tail).bind fun (t, rest) => (tokens rest).map (t :: ·) := by
  rw [tokens]
  split
  · rename_i heq
    rw [h] at heq
    cases heq
  · rename_i heq
    rw [h] at heq
    injection heq with hc htail
    subst hc htail
    split
    · rename_i htoken
      simp only [htoken, Except.bind]
    · rename_i htoken
      simp only [htoken, Except.bind]

/-- The tokens of a text are read from their spelling. -/
theorem tokens_of_spelled {ts : List Token} {cs : List Char} (h : Token.Spelled ts cs) :
    tokens cs = .ok ts := by
  induction h with
  | nil hblanks =>
    refine tokens_of_blanks ?_
    have hskip := skipBlanks_append hblanks (stopsAt_nil isBlank)
    rwa [List.append_nil] at hskip
  | cons hblanks hspelling _ ih =>
    obtain ⟨c, tail, hs, hblank, htoken⟩ := token_of_spelling hspelling
    have hstop : StopsAt isBlank (c :: tail) := stopsAt_cons.mpr hblank
    rw [hs, tokens_of_cons (skipBlanks_append hblanks hstop)]
    simp only [htoken, Except.bind, ih, Except.map]

/-- The tokens that are read are spelled by the text.

**Proof sketch.** By recursion on the length of the text. The blanks before a token are passed over,
the token is spelled where it was read, and the text that is left is shorter. -/
theorem spelled_of_tokens {cs : List Char} {ts : List Token} (h : tokens cs = .ok ts) :
    Token.Spelled ts cs := by
  have hblanks : ∀ d ∈ cs.takeWhile isBlank, isBlank d = true :=
    fun d hd => List.all_eq_true.mp List.all_takeWhile d hd
  have hcs : cs.takeWhile isBlank ++ skipBlanks cs = cs := List.takeWhile_append_dropWhile
  cases hskip : skipBlanks cs with
  | nil =>
    rw [tokens_of_blanks hskip] at h
    injection h with h
    rw [hskip, List.append_nil] at hcs
    rw [← h, ← hcs]
    exact .nil hblanks
  | cons c tail =>
    rw [tokens_of_cons hskip] at h
    cases htoken : token c tail with
    | error e =>
      rw [htoken] at h
      cases h
    | ok result =>
      obtain ⟨t, rest⟩ := result
      have hshorter := token_length_lt hskip htoken
      rw [htoken] at h
      cases hrest : tokens rest with
      | error e =>
        simp [Except.bind, hrest, Except.map] at h
      | ok us =>
        simp only [Except.bind, hrest, Except.map, Except.ok.injEq] at h
        obtain ⟨s, hs, hspelling⟩ := token_spells htoken
        rw [← h, ← hcs, hskip, hs]
        exact .cons hblanks hspelling (spelled_of_tokens hrest)
termination_by cs.length

/-- **Scanning finds the tokens that a text spells**, and only those. -/
theorem tokens_eq_ok_iff {cs : List Char} {ts : List Token} :
    tokens cs = .ok ts ↔ Token.Spelled ts cs :=
  ⟨spelled_of_tokens, tokens_of_spelled⟩

end Scan

/-- **The lexical grammar**: the tokens of a text are those that it spells, in their order and with
blanks before, between and after them. A text that spells no list of tokens has none.

**Proof sketch.** The scanner is the reader of characters with the positions of its faults filled
in, and the reader finds just the tokens that are spelled (`Scan.tokens_eq_ok_iff`). -/
theorem Token.scan_eq_ok_iff (text : String) (ts : List Token) :
    Token.scan text = .ok ts ↔ Token.Spelled ts text.toList := by
  rw [← Scan.tokens_eq_ok_iff, Token.scan]
  cases Scan.tokens text.toList with
  | ok found => simp only [Except.ok.injEq]
  | error fault => simp only [reduceCtorEq]

/-! ## Conditions with a spelling -/

/-- A literal has a spelling: a text without quotes or a finite number. -/
def Literal.Lexable : Literal → Prop
  | number x => x.isFinite = true
  | text s => '\'' ∉ s.toList

/-- Whether a literal has a spelling can be told: numbers must be finite and texts without quotes.
-/
instance : DecidablePred Literal.Lexable
  | .number x => inferInstanceAs (Decidable (x.isFinite = true))
  | .text s => inferInstanceAs (Decidable ('\'' ∉ s.toList))

/-- A condition has a spelling: its attribute is a name and no keyword, and its literal has one. -/
structure Condition.Lexable (c : Condition) : Prop where
  name : Scan.IsName c.path.toList
  ne_and : c.path ≠ "AND"
  ne_or : c.path ≠ "OR"
  literal : c.literal.Lexable

/-- Whether a condition has a spelling can be told from its parts. -/
instance : DecidablePred Condition.Lexable := fun c =>
  decidable_of_iff (Scan.IsName c.path.toList ∧ c.path ≠ "AND" ∧ c.path ≠ "OR" ∧ c.literal.Lexable)
    ⟨fun h => ⟨h.1, h.2.1, h.2.2.1, h.2.2.2⟩, fun h => ⟨h.name, h.ne_and, h.ne_or, h.literal⟩⟩

/-- The conditions that a text spells have a spelling. -/
theorem Token.Spelled.lexable {ts : List Token} {cs : List Char} (h : Token.Spelled ts cs)
    {c : Condition} (hc : Token.condition c ∈ ts) : c.Lexable := by
  induction h with
  | nil => cases hc
  | cons _ hspelling _ ih =>
    rcases List.mem_cons.mp hc with hc | hc
    · subst hc
      cases hspelling with
      | condition hname hand hor _ _ hvalue =>
        refine ⟨hname, hand, hor, ?_⟩
        cases hvalue with
        | text _ hs => exact hs
        | number _ hfinite _ => exact hfinite
    · exact ih hc

/-- The text of a literal is a spelling of it. -/
theorem Literal.Lexable.spelling {l : Literal} (h : l.Lexable) {rest : List Char}
    (hrest : Scan.StopsAt Scan.isNameChar rest) : Literal.Spelling l l.spelling.toList rest := by
  cases l with
  | number x =>
    obtain ⟨n, hn, hchars, hvalue⟩ := NumberStyle.exists_numeral h
    have hspelling := Literal.Spelling.number hn (by rwa [hvalue]) hrest
    rwa [hvalue, ← hchars] at hspelling
  | text s =>
    have hspelling := Literal.Spelling.text rest h
    simpa [Literal.spelling] using hspelling

/-- **The text of a condition is a spelling of it**, if it has any. -/
theorem Condition.Lexable.spelling {c : Condition} (h : c.Lexable) {rest : List Char}
    (hrest : Scan.StopsAt Scan.isNameChar rest) :
    Token.Spelling (.condition c) c.text.toList rest := by
  have hblank : ∀ c ∈ [' '], isBlank c = true := List.forall_mem_singleton.mpr (by decide)
  have hspelling : Token.Spelling (.condition c) (c.path.toList ++ [' '] ++
      c.comparator.symbol.toList ++ [' '] ++ c.literal.spelling.toList) rest :=
    .condition h.name h.ne_and h.ne_or hblank hblank (h.literal.spelling hrest)
  simpa [Condition.text] using hspelling

end Eligibility
