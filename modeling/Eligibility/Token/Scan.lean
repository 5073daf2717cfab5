import Eligibility.Text.Blank
import Eligibility.Token.Basic

/-!
# Rule text to tokens

Text is read from left to right, skipping blanks before each token. Every reader returns what it has
read together with the text after it, and a failure keeps the text from the fault on, so that its
position is the length of the text less the length of what is left.

## Main definitions

* `Token.scan` — the tokens of a text.
* `Scan.tokens`, `Scan.token` — all tokens and one token of a list of characters.
* `Scan.word`, `Scan.literal`, `Scan.numeral?` — the parts of a condition.

## Main results

* `Scan.token_suffix` — what is left after a token is a suffix of the text behind its first
  character.

## Implementation notes

Of two comparators of which one starts the other the longer is read, and so is the longest number: a
point belongs to a number only if a digit follows. A connective is a whole word; a longer word that
starts like one is an attribute.
-/

set_option relaxedAutoImplicit false
set_option autoImplicit false

namespace Eligibility

namespace Scan

open LexicalError (Cause)

/-- A failed reading, with the text from the fault on. -/
structure Fault where
  cause : Cause
  rest : List Char

/-! ## Characters -/

/-- Whether an attribute or keyword can start with the character. -/
def isNameStart (c : Char) : Bool := c.isAlpha || c = '_'

/-- Whether an attribute or keyword can go on with the character. -/
def isNameChar (c : Char) : Bool := c.isAlphanum || c = '_' || c = '.'

/-- The text after its leading blanks. -/
def skipBlanks (cs : List Char) : List Char := cs.dropWhile isBlank

/-! ## Parts of a condition -/

/-- The comparator at the start of a text, the longest that fits, and the text after it. -/
def comparator? : List Char → Option (Comparator × List Char)
  | '>' :: '=' :: rest => some (.atLeast, rest)
  | '<' :: '=' :: rest => some (.atMost, rest)
  | '>' :: rest => some (.greater, rest)
  | '<' :: rest => some (.less, rest)
  | '=' :: rest => some (.equal, rest)
  | _ => none

/-- A number as written: a sign, digits, and the digits after a point if it has one. -/
structure Numeral where
  negative : Bool
  whole : List Char
  fraction : List Char

namespace Numeral

/-- The characters of a numeral. -/
def chars (n : Numeral) : List Char :=
  (if n.negative then ['-'] else []) ++ n.whole ++
    (if n.fraction.isEmpty then [] else '.' :: n.fraction)

/-- The number nearest to the one written. -/
def value (n : Numeral) : Binary64 :=
  (Decimal.ofDigits n.whole n.fraction).toBinary64 n.negative

end Numeral

/-- The fraction of a number at the start of a text: a point and at least one digit, or nothing. -/
def fraction : List Char → List Char × List Char
  | '.' :: rest =>
    if (rest.takeWhile Char.isDigit).isEmpty then ([], '.' :: rest)
    else (rest.takeWhile Char.isDigit, rest.dropWhile Char.isDigit)
  | cs => ([], cs)

/-- The digits of a number at the start of a text, of which there must be one before the point. -/
def unsigned? (negative : Bool) (cs : List Char) : Option (Numeral × List Char) :=
  let whole := cs.takeWhile Char.isDigit
  let (digits, rest) := fraction (cs.dropWhile Char.isDigit)
  if whole.isEmpty then none else some (⟨negative, whole, digits⟩, rest)

/-- The longest number at the start of a text, and the text after it. -/
def numeral? : List Char → Option (Numeral × List Char)
  | '-' :: rest => unsigned? true rest
  | cs => unsigned? false cs

/-- The text up to the next quote, and the text after that quote. -/
def quoted? (cs : List Char) : Option (List Char × List Char) :=
  match cs.dropWhile (· ≠ '\'') with
  | [] => none
  | _ :: rest => some (cs.takeWhile (· ≠ '\''), rest)

/-- The numeric literal that a numeral with the given text after it stands for. -/
def number (n : Numeral) (rest : List Char) : Except Cause Literal :=
  let glued := rest.takeWhile isNameChar
  if glued.isEmpty then
    if n.value.isFinite then .ok (.number n.value) else .error (.invalidNumber (.ofList n.chars))
  else .error (.invalidNumber (.ofList (n.chars ++ glued)))

/-- The literal at the start of a text, in a condition on the attribute `path`. -/
def literal (path : String) : List Char → Except Cause (Literal × List Char)
  | '\'' :: cs =>
    match quoted? cs with
    | some (s, rest) => .ok (.text (.ofList s), rest)
    | none => .error .unterminatedText
  | cs =>
    match numeral? cs with
    | some (n, rest) => (number n rest).map (·, rest)
    | none => .error (.missingValue path)

/-- The rest of a condition, after its attribute. -/
def test (path : String) (cs : List Char) : Except Fault (Condition × List Char) :=
  match comparator? (skipBlanks cs) with
  | none => .error ⟨.missingComparator path, skipBlanks cs⟩
  | some (comparator, rest) =>
    match literal path (skipBlanks rest) with
    | .error cause => .error ⟨cause, skipBlanks rest⟩
    | .ok (literal, rest) => .ok (⟨path, comparator, literal⟩, rest)

/-! ## Tokens -/

/-- The token that starts with a word, given the word and the text after it. -/
def word (name : String) (cs : List Char) : Except Fault (Token × List Char) :=
  match Connective.ofKeyword? name with
  | some op => .ok (.connective op, cs)
  | none => (test name cs).map fun (c, rest) => (.condition c, rest)

/-- The token that starts with the character `c`, given the text after `c`. -/
def token (c : Char) (cs : List Char) : Except Fault (Token × List Char) :=
  if c = '(' then .ok (.openParen, cs)
  else if c = ')' then .ok (.closeParen, cs)
  else if isNameStart c then
    word (.ofList (c :: cs.takeWhile isNameChar)) (cs.dropWhile isNameChar)
  else .error ⟨.unexpectedCharacter c, c :: cs⟩

/-- A comparator is taken from the front of a text. -/
theorem comparator?_suffix {cs rest : List Char} {c : Comparator}
    (h : comparator? cs = some (c, rest)) : rest <:+ cs := by
  unfold comparator? at h
  split at h <;> simp only [Option.some.injEq, Prod.mk.injEq, reduceCtorEq] at h <;>
    obtain ⟨_, rfl⟩ := h
  · exact (List.suffix_cons ..).trans (List.suffix_cons ..)
  · exact (List.suffix_cons ..).trans (List.suffix_cons ..)
  all_goals exact List.suffix_cons ..

/-- A fraction is taken from the front of a text. -/
theorem fraction_suffix (cs : List Char) : (fraction cs).2 <:+ cs := by
  unfold fraction
  split
  · split
    · exact List.suffix_refl _
    · exact (List.dropWhile_suffix _).trans (List.suffix_cons ..)
  · exact List.suffix_refl _

/-- A numeral is taken from the front of a text. -/
theorem numeral?_suffix {cs rest : List Char} {n : Numeral}
    (h : numeral? cs = some (n, rest)) : rest <:+ cs := by
  have unsigned {b : Bool} {cs : List Char} (h : unsigned? b cs = some (n, rest)) :
      rest <:+ cs := by
    simp only [unsigned?] at h
    split at h
    · cases h
    · injection h with h
      injection h with _ h
      subst h
      exact (fraction_suffix _).trans (List.dropWhile_suffix _)
  unfold numeral? at h
  split at h
  · exact (unsigned h).trans (List.suffix_cons ..)
  · exact unsigned h

/-- A text in quotes is taken from the front of a text. -/
theorem quoted?_suffix {cs s rest : List Char} (h : quoted? cs = some (s, rest)) :
    rest <:+ cs := by
  unfold quoted? at h
  split at h
  · cases h
  · rename_i hd
    injection h with h
    injection h with _ h
    subst h
    exact (List.suffix_cons ..).trans (hd ▸ List.dropWhile_suffix _)

/-- A literal is taken from the front of a text. -/
theorem literal_suffix {path : String} {cs rest : List Char} {l : Literal}
    (h : literal path cs = .ok (l, rest)) : rest <:+ cs := by
  unfold literal at h
  split at h
  · split at h
    · rename_i hq
      injection h with h
      injection h with _ h
      subst h
      exact (quoted?_suffix hq).trans (List.suffix_cons ..)
    · cases h
  · split at h
    · rename_i n tail hn
      cases hv : number n tail with
      | error e => rw [hv] at h; cases h
      | ok v =>
        rw [hv] at h
        injection h with h
        injection h with _ h
        subst h
        exact numeral?_suffix hn
    · cases h

/-- A comparator with its literal is taken from the front of a text. -/
theorem test_suffix {path : String} {cs rest : List Char} {c : Condition}
    (h : test path cs = .ok (c, rest)) : rest <:+ cs := by
  unfold test at h
  split at h
  · cases h
  · rename_i hc
    split at h
    · cases h
    · rename_i hl
      injection h with h
      injection h with _ h
      subst h
      exact (literal_suffix hl).trans <| (List.dropWhile_suffix _).trans <|
        (comparator?_suffix hc).trans (List.dropWhile_suffix _)

/-- What is left after a token is a suffix of the text behind its first character.

**Proof sketch.** By the first character. A parenthesis takes nothing more, and a name takes its own
rest and what it asks for. -/
theorem token_suffix {c : Char} {cs rest : List Char} {t : Token}
    (h : token c cs = .ok (t, rest)) : rest <:+ cs := by
  unfold token at h
  split at h
  · injection h with h
    injection h with _ h
    exact h ▸ List.suffix_refl _
  · split at h
    · injection h with h
      injection h with _ h
      exact h ▸ List.suffix_refl _
    · split at h
      · unfold word at h
        split at h
        · injection h with h
          injection h with _ h
          exact h ▸ List.dropWhile_suffix _
        · cases ht : test (.ofList (c :: cs.takeWhile isNameChar)) (cs.dropWhile isNameChar) with
          | error e => rw [ht] at h; cases h
          | ok v =>
            rw [ht] at h
            injection h with h
            injection h with _ h
            exact h ▸ (test_suffix ht).trans (List.dropWhile_suffix _)
      · cases h

/-- Every token takes something of a text, so that the scanner comes to its end. -/
theorem token_length_lt {cs tail rest : List Char} {c : Char} {t : Token}
    (ht : skipBlanks cs = c :: tail) (hr : token c tail = .ok (t, rest)) :
    rest.length < cs.length := by
  have blanks := (List.dropWhile_suffix (l := cs) isBlank).length_le
  have read := (token_suffix hr).length_le
  rw [show cs.dropWhile isBlank = c :: tail from ht, List.length_cons] at blanks
  omega

/-- All tokens of a text. -/
def tokens (cs : List Char) : Except Fault (List Token) :=
  match ht : skipBlanks cs with
  | [] => .ok []
  | c :: tail =>
    match hr : token c tail with
    | .error fault => .error fault
    | .ok (t, rest) =>
      have : rest.length < cs.length := token_length_lt ht hr
      (tokens rest).map (t :: ·)
termination_by cs.length

end Scan

/-- The tokens of a rule text, or the byte at which it stops being a list of tokens. -/
def Token.scan (text : String) : Except LexicalError (List Token) :=
  match Scan.tokens text.toList with
  | .ok tokens => .ok tokens
  | .error fault =>
    .error ⟨text.utf8ByteSize - (String.ofList fault.rest).utf8ByteSize, fault.cause⟩

/-- A text scans to the tokens of its characters. -/
theorem Token.scan_eq_ok_iff_tokens {text : String} {ts : List Token} :
    Token.scan text = .ok ts ↔ Scan.tokens text.toList = .ok ts := by
  unfold Token.scan
  cases Scan.tokens text.toList with
  | ok found => simp only [Except.ok.injEq]
  | error fault => simp only [reduceCtorEq]

end Eligibility
