import Eligibility.Json.Basic

/-!
# Lexemes of JSON text

JSON text is a list of brackets, separators, strings and other scalars with white space between
them.

## Main definitions

* `Json.Lexeme` — the smallest piece of JSON text.
* `Json.Lexeme.read?` — the lexeme at the start of a text; `Json.Lexeme.readAll?` — all lexemes.

## Main results

* `Json.Lexeme.read?_length_lt` — reading a lexeme takes at least one character.

## Implementation notes

Strings are read as numbers that are code points or halves of surrogate pairs, as escapes give them,
and the halves are paired afterwards.
-/

set_option relaxedAutoImplicit false
set_option autoImplicit false

namespace Eligibility

namespace Json

/-- The smallest piece of JSON text. -/
inductive Lexeme where
  | openBracket
  | closeBracket
  | openBrace
  | closeBrace
  | comma
  | colon
  /-- A string, without a value if its escapes leave half a surrogate pair alone. -/
  | text (s : Option String)
  /-- A scalar other than a string. -/
  | scalar (v : Json)

namespace Lexeme

/-! ## Strings -/

/-- The value of a hexadecimal digit. -/
def hexValue? (c : Char) : Option Nat :=
  if c.isDigit then some (c.toNat - '0'.toNat)
  else if 'a' ≤ c ∧ c ≤ 'f' then some (c.toNat - 'a'.toNat + 10)
  else if 'A' ≤ c ∧ c ≤ 'F' then some (c.toNat - 'A'.toNat + 10)
  else none

/-- The value of four hexadecimal digits. -/
def hexValue4? (a b c d : Char) : Option Nat := do
  return (((← hexValue? a) * 16 + (← hexValue? b)) * 16 + (← hexValue? c)) * 16 + (← hexValue? d)

/-- The code point that a backslash and one character stand for. -/
def unescape? : Char → Option Nat
  | '"' => some 0x22
  | '\\' => some 0x5c
  | '/' => some 0x2f
  | 'b' => some 0x08
  | 'f' => some 0x0c
  | 'n' => some 0x0a
  | 'r' => some 0x0d
  | 't' => some 0x09
  | _ => none

/-- The code points and surrogate halves up to the closing quote, and the text after it. -/
def units? : List Char → Option (List Nat × List Char)
  | [] => none
  | '"' :: rest => some ([], rest)
  | '\\' :: 'u' :: a :: b :: c :: d :: rest => do
    let unit ← hexValue4? a b c d
    let (units, rest) ← units? rest
    return (unit :: units, rest)
  | '\\' :: c :: rest => do
    let unit ← unescape? c
    let (units, rest) ← units? rest
    return (unit :: units, rest)
  | c :: rest =>
    if c.toNat < 0x20 ∨ c = '\\' then none
    else (units? rest).map fun (units, rest) => (c.toNat :: units, rest)

/-- Whether a number is the first half of a surrogate pair. -/
def isHigh (unit : Nat) : Bool := 0xd800 ≤ unit && unit < 0xdc00

/-- Whether a number is the second half of a surrogate pair. -/
def isLow (unit : Nat) : Bool := 0xdc00 ≤ unit && unit < 0xe000

/-- The characters of a list of code points and surrogate halves, if every half has its pair. -/
def ofUnits? : List Nat → Option (List Char)
  | [] => some []
  | [unit] => if isHigh unit || isLow unit then none else some [.ofNat unit]
  | unit :: next :: units =>
    if isHigh unit then
      if isLow next then
        (ofUnits? units).map (.ofNat (0x10000 + (unit - 0xd800) * 0x400 + (next - 0xdc00)) :: ·)
      else none
    else if isLow unit then none
    else (ofUnits? (next :: units)).map (.ofNat unit :: ·)

/-- The string behind an opening quote, and the text after its closing quote. -/
def string? (cs : List Char) : Option (Lexeme × List Char) := do
  let (units, rest) ← units? cs
  return (.text ((ofUnits? units).map .ofList), rest)

/-! ## Numbers -/

/-- The digits before the point: a zero alone, or digits that do not start with one. -/
def whole? : List Char → Option (List Char × List Char)
  | '0' :: rest => some (['0'], rest)
  | cs =>
    if (cs.takeWhile Char.isDigit).isEmpty then none
    else some (cs.takeWhile Char.isDigit, cs.dropWhile Char.isDigit)

/-- The digits after the point, of which there must be one if there is a point. -/
def fraction? : List Char → Option (Option (List Char) × List Char)
  | '.' :: rest =>
    if (rest.takeWhile Char.isDigit).isEmpty then none
    else some (some (rest.takeWhile Char.isDigit), rest.dropWhile Char.isDigit)
  | cs => some (none, cs)

/-- The digits of an exponent with the given sign. -/
def exponentDigits? (negative : Bool) (cs : List Char) : Option (Option Int × List Char) :=
  let digits := cs.takeWhile Char.isDigit
  let size := Nat.ofDigitChars 10 digits 0
  if digits.isEmpty then none
  else some (some (if negative then -(size : Int) else size), cs.dropWhile Char.isDigit)

/-- The exponent after `e` or `E`, which must have a digit. -/
def exponent? : List Char → Option (Option Int × List Char)
  | c :: rest =>
    if c = 'e' ∨ c = 'E' then
      match rest with
      | '-' :: rest => exponentDigits? true rest
      | '+' :: rest => exponentDigits? false rest
      | rest => exponentDigits? false rest
    else some (none, c :: rest)
  | [] => some (none, [])

/-- A finite number, or the mark of one that is too large. -/
def finite (x : Binary64) : Json :=
  if x.isFinite then .number x else .unusable

/-- The value of a number as written. Without a point and an exponent it is an integer as far as 64
bits reach, but for the negative zero. All other numbers are rounded correctly, to the nearest
double with ties to even. That is an assumption about the reader of JSON text: one that trades
accuracy for speed is a step off for some decimals, and reads `0.43258806521161963` as
`0.4325880652116196`. -/
def numberValue (negative : Bool) (whole : List Char) (fraction : Option (List Char))
    (exponent : Option Int) : Json :=
  let decimal := Decimal.ofDigits whole (fraction.getD [])
  let rounded : Decimal := ⟨decimal.coefficient, decimal.exponent + exponent.getD 0⟩
  let size := decimal.coefficient
  if fraction.isSome || exponent.isSome then finite (rounded.toBinary64 negative)
  else if !negative && size < 2 ^ 64 then .integer size
  else if negative && 0 < size && size ≤ 2 ^ 63 then .integer (-size)
  else finite (rounded.toBinary64 negative)

/-- The number after an optional sign, and the text after it. -/
def unsigned? (negative : Bool) (cs : List Char) : Option (Lexeme × List Char) := do
  let (whole, cs) ← whole? cs
  let (fraction, cs) ← fraction? cs
  let (exponent, cs) ← exponent? cs
  return (.scalar (numberValue negative whole fraction exponent), cs)

/-! ## Lexemes -/

/-- Whether white space may hold the character. -/
def isSpace (c : Char) : Bool := c = ' ' || c = '\t' || c = '\n' || c = '\x0d'

/-- The lexeme at the start of a text, and the text after it. -/
def read? : List Char → Option (Lexeme × List Char)
  | '[' :: rest => some (.openBracket, rest)
  | ']' :: rest => some (.closeBracket, rest)
  | '\x7b' :: rest => some (.openBrace, rest)
  | '\x7d' :: rest => some (.closeBrace, rest)
  | ',' :: rest => some (.comma, rest)
  | ':' :: rest => some (.colon, rest)
  | '"' :: rest => string? rest
  | 'n' :: 'u' :: 'l' :: 'l' :: rest => some (.scalar .null, rest)
  | 't' :: 'r' :: 'u' :: 'e' :: rest => some (.scalar (.bool true), rest)
  | 'f' :: 'a' :: 'l' :: 's' :: 'e' :: rest => some (.scalar (.bool false), rest)
  | '-' :: rest => unsigned? true rest
  | cs => unsigned? false cs

/-! ## Progress -/

/-- The units of a string are taken from the front of a text.

**Proof sketch.** By induction along the reader, which takes one unit and its spelling at each step.
-/
theorem units?_suffix {cs rest : List Char} {units : List Nat}
    (h : units? cs = some (units, rest)) : rest <:+ cs := by
  fun_induction units? cs generalizing units rest with
  | case1 => cases h
  | case2 tail =>
    simp only [Option.some.injEq, Prod.mk.injEq] at h
    exact h.2 ▸ List.suffix_cons ..
  | case3 a b c d tail ih =>
    simp only [Option.bind_eq_bind, Option.pure_def, Option.bind_eq_some_iff, Option.some.injEq,
      Prod.mk.injEq] at h
    obtain ⟨_, _, ⟨_, _⟩, hu, _, rfl⟩ := h
    exact (ih hu).trans ⟨['\\', 'u', a, b, c, d], rfl⟩
  | case4 c tail _ ih =>
    simp only [Option.bind_eq_bind, Option.pure_def, Option.bind_eq_some_iff, Option.some.injEq,
      Prod.mk.injEq] at h
    obtain ⟨_, _, ⟨_, _⟩, hu, _, rfl⟩ := h
    exact (ih hu).trans ⟨['\\', c], rfl⟩
  | case5 => cases h
  | case6 c tail _ _ _ _ ih =>
    simp only [Option.map_eq_some_iff, Prod.mk.injEq] at h
    obtain ⟨⟨_, _⟩, hu, _, rfl⟩ := h
    exact (ih hu).trans (List.suffix_cons ..)

/-- A string is taken from the front of a text. -/
theorem string?_suffix {cs rest : List Char} {l : Lexeme} (h : string? cs = some (l, rest)) :
    rest <:+ cs := by
  simp only [string?, Option.bind_eq_bind, Option.pure_def, Option.bind_eq_some_iff,
    Option.some.injEq, Prod.mk.injEq] at h
  obtain ⟨⟨_, _⟩, hu, _, rfl⟩ := h
  exact units?_suffix hu

/-- A fraction is taken from the front of a text. -/
theorem fraction?_suffix {cs rest : List Char} {digits : Option (List Char)}
    (h : fraction? cs = some (digits, rest)) : rest <:+ cs := by
  unfold fraction? at h
  split at h
  · split at h
    · cases h
    · simp only [Option.some.injEq, Prod.mk.injEq] at h
      exact h.2 ▸ (List.dropWhile_suffix _).trans (List.suffix_cons ..)
  · simp only [Option.some.injEq, Prod.mk.injEq] at h
    exact h.2 ▸ List.suffix_refl _

/-- The digits of an exponent are taken from the front of a text. -/
theorem exponentDigits?_suffix {negative : Bool} {cs rest : List Char} {e : Option Int}
    (h : exponentDigits? negative cs = some (e, rest)) : rest <:+ cs := by
  simp only [exponentDigits?] at h
  split at h
  · cases h
  · simp only [Option.some.injEq, Prod.mk.injEq] at h
    exact h.2 ▸ List.dropWhile_suffix _

/-- An exponent is taken from the front of a text. -/
theorem exponent?_suffix {cs rest : List Char} {e : Option Int}
    (h : exponent? cs = some (e, rest)) : rest <:+ cs := by
  unfold exponent? at h
  split at h
  · split at h
    · split at h
      · exact (exponentDigits?_suffix h).trans ⟨[_, _], rfl⟩
      · exact (exponentDigits?_suffix h).trans ⟨[_, _], rfl⟩
      · exact (exponentDigits?_suffix h).trans ⟨[_], rfl⟩
    · simp only [Option.some.injEq, Prod.mk.injEq] at h
      exact h.2 ▸ List.suffix_refl _
  · simp only [Option.some.injEq, Prod.mk.injEq] at h
    exact h.2 ▸ List.suffix_refl _

/-- The digits before a point take something of a text. -/
theorem whole?_length_lt {cs rest digits : List Char} (h : whole? cs = some (digits, rest)) :
    rest.length < cs.length := by
  unfold whole? at h
  split at h
  · simp only [Option.some.injEq, Prod.mk.injEq] at h
    simp [← h.2]
  · split at h
    · cases h
    · rename_i hd
      simp only [Option.some.injEq, Prod.mk.injEq] at h
      have split := congrArg List.length (cs.takeWhile_append_dropWhile (p := Char.isDigit))
      have taken : 0 < (cs.takeWhile Char.isDigit).length :=
        List.length_pos_iff.2 (by simpa using hd)
      rw [List.length_append] at split
      rw [← h.2]
      omega

/-- A number takes something of a text, since its digits before the point do. -/
theorem unsigned?_length_lt {negative : Bool} {cs rest : List Char} {l : Lexeme}
    (h : unsigned? negative cs = some (l, rest)) : rest.length < cs.length := by
  simp only [unsigned?, Option.bind_eq_bind, Option.pure_def, Option.bind_eq_some_iff,
    Option.some.injEq, Prod.mk.injEq] at h
  obtain ⟨⟨_, _⟩, hw, ⟨_, _⟩, hf, ⟨_, _⟩, he, _, rfl⟩ := h
  exact Nat.lt_of_le_of_lt
    ((exponent?_suffix he).trans (fraction?_suffix hf)).length_le (whole?_length_lt hw)

/-- Reading a lexeme takes at least one character. -/
theorem read?_length_lt {cs rest : List Char} {l : Lexeme} (h : read? cs = some (l, rest)) :
    rest.length < cs.length := by
  unfold read? at h
  split at h
  case h_7 => exact Nat.lt_succ_of_le (string?_suffix h).length_le
  case h_11 => exact Nat.lt_trans (unsigned?_length_lt h) (Nat.lt_succ_self _)
  case h_12 => exact unsigned?_length_lt h
  all_goals
    simp only [Option.some.injEq, Prod.mk.injEq] at h
    simp only [← h.2, List.length_cons]
    omega

/-- The lexemes of a text with white space around them. -/
def readAll? (cs : List Char) : Option (List Lexeme) :=
  match hs : cs.dropWhile isSpace with
  | [] => some []
  | c :: tail =>
    match hr : read? (c :: tail) with
    | none => none
    | some (l, rest) =>
      have : rest.length < cs.length :=
        Nat.lt_of_lt_of_le (read?_length_lt hr) (hs ▸ (List.dropWhile_suffix _).length_le)
      (readAll? rest).map (l :: ·)
termination_by cs.length

end Lexeme

end Json

end Eligibility
