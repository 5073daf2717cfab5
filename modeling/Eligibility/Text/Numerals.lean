import Eligibility.Number.Decimal

/-!
# Numbers in settings

The numbers that a settings text can hold: integers with an optional sign, and decimals with an
optional sign, point and exponent, or the words for infinity and a NaN.

## Main definitions

* `lowerCase` — a text in lower case, as far as it matters to ASCII words.
* `natural?`, `integer?`, `double?` — the number that a whole text spells.
-/

set_option relaxedAutoImplicit false
set_option autoImplicit false

namespace Eligibility

/-- A text with ASCII letters in lower case, and the one other character whose lower case is an
ASCII letter, the Kelvin sign. -/
def lowerCase (s : String) : String :=
  s.map fun c => if c = '\u212a' then 'k' else c.toLower

/-- The number that a list of decimal digits spells. -/
def ofDigits? (cs : List Char) : Option Nat :=
  if !cs.isEmpty && cs.all Char.isDigit then some (Nat.ofDigitChars 10 cs 0) else none

/-- Whether a sign is negative, and the text after it. -/
def unsign : List Char → Bool × List Char
  | '-' :: cs => (true, cs)
  | '+' :: cs => (false, cs)
  | cs => (false, cs)

/-- The integer of at most 64 bits that a text spells. -/
def integer? (text : String) : Option Int := do
  let (negative, cs) := unsign text.toList
  let n ← ofDigits? cs
  let i : Int := if negative then -(n : Int) else n
  if -2 ^ 63 ≤ i ∧ i < 2 ^ 63 then some i else none

/-- The natural number of at most 64 bits that a text spells. -/
def natural? (text : String) : Option Nat := do
  let n ← ofDigits? (match text.toList with
    | '+' :: cs => cs
    | cs => cs)
  if n < 2 ^ 64 then some n else none

/-- The exponent after an `e`, or zero for no text. -/
def exponentOf? : List Char → Option Int
  | [] => some 0
  | c :: cs => do
    if c = 'e' ∨ c = 'E' then
      let (negative, cs) := unsign cs
      let n ← ofDigits? cs
      return if negative then -(n : Int) else n
    else none

/-- The digits after a point, and the text after them; none for a text without a point. -/
def fractionOf : List Char → List Char × List Char
  | '.' :: cs => (cs.takeWhile Char.isDigit, cs.dropWhile Char.isDigit)
  | cs => ([], cs)

/-- The double-precision number that a text spells: digits with at most one point among them or at
their ends and an optional exponent, or a word. -/
def double? (text : String) : Option Binary64 := do
  let (negative, cs) := unsign text.toList
  match lowerCase (.ofList cs) with
  | "inf" | "infinity" => return .ofRank negative Binary64.infinityRank
  | "nan" => return .nan
  | _ =>
    let whole := cs.takeWhile Char.isDigit
    let (fraction, cs) := fractionOf (cs.dropWhile Char.isDigit)
    let exponent ← exponentOf? cs
    if whole.isEmpty && fraction.isEmpty then none
    else
      let d := Decimal.ofDigits whole fraction
      return (⟨d.coefficient, d.exponent + exponent⟩ : Decimal).toBinary64 negative

end Eligibility
