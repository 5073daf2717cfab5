import Eligibility.Number.Decimal

/-!
# The text of numbers

Numbers are written with the shortest digits that read back. A style says the rest: where the digits
stand for themselves and where an exponent follows, whether a whole number keeps a point, and how
the values without digits are spelled.

## Main definitions

* `NumberStyle` — the choices of one way of writing; `NumberStyle.plain` — the one of rule text.
* `NumberStyle.write` — the text of a number in a style.
-/

set_option relaxedAutoImplicit false
set_option autoImplicit false

namespace Eligibility

/-- The choices of a way to write numbers. -/
structure NumberStyle where
  /-- Which of two equally near shortest decimals is written. -/
  tie : Tie
  /-- Whether a number is written without an exponent, by the power of ten of its first digit. -/
  positional : Int → Bool
  /-- Whether a whole number written without an exponent ends in `.0`. -/
  pointed : Bool
  /-- The texts of a NaN, of infinity and of negative infinity. -/
  nan : String
  infinity : String
  negativeInfinity : String

namespace NumberStyle

/-- Rule text writes every number out in full, whole numbers without a point. -/
def plain : NumberStyle where
  tie := .up
  positional _ := true
  pointed := false
  nan := "NaN"
  infinity := "inf"
  negativeInfinity := "-inf"

/-- The digits of a decimal with its point at the place the exponent gives, padded with zeros. -/
def placed (pointed : Bool) (digits : List Char) (exponent : Int) : List Char :=
  let whole := digits.length + exponent
  if 0 ≤ exponent then
    digits ++ List.replicate exponent.toNat '0' ++ (if pointed then ['.', '0'] else [])
  else if whole ≤ 0 then
    ['0', '.'] ++ List.replicate (-whole).toNat '0' ++ digits
  else
    digits.take whole.toNat ++ '.' :: digits.drop whole.toNat

/-- The digits of a decimal with a point after the first, and the power of ten of the first with its
sign. -/
def scientific (digits : List Char) (exponent : Int) : List Char :=
  let leading := digits.length - 1 + exponent
  let fraction := digits.drop 1
  digits.take 1 ++ (if fraction.isEmpty then [] else '.' :: fraction) ++
    ['e', if leading < 0 then '-' else '+'] ++ Nat.toDigits 10 leading.natAbs

/-- The digits and exponent of a decimal in a style. -/
def digits (style : NumberStyle) (d : Decimal) : List Char :=
  let digits := Nat.toDigits 10 d.coefficient
  if style.positional (digits.length - 1 + d.exponent) then
    placed style.pointed digits d.exponent
  else
    scientific digits d.exponent

/-- The text of a number in a style. -/
def write (style : NumberStyle) (x : Binary64) : String :=
  if x.isNaN then style.nan
  else if x.isFinite then
    let digits := style.digits (.shortest style.tie x.rank)
    .ofList (if x.negative then '-' :: digits else digits)
  else if x.negative then style.negativeInfinity
  else style.infinity

end NumberStyle

end Eligibility
