import Eligibility.Setting.Basic
import Eligibility.Setting.Toml.Quoted

/-!
# Unquoted scalars in TOML

Truth values, integers, numbers, and moments: dates, times of day, and both.

## Main definitions

* `Toml.integer?`, `Toml.float?` — the number that a text spells.
* `Toml.isMoment` — whether a text is a moment.
* `Toml.scalar?` — the value of a scalar; `Toml.unquoted?` — the one at the start of a text.

## Implementation notes

An underscore may stand between two digits and nowhere else, so neither after a sign nor beside the
point of a number.
-/

set_option relaxedAutoImplicit false
set_option autoImplicit false

namespace Eligibility

namespace Toml

/-! ## Numbers -/

/-- Digits of a number system without the underscores that stand between two of them. -/
def plainDigits? (isDigit : Char → Bool) : List Char → Option (List Char)
  | [] => none
  | [c] => if isDigit c then some [c] else none
  | c :: '_' :: cs => if isDigit c then (plainDigits? isDigit cs).map (c :: ·) else none
  | c :: cs => if isDigit c then (plainDigits? isDigit cs).map (c :: ·) else none

/-- The decimal digits of a number before its point. They do not begin with a zero, unless it stands
alone. -/
def wholeDigits? (cs : List Char) : Option (List Char) := do
  let digits ← plainDigits? Char.isDigit cs
  if digits.length = 1 ∨ digits.head? ≠ some '0' then some digits else none

/-- The number that a text of an integer spells, in the number system that its start names. -/
def unbounded? : List Char → Option Int
  | '0' :: 'x' :: cs => do
    let n ← hexadecimal? (← plainDigits? (fun c => (hexadecimal? [c]).isSome) cs)
    return n
  | '0' :: 'o' :: cs => do
    return Nat.ofDigitChars 8 (← plainDigits? (fun c => '0' ≤ c && c ≤ '7') cs) 0
  | '0' :: 'b' :: cs => do
    return Nat.ofDigitChars 2 (← plainDigits? (fun c => c = '0' || c = '1') cs) 0
  | cs => do
    let (negative, unsigned) := unsign cs
    let n := Nat.ofDigitChars 10 (← wholeDigits? unsigned) 0
    return if negative then -(n : Int) else n

/-- An integer of at most 64 bits. -/
def integer? (cs : List Char) : Option Int := do
  let n ← unbounded? cs
  if -2 ^ 63 ≤ n ∧ n < 2 ^ 63 then some n else none

/-- Whether a character can stand between the point and the exponent of a number. -/
def isDigitPart (c : Char) : Bool := c.isDigit || c = '_'

/-- The digits of a fraction behind its point, and the text after it; none for a text without a
point. -/
def fraction? : List Char → Option (List Char × List Char)
  | '.' :: cs => do
    return (← plainDigits? Char.isDigit (cs.takeWhile isDigitPart), cs.dropWhile isDigitPart)
  | cs => some ([], cs)

/-- The exponent that a text spells, if it is not empty. -/
def exponent? : List Char → Option (Option Int)
  | [] => some none
  | e :: cs => do
    let (negative, cs) := unsign cs
    let n := Nat.ofDigitChars 10 (← plainDigits? Char.isDigit cs) 0
    if e = 'e' ∨ e = 'E' then return some (if negative then -(n : Int) else n) else none

/-- A number with a fraction or an exponent, or a word for one that is not finite. -/
def float? (cs : List Char) : Option Binary64 := do
  let (negative, unsigned) := unsign cs
  match unsigned with
  | ['i', 'n', 'f'] => return .ofRank negative Binary64.infinityRank
  | ['n', 'a', 'n'] => return .nan
  | _ =>
    let whole ← wholeDigits? (unsigned.takeWhile isDigitPart)
    let (fraction, rest) ← fraction? (unsigned.dropWhile isDigitPart)
    let exponent ← exponent? rest
    let d := Decimal.ofDigits whole fraction
    let x := (⟨d.coefficient, d.exponent + exponent.getD 0⟩ : Decimal).toBinary64 negative
    if (exponent.isSome || !fraction.isEmpty) && x.isFinite then some x else none

/-! ## Moments -/

/-- Whether a text has the shape of a pattern in which `0` stands for any digit. -/
def fits (pattern : String) (cs : List Char) : Bool :=
  pattern.length = cs.length &&
    (pattern.toList.zip cs).all fun (p, c) => if p = '0' then c.isDigit else p = c

/-- The number of days in a month of the Gregorian calendar. -/
def daysIn (year month : Nat) : Nat :=
  if month = 2 then
    if year % 4 = 0 && (year % 100 ≠ 0 || year % 400 = 0) then 29 else 28
  else if month = 4 || month = 6 || month = 9 || month = 11 then 30
  else 31

/-- The number that the digits at a place of a text spell. -/
def numberAt (place count : Nat) (cs : List Char) : Nat :=
  Nat.ofDigitChars 10 ((cs.drop place).take count) 0

/-- Whether a text is a date. -/
def isDate (cs : List Char) : Bool :=
  let month := numberAt 5 2 cs
  let day := numberAt 8 2 cs
  fits "0000-00-00" cs && 1 ≤ month && month ≤ 12 && 1 ≤ day &&
    day ≤ daysIn (numberAt 0 4 cs) month

/-- Whether a text is hours and minutes within a day. -/
def isMinute (cs : List Char) : Bool :=
  fits "00:00" cs && numberAt 0 2 cs ≤ 23 && numberAt 3 2 cs ≤ 59

/-- Whether a text is the seconds of a minute, of which there can be a leap second, and perhaps a
fraction of them. -/
def isSecond (cs : List Char) : Bool :=
  fits "00" (cs.take 2) && numberAt 0 2 cs ≤ 60 &&
    match cs.drop 2 with
    | [] => true
    | '.' :: fraction => !fraction.isEmpty && fraction.all Char.isDigit
    | _ => false

/-- Whether a text is a time of day, with or without seconds. -/
def isTime (cs : List Char) : Bool :=
  isMinute (cs.take 5) &&
    match cs.drop 5 with
    | [] => true
    | ':' :: seconds => isSecond seconds
    | _ => false

/-- Whether a text is a time of day with or without an offset. -/
def isOffsetTime (cs : List Char) : Bool :=
  let time := cs.takeWhile fun c => c.isDigit || c = ':' || c = '.'
  isTime time &&
    match cs.drop time.length with
    | [] => true
    | ['Z'] => true
    | ['z'] => true
    | sign :: offset => (sign = '+' || sign = '-') && isMinute offset

/-- Whether a text is a date, a time, or both. -/
def isMoment (cs : List Char) : Bool :=
  isDate cs || isTime cs ||
    (isDate (cs.take 10) && (cs[10]? = some 'T' || cs[10]? = some 't' || cs[10]? = some ' ') &&
      isOffsetTime (cs.drop 11))

/-! ## Scalars -/

/-- The value of an unquoted scalar. Moments are texts. -/
def scalar? (cs : List Char) : Option Setting :=
  match cs with
  | ['t', 'r', 'u', 'e'] => some (.boolean true)
  | ['f', 'a', 'l', 's', 'e'] => some (.boolean false)
  | cs =>
    if isMoment cs then some (.text (.ofList cs))
    else ((integer? cs).map .integer).or ((float? cs).map .number)

/-- Whether an unquoted scalar can hold the character. -/
def isScalarChar (c : Char) : Bool :=
  c.isAlphanum || c = '+' || c = '-' || c = '_' || c = '.' || c = ':'

/-- The unquoted scalar at the start of a text, and the text after it. A date can go on with a time
after a space. -/
def unquoted? (cs : List Char) : Option (Setting × List Char) :=
  let first := cs.takeWhile isScalarChar
  let rest := cs.dropWhile isScalarChar
  let second := (rest.drop 1).takeWhile isScalarChar
  if isDate first && rest.head? = some ' ' && (second.head?.any Char.isDigit) then
    (scalar? (first ++ ' ' :: second)).map (·, (rest.drop 1).dropWhile isScalarChar)
  else (scalar? first).map (·, rest)

end Toml

end Eligibility
