import Eligibility.Text.Numerals

/-!
# Settings

What a settings file or the environment says about one name, and the natural number that it stands
for.

## Main definitions

* `Setting` — a value of a setting.
* `Setting.ofText` — the value that a text of the environment stands for.
* `Setting.natural?` — a value as a natural number.
-/

set_option relaxedAutoImplicit false
set_option autoImplicit false

namespace Eligibility

/-- The value of a setting. -/
inductive Setting where
  | boolean (b : Bool)
  | integer (i : Int)
  | number (x : Binary64)
  | text (s : String)
  /-- A list or a table. -/
  | structured

namespace Setting

/-- The value that a text of the environment stands for: the first of a truth value in any case, an
integer and a number that it spells, and otherwise itself. -/
def ofText (s : String) : Setting :=
  match lowerCase s with
  | "true" => boolean true
  | "false" => boolean false
  | _ =>
    match Eligibility.integer? s, Eligibility.double? s with
    | some i, _ => integer i
    | none, some x => number x
    | none, none => text s

/-- The natural number of at most 64 bits nearest to a number, a half going away from zero. -/
def clamp (x : Binary64) : Nat :=
  if x.isNaN || x.negative then 0
  else if x.isFinite then min x.roundedMagnitude (2 ^ 64 - 1)
  else 2 ^ 64 - 1

/-- A value as a natural number. Words count as truth values and truth values as one and zero. -/
def natural? : Setting → Option Nat
  | boolean b => some b.toNat
  | integer i => if 0 ≤ i then some i.toNat else none
  | number x => some (clamp x)
  | text s =>
    match lowerCase s with
    | "true" | "on" | "yes" => some 1
    | "false" | "off" | "no" => some 0
    | _ => Eligibility.natural? s
  | structured => none

end Setting

end Eligibility
