import Eligibility.Condition.Json

/-!
# Attribute values

What an attribute of the data can be, and when it satisfies the right side of a condition.

## Main definitions

* `Value` — a truth value, a number or a text.
* `Value.textForm` — the form that is compared with a quoted literal.
* `Value.satisfies` — whether a value passes the test of a condition.
* `Value.toJson`, `Value.ofJson?` — values as JSON scalars.
-/

set_option relaxedAutoImplicit false
set_option autoImplicit false

namespace Eligibility

/-- The value of an attribute. -/
inductive Value where
  | bool (b : Bool)
  | number (x : Binary64)
  | text (s : String)
deriving DecidableEq

namespace Value

/-- The number that a value is, if it is one. -/
def number? : Value → Option Binary64
  | number x => some x
  | _ => none

/-- The text of a value: itself, or the way rule text writes it. -/
def textForm : Value → String
  | bool true => "true"
  | bool false => "false"
  | number x => NumberStyle.plain.write x
  | text s => s

/-- The text of a value for a reader, who sees a text between double quotes. -/
def display : Value → String
  | text s => "\"" ++ s ++ "\""
  | v => v.textForm

/-- Whether two values are the same text, the same truth value or the same number. -/
def same : Value → Value → Bool
  | bool a, bool b => a == b
  | number x, number y => x.numEq y
  | text s, text t => s == t
  | _, _ => false

/-- Whether a value passes a test. A number passes tests against numbers; any value is equal to the
text that it is written as; everything else fails. -/
def satisfies (v : Value) (comparator : Comparator) : Literal → Bool
  | .number y => v.number?.any fun x => comparator.holds x y
  | .text s => comparator == .equal && v.textForm == s

/-- A value as a scalar. -/
def toJson : Value → Json
  | bool b => .bool b
  | number x => .number x
  | text s => .string s

/-- The value that a scalar stands for. -/
def ofJson? : Json → Option Value
  | .bool b => some (bool b)
  | .string s => some (text s)
  | v => v.double?.map number

end Value

end Eligibility
