import Eligibility.Condition
import Eligibility.Json.Record

/-!
# Conditions in JSON

A literal is a number or a string, a comparator is its symbol, and a condition is a record of
`attribute`, `comparator` and `literal`.

## Main definitions

* `Literal.toJson`, `Literal.ofJson?` — literals as scalars.
* `Condition.members` — the fields of a condition; `Condition.ofFields?` — the condition with given
  fields.
-/

set_option relaxedAutoImplicit false
set_option autoImplicit false

namespace Eligibility

/-- A literal as a scalar. -/
def Literal.toJson : Literal → Json
  | number x => .number x
  | text s => .string s

/-- The literal that a scalar stands for. -/
def Literal.ofJson? : Json → Option Literal
  | .string s => some (.text s)
  | v => v.double?.map .number

/-- The comparator that a document names. -/
def Comparator.ofJson? (emptyToo : Bool) (v : Json) : Option Comparator := do
  Comparator.ofSymbol? (← v.name? emptyToo)

namespace Condition

/-- The fields of a condition. -/
def members (c : Condition) : List (String × Json) :=
  [("attribute", .string c.path), ("comparator", .string c.comparator.symbol),
    ("literal", c.literal.toJson)]

/-- The condition with the given fields, of which `emptyToo` says how the comparator may be
named. -/
def ofFields? (emptyToo : Bool) : List (Option Json) → Option Condition
  | [some (.string path), some comparator, some literal] => do
    return ⟨path, ← Comparator.ofJson? emptyToo comparator, ← Literal.ofJson? literal⟩
  | _ => none

/-- The condition that a record holds. -/
def ofRecord? (r : Json.Record Json) : Option Condition := do
  ofFields? false (← r.fields? ["attribute", "comparator", "literal"] 3)

end Condition

end Eligibility
