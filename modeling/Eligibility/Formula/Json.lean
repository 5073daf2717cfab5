import Eligibility.Condition.Json
import Eligibility.Formula.Basic

/-!
# Formulas in JSON

A formula is a record whose field `type` says what it is: a `condition` with the fields of a
condition, or an `operator` with the connective `op` and the operands `left` and `right`.

## Main definitions

* `Formula.toJson`, `Formula.ofJson?` — formulas as documents.

## Implementation notes

Reading goes through a document from the inside out: every part is given the formula that it would
stand for as an operand, and a record of the type `operator` takes those of its operands. As an
operand, a record may also give its type by number. A connective or a comparator may be named by an
object from the name to `null` or to an empty object.
-/

set_option relaxedAutoImplicit false
set_option autoImplicit false

namespace Eligibility

namespace Formula

/-- A formula as a document. -/
def toJson : Formula → Json
  | condition c => .object (("type", .string "condition") :: c.members)
  | join op left right =>
    .object [("type", .string "operator"), ("op", .string op.keyword), ("left", left.toJson),
      ("right", right.toJson)]

/-- A part of a document with the formula that it stands for as an operand. -/
abbrev Part := Json × Option Formula

/-- The two types of formulas. -/
inductive Kind where
  | condition
  | operator

/-- The type that a document names; as an operand, also the type that it gives by number. -/
def Kind.ofJson? (operand : Bool) : Json → Option Kind
  | .string "condition" => some condition
  | .string "operator" => some operator
  | .integer 0 => if operand then some condition else none
  | .integer 1 => if operand then some operator else none
  | _ => none

/-- The type of a record, which comes first in an array, and the record without it. -/
def kind? (operand : Bool) : Json.Record Part → Option (Kind × Json.Record Part)
  | .members ms =>
    match ms.filter (·.1 = "type") with
    | [(_, type, _)] => do
      return (← Kind.ofJson? operand type, .members (ms.filter (·.1 ≠ "type")))
    | _ => none
  | .items ((type, _) :: xs) => do return (← Kind.ofJson? operand type, .items xs)
  | .items [] => none

/-- The formula that a record stands for. -/
def ofRecord? (operand : Bool) (r : Json.Record Part) : Option Formula := do
  match ← kind? operand r with
  | (.condition, r) =>
    let fields ← r.fields? ["attribute", "comparator", "literal"] 3
    return .condition (← Condition.ofFields? true (fields.map (·.map Prod.fst)))
  | (.operator, r) =>
    match ← r.fields? ["op", "left", "right"] 3 with
    | [some (op, _), some (_, some left), some (_, some right)] => do
      return .join (← Connective.ofKeyword? (← op.name? true)) left right
    | _ => none

mutual

/-- The formula that a sound document stands for. -/
def ofSound? (operand : Bool) : Json → Option Formula
  | .object members => ofRecord? operand (.members (ofMembers members))
  | .array items => ofRecord? operand (.items (ofItems items))
  | _ => none

/-- The members of an object with the formulas that they stand for as operands. -/
def ofMembers : List (String × Json) → List (String × Part)
  | [] => []
  | (key, v) :: ms => (key, v, ofSound? true v) :: ofMembers ms

/-- The items of an array with the formulas that they stand for as operands. -/
def ofItems : List Json → List Part
  | [] => []
  | v :: vs => (v, ofSound? true v) :: ofItems vs

end

/-- The formula that a document stands for, every part of which must have a value. -/
def ofJson? (v : Json) : Option Formula :=
  if v.isSound then ofSound? false v else none

end Formula

end Eligibility
