import Eligibility.Condition

/-!
# Formulas

The parsed form of a rule: conditions joined by `AND` and `OR`, as a binary tree.

## Main definitions

* `Connective`, `Formula`, and the two ways to join, `Formula.and` and `Formula.or`.
* `Formula.depth` — the levels of the tree; `Formula.maxDepth` — the most that a rule may have.
* `Formula.conditions`, `Formula.attributes` — what the leaves hold.
* `Formula.text` — canonical rule text, with the parentheses that keep the shape and no more.
* `Formula.nesting` — how deep the parentheses of the canonical text nest.

## Implementation notes

Chains associate to the left, so a right operand needs parentheses already when its own connective
binds as loosely as the one above it.
-/

set_option relaxedAutoImplicit false
set_option autoImplicit false

namespace Eligibility

/-- What joins two formulas. -/
inductive Connective where
  | and
  | or
deriving DecidableEq

namespace Connective

/-- The keyword of a connective. -/
def keyword : Connective → String
  | and => "AND"
  | or => "OR"

/-- The connective with a given keyword. -/
def ofKeyword? (word : String) : Option Connective :=
  [and, or].find? (·.keyword = word)

/-- The keyword of a connective is read as that connective. -/
theorem ofKeyword?_keyword (op : Connective) : ofKeyword? op.keyword = some op := by
  cases op <;> decide

/-- How tightly a connective binds: `AND` binds tighter than `OR`. -/
def precedence : Connective → Nat
  | or => 1
  | and => 2

end Connective

/-- Conditions joined by connectives, each with exactly two operands. -/
inductive Formula where
  | condition (c : Condition)
  | join (op : Connective) (left right : Formula)
deriving DecidableEq

namespace Formula

/-- The conjunction of two formulas. -/
protected def and (left right : Formula) : Formula := join .and left right

/-- The disjunction of two formulas. -/
protected def or (left right : Formula) : Formula := join .or left right

/-! ## Measures -/

/-- The number of nodes on the longest way from the root to a leaf. -/
def depth : Formula → Nat
  | condition _ => 1
  | join _ left right => max left.depth right.depth + 1

/-- The most levels that a formula read from text or combined from others may have. -/
def maxDepth : Nat := 1024

/-- The conditions at the leaves, from left to right. -/
def conditions : Formula → List Condition
  | condition c => [c]
  | join _ left right => left.conditions ++ right.conditions

/-- The distinct attributes of the conditions, in increasing order. -/
def attributes (f : Formula) : List String :=
  ((f.conditions.map Condition.path).mergeSort fun a b => decide (a ≤ b)).eraseReps

/-- Whether two formulas have the same shape and the same conditions, numbers compared as
numbers. -/
def same : Formula → Formula → Bool
  | condition c, condition d => c.same d
  | join op left right, join op' left' right' => op == op' && left.same left' && right.same right'
  | _, _ => false

/-! ## Canonical text -/

/-- The side of a connective on which an operand stands. -/
inductive Side where
  | left
  | right
deriving DecidableEq

/-- Whether an operand needs parentheses to stay one operand of the connective. -/
def needsParens (parent : Connective) (side : Side) : Formula → Bool
  | condition _ => false
  | join op _ _ =>
    op.precedence < parent.precedence || (side = .right && op.precedence = parent.precedence)

/-- The text of an operand, in parentheses where they are needed. -/
def enclose (parens : Bool) (text : String) : String :=
  if parens then "(" ++ text ++ ")" else text

/-- The canonical text of a formula. -/
def text : Formula → String
  | condition c => c.text
  | join op left right =>
    enclose (left.needsParens op .left) left.text ++ " " ++ op.keyword ++ " " ++
      enclose (right.needsParens op .right) right.text

/-- How deep the parentheses of the canonical text nest. -/
def nesting : Formula → Nat
  | condition _ => 0
  | join op left right =>
    max (left.nesting + (left.needsParens op .left).toNat)
      (right.nesting + (right.needsParens op .right).toNat)

end Formula

end Eligibility
