import Eligibility.Formula.Basic

/-!
# Grouped formulas

A snapshot stores a chain such as `a AND b AND c` as one group of three members and not as two
connectives. Only the left spine of a chain is gathered, so a group says how its members associate,
and the formula can be rebuilt.

## Main definitions

* `Grouped` — a condition, or a group of members joined by one connective.
* `Formula.group` — the grouped form of a formula.
* `Grouped.formula?` — the formula that a grouped form stands for, unless a group is empty.
* `Grouped.depth?` — the depth of that formula, found without building it.

## Implementation notes

What is read from bytes need not be what `Formula.group` gives: a group can be empty, have a single
member, or begin with a group of its own connective.
-/

set_option relaxedAutoImplicit false
set_option autoImplicit false

namespace Eligibility

/-- A formula with chains of one connective gathered into groups. -/
inductive Grouped where
  | condition (c : Condition)
  | group (op : Connective) (members : List Grouped)

/-- The members of a chain of `op` that this is, or this as its only member. -/
def Grouped.chain (op : Connective) : Grouped → List Grouped
  | condition c => [condition c]
  | group op' members => if op' = op then members else [group op' members]

/-- The grouped form of a formula, with its left spine gathered. -/
def Formula.group : Formula → Grouped
  | condition c => .condition c
  | join op left right => .group op (left.group.chain op ++ [right.group])

namespace Grouped

mutual

/-- The formula that a grouped form stands for, unless a group is empty. -/
def formula? : Grouped → Option Formula
  | condition c => some (.condition c)
  | group _ [] => none
  | group op (first :: rest) => do joinAll op (← first.formula?) rest

/-- A formula joined with all members of a list, from left to right. -/
def joinAll (op : Connective) (left : Formula) : List Grouped → Option Formula
  | [] => some left
  | right :: rest => do joinAll op (.join op left (← right.formula?)) rest

end

mutual

/-- The depth of the formula that a grouped form stands for, unless a group is empty. -/
def depth? : Grouped → Option Nat
  | condition _ => some 1
  | group _ [] => none
  | group _ (first :: rest) => do depthAll (← first.depth?) rest

/-- The depth after a formula of the given depth is joined with all members of a list: one level per
member. -/
def depthAll (depth : Nat) : List Grouped → Option Nat
  | [] => some depth
  | right :: rest => do depthAll (max depth (← right.depth?) + 1) rest

end

end Grouped

end Eligibility
