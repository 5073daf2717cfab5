import Eligibility.Formula.Basic

/-!
# Combination

Several rules become one that holds when all of them hold.

## Main definitions

* `CombineError` — why formulas are not combined.
* `Formula.combine` — the conjunction of a list of formulas.

## Implementation notes

The conjunction associates to the left, so the same list always gives the same tree. Its depth is
known before it is built.
-/

set_option relaxedAutoImplicit false
set_option autoImplicit false

namespace Eligibility

/-- Why formulas are not combined. -/
inductive CombineError where
  /-- There are fewer formulas than required. -/
  | tooFew (required supplied : Nat)
  /-- The conjunction would have more levels than a formula may have. -/
  | tooDeep (depth limit : Nat)
deriving DecidableEq

/-- The wording of the error. -/
def CombineError.message : CombineError → String
  | tooFew required supplied =>
    "at least " ++ required.repr ++ " rules are required to combine, got " ++ supplied.repr
  | tooDeep depth limit =>
    "combined rule would be " ++ depth.repr ++ " levels deep, the limit is " ++ limit.repr

namespace Formula

/-- The fewest formulas that can be combined. -/
def minCombined : Nat := 2

/-- The conjunction of a formula and the ones after it, associated to the left. -/
def conjunction (first : Formula) (rest : List Formula) : Formula :=
  rest.foldl Formula.and first

/-- The depth of the conjunction. -/
def conjunctionDepth (first : Formula) (rest : List Formula) : Nat :=
  rest.foldl (fun depth f => max depth f.depth + 1) first.depth

/-- The conjunction of at least `minimum` formulas, and of two at least. -/
def combine (minimum : Nat) (formulas : List Formula) : Except CombineError Formula :=
  let required := max minimum minCombined
  if formulas.length < required then .error (.tooFew required formulas.length)
  else match formulas with
    | [] => .error (.tooFew required 0)
    | first :: rest =>
      let depth := conjunctionDepth first rest
      if maxDepth < depth then .error (.tooDeep depth maxDepth)
      else .ok (conjunction first rest)

end Formula

end Eligibility
