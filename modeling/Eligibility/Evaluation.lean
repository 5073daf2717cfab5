import Eligibility.Attribute.Context
import Eligibility.Formula.Basic

/-!
# Evaluation

Whether attribute data satisfies a rule.

## Main definitions

* `Condition.eval`, `Formula.eval` — the truth of a condition and of a formula in a context.
-/

set_option relaxedAutoImplicit false
set_option autoImplicit false

namespace Eligibility

/-- Whether a condition holds: its attribute is there and passes the test. -/
def Condition.eval (c : Condition) (ctx : Context) : Bool :=
  (ctx.get? c.path).any fun v => v.satisfies c.comparator c.literal

namespace Formula

/-- Whether a formula holds. -/
def eval (ctx : Context) : Formula → Bool
  | condition c => c.eval ctx
  | join .and left right => left.eval ctx && right.eval ctx
  | join .or left right => left.eval ctx || right.eval ctx

end Formula

end Eligibility
