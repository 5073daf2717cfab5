import Eligibility.Formula.Grammar
import Eligibility.Token.Scan

/-!
# Rule text to formulas

Rule text becomes tokens and tokens become a formula; either step can refuse.

## Main definitions

* `RuleTextError` — the refusal of a text, with its wordings for a log and for an author.
* `Formula.parse` — the formula of a rule text.
-/

set_option relaxedAutoImplicit false
set_option autoImplicit false

namespace Eligibility

/-- Why a rule text is refused. -/
inductive RuleTextError where
  | lexical (e : LexicalError)
  | grammatical (e : GrammarError)
deriving DecidableEq

namespace RuleTextError

/-- The wording of the error. -/
def message : RuleTextError → String
  | lexical e => e.message
  | grammatical e => e.message

/-- What the author of a rule is told, whatever the fault. -/
def authorMessage (_ : RuleTextError) : String :=
  "Invalid rule format. Please enter a valid rule."

end RuleTextError

/-- The nesting of parentheses allowed where no limit is given. -/
def Formula.defaultNesting : Nat := 64

/-- The formula of a rule text, with parentheses nested at most `limit` deep. -/
def Formula.parse (limit : Nat) (text : String) : Except RuleTextError Formula :=
  match Token.scan text with
  | .error e => .error (.lexical e)
  | .ok tokens =>
    match Formula.ofTokens limit tokens with
    | .error e => .error (.grammatical e)
    | .ok f => .ok f

end Eligibility
