import Eligibility.Token.Basic

/-!
# The grammar of rule text

`AND` binds tighter than `OR`, both associate to the left, and parentheses override both:

* an expression is one or more terms with `OR` between them;
* a term is one or more factors with `AND` between them;
* a factor is a condition, or an expression in parentheses.

Tokens are read one at a time. All that the tokens read so far leave behind is, for each open
parenthesis, the operands that still wait for the right side of their connective: at most one for
`OR` and, inside it, one for `AND`.

## Main definitions

* `GrammarError` — the token at which reading fails, and why.
* `Bounds` — how deep parentheses may nest and how deep the tree may get.
* `Reading` — what the tokens read so far leave behind; `Reading.step` — the effect of one token.
* `Formula.ofTokens` — the formula of a list of tokens.

## Implementation notes

A connective joins its operands as soon as the right one is complete: for `AND` at the end of a
factor, for `OR` at the end of a term, before the next token is judged. This decides which of two
faults is reported.
-/

set_option relaxedAutoImplicit false
set_option autoImplicit false

namespace Eligibility

/-! ## Errors -/

/-- Why a list of tokens is refused. -/
inductive GrammarError.Cause where
  /-- There are no tokens. -/
  | emptyExpression
  /-- A condition or an opening parenthesis had to stand here. -/
  | expectedOperand
  /-- The parenthesis is never closed. -/
  | unmatchedOpen
  /-- The parenthesis was never opened. -/
  | unmatchedClose
  /-- The expression is complete and something follows. -/
  | trailingTokens
  /-- The parenthesis nests deeper than the limit. -/
  | nestingTooDeep (limit : Nat)
  /-- The connective makes a tree deeper than the limit. -/
  | expressionTooDeep (limit : Nat)
deriving DecidableEq

/-- The index of the token at which a list of tokens is refused. -/
structure GrammarError where
  position : Nat
  cause : GrammarError.Cause
deriving DecidableEq

namespace GrammarError

/-- The wording of a cause. -/
def Cause.message : Cause → String
  | emptyExpression => "empty expression"
  | expectedOperand => "expected a condition or '('"
  | unmatchedOpen => "'(' is never closed"
  | unmatchedClose => "')' has no matching '('"
  | trailingTokens => "unexpected token after a complete expression"
  | nestingTooDeep limit => "parentheses nested deeper than " ++ limit.repr
  | expressionTooDeep limit => "expression nests more than " ++ limit.repr ++ " operators deep"

/-- The wording of the error. -/
def message (e : GrammarError) : String :=
  "syntax error at token " ++ e.position.repr ++ ": " ++ e.cause.message

end GrammarError

/-! ## Reading -/

/-- How deep a list of tokens and its formula may go. A single condition is always within the
bounds. -/
structure Bounds where
  /-- The deepest nesting of parentheses. -/
  nesting : Nat
  /-- The most levels of the tree. -/
  depth : Nat
  depth_pos : 0 < depth

/-- A left operand and the position of the connective after it, whose right operand is not
complete. -/
structure Waiting where
  left : Formula
  position : Nat

/-- The operands that wait for one that has not begun. -/
structure Level where
  disjunction : Option Waiting
  conjunction : Option Waiting

/-- What the tokens read so far leave behind. The list holds the levels outside the open
parentheses, the innermost first, each with the position of the parenthesis after it. -/
inductive Reading where
  /-- An operand must follow. -/
  | expecting (level : Level) (outer : List (Level × Nat))
  /-- The term read so far may end here or go on. -/
  | complete (disjunction : Option Waiting) (term : Formula) (outer : List (Level × Nat))

namespace Reading

/-- Joins an operand with the one that waits for it, if there is one and the tree stays within the
bounds. -/
def join (bounds : Bounds) (op : Connective) (waiting : Option Waiting) (right : Formula) :
    Except GrammarError Formula :=
  match waiting with
  | none => .ok right
  | some ⟨left, position⟩ =>
    if (Formula.join op left right).depth ≤ bounds.depth then .ok (.join op left right)
    else .error ⟨position, .expressionTooDeep bounds.depth⟩

/-- The reading after a complete factor. -/
def factor (bounds : Bounds) (level : Level) (outer : List (Level × Nat)) (f : Formula) :
    Except GrammarError Reading :=
  (join bounds .and level.conjunction f).map (complete level.disjunction · outer)

/-- The effect of a token at a position. -/
def step (bounds : Bounds) (position : Nat) : Reading → Token → Except GrammarError Reading
  | expecting level outer, .condition c => factor bounds level outer (.condition c)
  | expecting level outer, .openParen =>
    if outer.length < bounds.nesting then
      .ok (expecting ⟨none, none⟩ ((level, position) :: outer))
    else .error ⟨position, .nestingTooDeep bounds.nesting⟩
  | expecting _ _, _ => .error ⟨position, .expectedOperand⟩
  | complete disjunction term outer, .connective .and =>
    .ok (expecting ⟨disjunction, some ⟨term, position⟩⟩ outer)
  | complete disjunction term outer, .connective .or => do
    let f ← join bounds .or disjunction term
    .ok (expecting ⟨some ⟨f, position⟩, none⟩ outer)
  | complete disjunction term outer, .closeParen => do
    let f ← join bounds .or disjunction term
    match outer with
    | [] => .error ⟨position, .unmatchedClose⟩
    | (level, _) :: outer => factor bounds level outer f
  | complete disjunction term _, _ => do
    let _ ← join bounds .or disjunction term
    .error ⟨position, .trailingTokens⟩

/-- The formula when no token follows, at the position behind the last one. -/
def finish (bounds : Bounds) (position : Nat) : Reading → Except GrammarError Formula
  | expecting _ _ => .error ⟨position, .expectedOperand⟩
  | complete disjunction term outer => do
    let f ← join bounds .or disjunction term
    match outer with
    | [] => .ok f
    | (_, opened) :: _ => .error ⟨opened, .unmatchedOpen⟩

/-- The formula that a reading and the tokens after it make, the first of them at `position`. -/
def run (bounds : Bounds) : (position : Nat) → Reading → List Token → Except GrammarError Formula
  | position, reading, [] => reading.finish bounds position
  | position, reading, t :: ts => do
    run bounds (position + 1) (← reading.step bounds position t) ts

/-- The reading before the first token. -/
def start : Reading := expecting ⟨none, none⟩ []

end Reading

/-- The bounds of rule text whose parentheses may nest at most `limit` deep. -/
def Bounds.ofNesting (limit : Nat) : Bounds := ⟨limit, Formula.maxDepth, by decide⟩

/-- The formula of a list of tokens, with parentheses nested at most `limit` deep. -/
def Formula.ofTokens (limit : Nat) (tokens : List Token) : Except GrammarError Formula :=
  if tokens.isEmpty then .error ⟨0, .emptyExpression⟩
  else Reading.start.run (.ofNesting limit) 0 tokens

end Eligibility
