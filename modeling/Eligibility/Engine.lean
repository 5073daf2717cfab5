import Eligibility.Attribute.Json
import Eligibility.Combination
import Eligibility.Evaluation
import Eligibility.Limits.Basic
import Eligibility.Store.Access

/-!
# The rule engine

What a host asks of its rules: to author one, to combine some, to list them, and to evaluate
attribute data. The engine refuses what its limits forbid and passes on what the store refuses.

## Main definitions

* `EngineError` — why a request fails; `EngineError.isUserError` — whose fault it is.
* `Engine.createRule`, `Engine.combineRules` — new rules.
* `Engine.rules`, `Engine.evaluate`, `Engine.evaluateJson`, `Engine.evaluateRule` — questions.

## Implementation notes

A request is judged as far as possible before it takes a number, so that a request that is refused
takes none. The text of a combined rule is the canonical text of its formula, which nests deeper
than the texts of its sources where a disjunction is joined to others.
-/

set_option relaxedAutoImplicit false
set_option autoImplicit false

namespace Eligibility

/-- Why a request to the engine fails. -/
inductive EngineError where
  /-- The text is not a rule. -/
  | rule (e : RuleTextError)
  /-- The rules cannot be combined. -/
  | combine (e : CombineError)
  /-- The store failed. -/
  | store (e : StoreError)
  /-- The text is no attribute data. -/
  | context (e : ContextError)
  /-- No rule has the id. -/
  | unknownRule (id : Nat)
  /-- The rule text has more bytes than allowed. -/
  | ruleTooLong (length limit : Nat)
  /-- The text of the combination nests parentheses deeper than allowed. -/
  | combinedNestingTooDeep (depth limit : Nat)
deriving DecidableEq

namespace EngineError

/-- The wording of the error; for data that is not JSON there is none. -/
def message? : EngineError → Option String
  | rule e => some e.message
  | combine e => some e.message
  | store e => some e.message
  | context e => e.message?
  | unknownRule id => some ("unknown rule id " ++ id.repr)
  | ruleTooLong length limit =>
    some ("rule text is " ++ length.repr ++ " bytes, the limit is " ++ limit.repr)
  | combinedNestingTooDeep depth limit =>
    some ("combined rule text nests parentheses " ++ depth.repr ++ " deep, the limit is " ++
      limit.repr)

/-- Whether the request was at fault, and not the store. -/
def isUserError : EngineError → Bool
  | store _ => false
  | _ => true

end EngineError

namespace Engine

/-- A call to the store on behalf of a request. -/
def onStore {α : Type} (access : Access StoreError α) : Access EngineError α :=
  access.adapt .store

/-- Parses a text and stores it as a new base rule. -/
def createRule (limits : Limits) (text : String) : Access EngineError Rule :=
  if limits.maxLength < text.utf8ByteSize then
    throw (.ruleTooLong text.utf8ByteSize limits.maxLength)
  else
    match Formula.parse limits.maxNesting text with
    | .error e => throw (.rule e)
    | .ok formula => onStore do
      let number ← Access.takeNumber .base
      Access.create (.base text formula number)

/-- The stored rules of a kind. -/
def rules (kind : RuleKind) : Access EngineError (List Rule) :=
  onStore (Access.findAll ⟨some kind⟩)

/-- The conjunction of rules that were asked for by distinct ids, or why there is none. -/
def conjunctionOf (limits : Limits) (ids : List Nat) (found : List Rule) :
    Except EngineError Formula :=
  match ids.find? fun id => !found.any (·.id = id) with
  | some missing => .error (.unknownRule missing)
  | none =>
    match Formula.combine limits.minCombined (found.map (·.formula)) with
    | .error e => .error (.combine e)
    | .ok formula =>
      if limits.maxNesting < formula.nesting then
        .error (.combinedNestingTooDeep formula.nesting limits.maxNesting)
      else .ok formula

/-- Combines stored rules, in the order of the ids, into a new rule. A repeated id counts once. -/
def combineRules (limits : Limits) (ids : List Nat) : Access EngineError Rule := do
  let found ← onStore (Access.findByIds ids.eraseDups)
  match conjunctionOf limits ids.eraseDups found with
  | .error e => throw e
  | .ok formula => onStore do
    let number ← Access.takeNumber .combined
    Access.create (.combined formula.text formula (some number) (found.map (·.id)))

/-- Whether attribute data satisfies some combined rule. -/
def evaluate (ctx : Context) : Access EngineError Bool := do
  return (← rules .combined).any (·.formula.eval ctx)

/-- Whether the attribute data in a JSON text satisfies some combined rule. -/
def evaluateJson (text : String) : Access EngineError Bool :=
  match Context.ofJsonText text with
  | .error e => throw (.context e)
  | .ok ctx => evaluate ctx

/-- Whether attribute data satisfies the rule with an id. -/
def evaluateRule (id : Nat) (ctx : Context) : Access EngineError Bool := do
  match ← onStore (Access.findByIds [id]) with
  | [] => throw (.unknownRule id)
  | r :: _ => return r.formula.eval ctx

end Engine

end Eligibility
