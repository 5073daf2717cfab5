import Eligibility.Combination
import Eligibility.Formula.Parse
import Eligibility.Rule.Json

/-!
# Limits

What an engine accepts: how many rules a combination needs, how deep parentheses nest and how long a
rule text is.

## Main definitions

* `Limits`, with defaults; `Limits.validate` — whether the limits can be used.
* `Limits.toJson`, `Limits.ofJson?` — limits as documents.
-/

set_option relaxedAutoImplicit false
set_option autoImplicit false

namespace Eligibility

/-- The limits of an engine. -/
structure Limits where
  /-- The fewest rules that a combination accepts. -/
  minCombined : Nat
  /-- The deepest nesting of parentheses in rule text. -/
  maxNesting : Nat
  /-- The longest rule text, in bytes. -/
  maxLength : Nat
deriving DecidableEq

/-- Why limits cannot be used. -/
inductive LimitsError where
  | minCombinedTooSmall (minCombined : Nat)
  | zeroNesting
  | zeroLength
deriving DecidableEq

/-- The wording of the error. -/
def LimitsError.message (e : LimitsError) : String :=
  "invalid configuration: " ++ match e with
  | minCombinedTooSmall n =>
    "min_combine_rules must be at least " ++ Formula.minCombined.repr ++ ", got " ++ n.repr
  | zeroNesting => "max_nesting_depth must be positive"
  | zeroLength => "max_rule_length must be positive"

namespace Limits

/-- The limits where nothing else is said. -/
def standard : Limits := ⟨Formula.minCombined, Formula.defaultNesting, 4096⟩

/-- The first reason why the limits cannot be used, if there is one. -/
def validate (l : Limits) : Except LimitsError Unit :=
  if l.minCombined < Formula.minCombined then .error (.minCombinedTooSmall l.minCombined)
  else if l.maxNesting = 0 then .error .zeroNesting
  else if l.maxLength = 0 then .error .zeroLength
  else .ok ()

/-- The names of the limits in documents and settings. -/
def names : List String := ["min_combine_rules", "max_nesting_depth", "max_rule_length"]

/-- The limits with the given values, the standard ones where none is given. -/
def ofFields? : List (Option Nat) → Option Limits
  | [minCombined, maxNesting, maxLength] =>
    some ⟨minCombined.getD standard.minCombined, maxNesting.getD standard.maxNesting,
      maxLength.getD standard.maxLength⟩
  | _ => none

/-- Limits as a document. -/
def toJson (l : Limits) : Json :=
  .object (names.zip ([l.minCombined, l.maxNesting, l.maxLength].map .ofNat))

/-- The limits that a document stands for. -/
def ofJson? (v : Json) : Option Limits := do
  let fields ← (← v.record?).fields? names 0
  ofFields? (← fields.mapM (·.mapM Json.natural?))

end Limits

end Eligibility
