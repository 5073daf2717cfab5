import Eligibility.Condition.Json
import Eligibility.Token.Basic

/-!
# Tokens in JSON

Parentheses and connectives are names, and a condition is an object from the name `Condition` to its
record.

## Main definitions

* `Token.toJson`, `Token.ofJson?` — tokens as documents.
* `Token.listToJson`, `Token.listOfJson?` — lists of them.
-/

set_option relaxedAutoImplicit false
set_option autoImplicit false

namespace Eligibility

namespace Token

/-- A token as a document. -/
def toJson : Token → Json
  | openParen => .string "LParen"
  | closeParen => .string "RParen"
  | connective .and => .string "And"
  | connective .or => .string "Or"
  | condition c => .object [("Condition", .object c.members)]

/-- The token with a given name, but for conditions. -/
def ofName? : String → Option Token
  | "LParen" => some openParen
  | "RParen" => some closeParen
  | "And" => some (connective .and)
  | "Or" => some (connective .or)
  | _ => none

/-- The token that a document stands for. -/
def ofJson? : Json → Option Token
  | .object [("Condition", v)] => do return condition (← Condition.ofRecord? (← v.record?))
  | v => do ofName? (← v.name? false)

/-- A list of tokens as a document. -/
def listToJson (tokens : List Token) : Json := .array (tokens.map toJson)

/-- The list of tokens that a document stands for. -/
def listOfJson? : Json → Option (List Token)
  | .array items => items.mapM ofJson?
  | _ => none

end Token

end Eligibility
