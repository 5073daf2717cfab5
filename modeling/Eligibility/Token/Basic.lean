import Eligibility.Formula.Basic

/-!
# Tokens of rule text

Rule text is a list of parentheses, connectives and whole conditions.

## Main definitions

* `Token`, with its spelling `Token.text`.
* `LexicalError` — where text stops being a list of tokens, and why.
-/

set_option relaxedAutoImplicit false
set_option autoImplicit false

namespace Eligibility

/-- The smallest piece of rule text that the grammar sees. -/
inductive Token where
  | openParen
  | closeParen
  | connective (op : Connective)
  | condition (c : Condition)
deriving DecidableEq

/-- The spelling of a token. -/
def Token.text : Token → String
  | openParen => "("
  | closeParen => ")"
  | connective op => op.keyword
  | condition c => c.text

/-- Why text is not a list of tokens. -/
inductive LexicalError.Cause where
  /-- No token starts with the character. -/
  | unexpectedCharacter (c : Char)
  /-- The attribute is not followed by a comparator. -/
  | missingComparator (path : String)
  /-- The comparator after the attribute is not followed by a number or a quoted text. -/
  | missingValue (path : String)
  /-- A quoted text has no closing quote. -/
  | unterminatedText
  /-- A number runs into a word, or is too large. -/
  | invalidNumber (numeral : String)
deriving DecidableEq

/-- The place, in bytes from the start, where text stops being a list of tokens. -/
structure LexicalError where
  position : Nat
  cause : LexicalError.Cause
deriving DecidableEq

namespace LexicalError

/-- The wording of a cause. -/
def Cause.message : Cause → String
  | unexpectedCharacter c => "unexpected character '" ++ .singleton c ++ "'"
  | missingComparator path => "expected a comparator (>, <, >=, <=, =) after '" ++ path ++ "'"
  | missingValue path =>
    "expected a number or quoted string after the comparator for '" ++ path ++ "'"
  | unterminatedText => "unterminated string literal"
  | invalidNumber numeral => "invalid number '" ++ numeral ++ "'"

/-- The wording of the error. -/
def message (e : LexicalError) : String :=
  "lex error at byte " ++ e.position.repr ++ ": " ++ e.cause.message

end LexicalError

end Eligibility
