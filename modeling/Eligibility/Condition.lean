import Eligibility.Number.Numeral

/-!
# Conditions

The smallest rule: an attribute compared with a literal, such as `age >= 30` or
`department = 'Sales'`.

## Main definitions

* `Comparator`, with its `symbol` and its meaning on numbers, `Comparator.holds`.
* `Literal` — a number or a text; `Literal.text` — its spelling in rule text.
* `Condition`, with its spelling `Condition.text`.

## Implementation notes

Equality of the types tells any two bit patterns apart. `Literal.same` and `Condition.same` compare
numbers as numbers, so that the two zeros agree and a NaN agrees with nothing.
-/

set_option relaxedAutoImplicit false
set_option autoImplicit false

namespace Eligibility

/-- How a condition compares an attribute with its literal. -/
inductive Comparator where
  | greater
  | less
  | atLeast
  | atMost
  | equal
deriving DecidableEq

namespace Comparator

/-- The spelling of a comparator in rule text. -/
def symbol : Comparator → String
  | greater => ">"
  | less => "<"
  | atLeast => ">="
  | atMost => "<="
  | equal => "="

/-- The comparators in the order of their numbers in stored data. -/
def all : List Comparator := [greater, less, atLeast, atMost, equal]

/-- The comparator with a given spelling. -/
def ofSymbol? (symbol : String) : Option Comparator :=
  all.find? (·.symbol = symbol)

/-- The symbol of a comparator is read as that comparator. -/
theorem ofSymbol?_symbol (c : Comparator) : ofSymbol? c.symbol = some c := by
  cases c <;> decide

/-- Whether two numbers stand in the relation, which is false when one is a NaN. -/
def holds : Comparator → Binary64 → Binary64 → Bool
  | greater, x, y => y.lt x
  | less, x, y => x.lt y
  | atLeast, x, y => y.le x
  | atMost, x, y => x.le y
  | equal, x, y => x.numEq y

end Comparator

/-- The right side of a condition. -/
inductive Literal where
  | number (x : Binary64)
  | text (s : String)
deriving DecidableEq

namespace Literal

/-- The spelling of a literal in rule text: a text stands between single quotes. -/
def spelling : Literal → String
  | number x => NumberStyle.plain.write x
  | text s => "'" ++ s ++ "'"

/-- Whether two literals are the same text or the same number. -/
def same : Literal → Literal → Bool
  | number x, number y => x.numEq y
  | text s, text t => s == t
  | _, _ => false

end Literal

/-- The test of one attribute against a literal. -/
structure Condition where
  /-- The attribute, as a path with dots between its segments. -/
  path : String
  comparator : Comparator
  literal : Literal
deriving DecidableEq

namespace Condition

/-- The spelling of a condition in rule text. -/
def text (c : Condition) : String :=
  c.path ++ " " ++ c.comparator.symbol ++ " " ++ c.literal.spelling

/-- Whether two conditions test the same attribute in the same way. -/
def same (c d : Condition) : Bool :=
  c.path == d.path && c.comparator == d.comparator && c.literal.same d.literal

end Condition

end Eligibility
