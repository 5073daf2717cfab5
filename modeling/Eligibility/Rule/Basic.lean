import Eligibility.Formula.Basic

/-!
# Rules

A rule is a formula with its text and its place in a store. Base rules are written by authors;
combined rules are made of stored rules and know which.

## Main definitions

* `RuleKind`, `Draft`, `Rule` — the two kinds, a rule without an id, and a stored rule.
* `RuleFilter` — which kinds a listing shows.
-/

set_option relaxedAutoImplicit false
set_option autoImplicit false

namespace Eligibility

/-- Where a rule comes from. -/
inductive RuleKind where
  /-- From the text of an author. -/
  | base
  /-- From other rules. -/
  | combined
deriving DecidableEq

/-- A rule that is not stored yet. -/
structure Draft where
  text : String
  formula : Formula
  kind : RuleKind
  /-- The number among the rules of its kind. -/
  number : Option Nat
  /-- The ids of the rules that it was made of, in their order. -/
  sources : List Nat
deriving DecidableEq

/-- A stored rule. -/
structure Rule extends Draft where
  id : Nat
deriving DecidableEq

/-- A rule as an author wrote it. -/
def Draft.base (text : String) (formula : Formula) (number : Nat) : Draft :=
  ⟨text, formula, .base, some number, []⟩

/-- A rule made of others. -/
def Draft.combined (text : String) (formula : Formula) (number : Option Nat)
    (sources : List Nat) : Draft :=
  ⟨text, formula, .combined, number, sources⟩

/-- Which rules a listing shows: all, or those of one kind. -/
structure RuleFilter where
  kind : Option RuleKind
deriving DecidableEq

/-- Whether the listing shows a rule. -/
def RuleFilter.shows (filter : RuleFilter) (rule : Rule) : Bool :=
  filter.kind.all fun kind => kind == rule.kind

end Eligibility
