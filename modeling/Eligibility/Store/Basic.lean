import Eligibility.Rule.Basic

/-!
# The rule store

A store holds rules by increasing id and remembers the last id and, for each kind of rule, the last
number that it gave out. Taking a number and storing a rule are separate acts, and a number that was
taken is gone, whether or not a rule follows. The counters have 64 bits: the one after the last is
zero, and a rule that is stored under an id which is in use takes the place of the rule that has it.

## Main definitions

* `Store` — the rules and counters; `Store.empty`.
* `Store.next` — what follows on a counter.
* `Store.takeNumber`, `Store.create` — the two acts that change a store.
* `Store.findAll`, `Store.findByIds` — the two ways to read it.
* `StoreError` — why a store refuses.
-/

set_option relaxedAutoImplicit false
set_option autoImplicit false

namespace Eligibility

/-- Why a store refuses. -/
inductive StoreError where
  | unavailable (reason : String)
  | conflict (reason : String)
  | corrupt (reason : String)
deriving DecidableEq

/-- The wording of the error. -/
def StoreError.message : StoreError → String
  | unavailable reason => "rule store unavailable: " ++ reason
  | conflict reason => "rule store conflict: " ++ reason
  | corrupt reason => "rule store data is corrupt: " ++ reason

/-- Rules by increasing id, and the counters. -/
structure Store where
  rules : List Rule
  /-- The last id given to a rule. -/
  lastId : Nat
  /-- The last number given out for base rules. -/
  lastBase : Nat
  /-- The last number given out for combined rules. -/
  lastCombined : Nat
deriving DecidableEq

namespace Store

/-- A store without rules, all counters at zero. -/
def empty : Store := ⟨[], 0, 0, 0⟩

/-- The number of rules. -/
def size (s : Store) : Nat := s.rules.length

/-- The last number given out for a kind of rule. -/
def lastNumber (s : Store) : RuleKind → Nat
  | .base => s.lastBase
  | .combined => s.lastCombined

/-- What follows on a counter of 64 bits. -/
def next (n : Nat) : Nat := (n + 1) % 2 ^ 64

/-- The next number for a kind of rule, and the store in which it is taken. -/
def takeNumber (s : Store) : RuleKind → Nat × Store
  | .base => (next s.lastBase, { s with lastBase := next s.lastBase })
  | .combined => (next s.lastCombined, { s with lastCombined := next s.lastCombined })

/-- Puts a rule among rules by increasing id, in place of the one with the same id. -/
def insertById (r : Rule) : List Rule → List Rule
  | [] => [r]
  | r' :: rs =>
    if r.id < r'.id then r :: r' :: rs
    else if r.id = r'.id then r :: rs
    else r' :: insertById r rs

/-- Whether a rule of the kind carries the number. -/
def hasNumber (s : Store) (kind : RuleKind) (number : Nat) : Bool :=
  s.rules.any fun r => r.kind == kind && r.number == some number

/-- Stores a rule under the next id, unless a rule of its kind carries its number. -/
def create (s : Store) (d : Draft) : Except StoreError (Rule × Store) :=
  let rule : Rule := ⟨d, next s.lastId⟩
  let stored := { s with rules := insertById rule s.rules, lastId := next s.lastId }
  match d.number with
  | none => .ok (rule, stored)
  | some number =>
    if s.hasNumber d.kind number then
      .error (.conflict ("sequence number " ++ number.repr ++ " is already assigned"))
    else .ok (rule, stored)

/-- The rules that a listing shows, by increasing id. -/
def findAll (s : Store) (filter : RuleFilter) : List Rule := s.rules.filter filter.shows

/-- The rule with an id. -/
def find? (s : Store) (id : Nat) : Option Rule := s.rules.find? (·.id = id)

/-- The rules with the given ids, in the order of the ids, passing over ids that no rule has. -/
def findByIds (s : Store) (ids : List Nat) : List Rule := ids.filterMap s.find?

end Store

end Eligibility
