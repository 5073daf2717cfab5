import Eligibility.Store.Basic

/-!
# Access to a store that can fail

A host reaches its store through calls, any of which can fail. A call that fails does so at its
start and changes nothing.

## Main definitions

* `StoreCall` — the calls; `Host` — a store with the calls that fail.
* `Access` — a computation that makes calls and can end in an error; what its calls have changed
  stays changed when it does.
* `Access.create`, `Access.findAll`, `Access.findByIds`, `Access.takeNumber` — the calls.
-/

set_option relaxedAutoImplicit false
set_option autoImplicit false

namespace Eligibility

/-- The calls that a store answers. -/
inductive StoreCall where
  | create
  | findAll
  | findByIds
  | takeNumber (kind : RuleKind)
deriving DecidableEq

/-- A store and the failure of each call, if it fails. -/
structure Host where
  store : Store
  failure : StoreCall → Option StoreError

namespace Host

/-- A store that never fails. -/
def ofStore (store : Store) : Host := ⟨store, fun _ => none⟩

/-- The host when a call has begun to fail. -/
def failing (host : Host) (call : StoreCall) (e : StoreError) : Host :=
  { host with failure := fun c => if c = call then some e else host.failure c }

/-- The host when no call fails any more. -/
def healed (host : Host) : Host := ofStore host.store

end Host

/-- A computation on a host that can end in an error. -/
abbrev Access (ε α : Type) := ExceptT ε (StateM Host) α

namespace Access

/-- Makes a call with the given effect on the store, unless the call fails. -/
def call {α : Type} (c : StoreCall) (effect : Store → Except StoreError (α × Store)) :
    Access StoreError α := do
  let host ← get
  match host.failure c with
  | some e => throw e
  | none =>
    match effect host.store with
    | .error e => throw e
    | .ok (answer, store) =>
      set { host with store := store }
      return answer

/-- Stores a rule. -/
def create (d : Draft) : Access StoreError Rule :=
  call .create fun s => s.create d

/-- Lists rules. -/
def findAll (filter : RuleFilter) : Access StoreError (List Rule) :=
  call .findAll fun s => .ok (s.findAll filter, s)

/-- Finds rules by their ids. -/
def findByIds (ids : List Nat) : Access StoreError (List Rule) :=
  call .findByIds fun s => .ok (s.findByIds ids, s)

/-- Takes the next number for a kind of rule. -/
def takeNumber (kind : RuleKind) : Access StoreError Nat :=
  call (.takeNumber kind) fun s => .ok (s.takeNumber kind)

end Access

end Eligibility
