import Eligibility.Snapshot.Payload
import Eligibility.Store.Basic

/-!
# Stores and payloads

A payload is the content of a store only if its parts agree: the count with the rules, the ids and
numbers with the counters, the sources with the ids, and the formulas with the deepest that a rule
may have.

## Main definitions

* `Store.payload` — the content of a store.
* `Payload.Fault`, `Payload.check` — what is wrong with a payload, the first fault that a walk
  finds.
* `Payload.store` — the store that a payload describes.
-/

set_option relaxedAutoImplicit false
set_option autoImplicit false

namespace Eligibility

/-- The record of a stored rule. -/
def Rule.record (r : Rule) : Payload.Record :=
  ⟨r.id, r.text, r.kind, r.number, r.sources, r.formula.group⟩

/-- The content of a store. -/
def Store.payload (s : Store) : Payload :=
  ⟨s.size, s.lastId, s.lastBase, s.lastCombined, s.rules.map Rule.record⟩

namespace Payload

/-- What is wrong with a payload. -/
inductive Fault where
  /-- It says how many rules it holds, and holds another number. -/
  | ruleCount (stated found : Nat)
  /-- Two rules have the same id. -/
  | repeatedId (id : Nat)
  /-- A rule has an id that was not given out yet. -/
  | idBeyondCounter (id lastId : Nat)
  /-- A rule has a number that was not given out yet. -/
  | numberBeyondCounter (id number counter : Nat)
  /-- A group has no members. -/
  | emptyGroup
  /-- A formula has too many levels. -/
  | tooDeep (id depth : Nat)
  /-- A rule was made of one that is not there. -/
  | unknownSource (id source : Nat)
deriving DecidableEq

/-- The wording of a fault. -/
def Fault.message : Fault → String
  | ruleCount stated found =>
    "metadata says " ++ stated.repr ++ " rules but payload has " ++ found.repr
  | repeatedId id => "rule id " ++ id.repr ++ " appears more than once"
  | idBeyondCounter id lastId =>
    "rule id " ++ id.repr ++ " is beyond the id counter " ++ lastId.repr
  | numberBeyondCounter id number counter =>
    "rule " ++ id.repr ++ " has sequence number " ++ number.repr ++ " beyond its counter " ++
      counter.repr
  | emptyGroup => "empty And/Or group"
  | tooDeep id depth =>
    "rule " ++ id.repr ++ " is " ++ depth.repr ++ " levels deep, the limit is " ++
      Formula.maxDepth.repr
  | unknownSource id source =>
    "rule " ++ id.repr ++ " was combined from unknown rule " ++ source.repr

/-- The last number given out for a kind of rule. -/
def lastNumber (p : Payload) : RuleKind → Nat
  | .base => p.lastBase
  | .combined => p.lastCombined

/-- Whether a number was given out for a kind of rule. -/
def checkNumber (p : Payload) (r : Record) : Except Fault Unit :=
  match r.number with
  | none => .ok ()
  | some number =>
    if p.lastNumber r.kind < number then
      .error (.numberBeyondCounter r.id number (p.lastNumber r.kind))
    else .ok ()

/-- Whether a formula is there and not too deep. -/
def checkFormula (r : Record) : Except Fault Unit :=
  match r.formula.depth? with
  | none => .error .emptyGroup
  | some depth =>
    if Formula.maxDepth < depth then .error (.tooDeep r.id depth) else .ok ()

/-- Whether a rule agrees with the counters and has none of the given ids. -/
def checkRecord (p : Payload) (ids : List Nat) (r : Record) : Except Fault Unit := do
  if ids.contains r.id then .error (.repeatedId r.id)
  else if p.lastId < r.id then .error (.idBeyondCounter r.id p.lastId)
  else
    p.checkNumber r
    checkFormula r

/-- Whether all rules agree with the counters and have ids of their own, none of them among the
given. -/
def checkRecords (p : Payload) : (ids : List Nat) → List Record → Except Fault Unit
  | _, [] => .ok ()
  | ids, r :: rs => do
    p.checkRecord ids r
    p.checkRecords (r.id :: ids) rs

/-- Whether the sources of a rule have one of the given ids each. -/
def checkSources (ids : List Nat) (r : Record) : Except Fault Unit :=
  match r.sources.find? fun id => !ids.contains id with
  | none => .ok ()
  | some source => .error (.unknownSource r.id source)

/-- Whether the parts of a payload agree. -/
def check (p : Payload) : Except Fault Unit := do
  if p.ruleCount ≠ p.records.length then
    .error (.ruleCount p.ruleCount p.records.length)
  else
    p.checkRecords [] p.records
    p.records.forM (checkSources (p.records.map (·.id)))

/-- The rule of a record. -/
def Record.rule (r : Record) : Except Fault Rule :=
  match r.formula.formula? with
  | none => .error .emptyGroup
  | some formula => .ok ⟨⟨r.text, formula, r.kind, r.number, r.sources⟩, r.id⟩

/-- The store that a payload describes. -/
def store (p : Payload) : Except Fault Store := do
  p.check
  let rules ← p.records.mapM Record.rule
  return ⟨rules.foldl (fun rs r => Store.insertById r rs) [], p.lastId, p.lastBase, p.lastCombined⟩

end Payload

end Eligibility
