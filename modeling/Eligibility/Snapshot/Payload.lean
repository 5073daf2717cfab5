import Eligibility.Bytes.Numbers
import Eligibility.Rule.Basic
import Eligibility.Snapshot.Grouping

/-!
# The payload of a snapshot

The content of a store as bytes: the number of rules, the counters, and the rules one after the
other. Numbers are written at the shortest width, texts and lists behind their length, and choices
behind their number.

## Main definitions

* `Payload`, `Payload.Record` — the content, and a rule in it.
* `Payload.bytes` — the content as bytes; `Payload.read` — the content at the front of bytes.

## Implementation notes

A group takes at least two bytes, so a formula in `n` bytes nests fewer than `n` groups; the reader
of formulas recurses on that bound.
-/

set_option relaxedAutoImplicit false
set_option autoImplicit false

namespace Eligibility

namespace Bytes

/-! ## Texts and lists -/

/-- A text in UTF-8 behind its length. -/
def ofText (s : String) : Bytes :=
  let bytes := s.toUTF8.data.toList
  varint bytes.length ++ bytes

/-- A text behind its length, which must be valid UTF-8. -/
def readText : Reader String := fun bytes => do
  let (length, bytes) ← readVarint 8 bytes
  let (taken, bytes) ← take? length bytes
  return (← String.fromUTF8? ⟨taken.toArray⟩, bytes)

/-- The values of a list behind their number. -/
def ofList {α : Type} (write : α → Bytes) (xs : List α) : Bytes :=
  varint xs.length ++ xs.flatMap write

/-- The values of a list behind their number. -/
def readList {α : Type} (read : Reader α) : Reader (List α) := fun bytes => do
  let (count, bytes) ← readVarint 8 bytes
  many read count bytes

/-- A truth value as one byte. -/
def ofBool (b : Bool) : Bytes := [if b then 1 else 0]

/-- A truth value in one byte, which must be zero or one. -/
def readBool : Reader Bool
  | 0 :: bytes => some (false, bytes)
  | 1 :: bytes => some (true, bytes)
  | _ => none

/-- A number that may be absent, behind a byte that says whether it is there. -/
def ofOptional : Option Nat → Bytes
  | none => [0]
  | some n => 1 :: varint n

/-- A number that may be absent. -/
def readOptional : Reader (Option Nat) := fun bytes => do
  match ← readBool bytes with
  | (false, bytes) => return (none, bytes)
  | (true, bytes) =>
    let (n, bytes) ← readVarint 8 bytes
    return (some n, bytes)

/-- A choice among a list of values, by place. -/
def readChoice {α : Type} (choices : List α) : Reader α := fun bytes => do
  let (place, bytes) ← readVarint 4 bytes
  return (← choices[place]?, bytes)

end Bytes

/-! ## Formulas -/

namespace Comparator

/-- The place of a comparator among all. -/
def place (c : Comparator) : Nat := all.idxOf c

end Comparator

namespace Literal

/-- A literal as bytes: a number by its bits, a text by its characters. -/
def bytes : Literal → Bytes
  | number x => 0 :: Bytes.littleEndian 8 x.toBits
  | text s => 1 :: Bytes.ofText s

/-- The literal at the front of bytes. -/
def read : Bytes.Reader Literal := fun bytes => do
  match ← Bytes.readVarint 4 bytes with
  | (0, bytes) =>
    let (bits, bytes) ← Bytes.readLittleEndian 8 bytes
    return (number (.ofBits bits), bytes)
  | (1, bytes) =>
    let (s, bytes) ← Bytes.readText bytes
    return (text s, bytes)
  | _ => none

end Literal

namespace Condition

/-- A condition as bytes. -/
def bytes (c : Condition) : Bytes :=
  Bytes.ofText c.path ++ Bytes.varint c.comparator.place ++ c.literal.bytes

/-- The condition at the front of bytes. -/
def read : Bytes.Reader Condition := fun bytes => do
  let (path, bytes) ← Bytes.readText bytes
  let (comparator, bytes) ← Bytes.readChoice Comparator.all bytes
  let (literal, bytes) ← Literal.read bytes
  return (⟨path, comparator, literal⟩, bytes)

end Condition

namespace Grouped

/-- The number of a group's connective. -/
def groupPlace : Connective → Nat
  | .and => 1
  | .or => 2

mutual

/-- A grouped formula as bytes. -/
def bytes : Grouped → Bytes
  | condition c => 0 :: c.bytes
  | group op members =>
    Bytes.varint (groupPlace op) ++ Bytes.varint members.length ++ allBytes members

/-- The members of a group as bytes. -/
def allBytes : List Grouped → Bytes
  | [] => []
  | g :: gs => g.bytes ++ allBytes gs

end

/-- The grouped formula at the front of bytes, with fewer than `bound` groups in one another. -/
def readWithin : (bound : Nat) → Bytes.Reader Grouped
  | 0, _ => none
  | bound + 1, bytes => do
    let members (op : Connective) (bytes : Bytes) : Option (Grouped × Bytes) := do
      let (gs, bytes) ← Bytes.readList (readWithin bound) bytes
      return (group op gs, bytes)
    match ← Bytes.readVarint 4 bytes with
    | (0, bytes) =>
      let (c, bytes) ← Condition.read bytes
      return (condition c, bytes)
    | (1, bytes) => members .and bytes
    | (2, bytes) => members .or bytes
    | _ => none

/-- The grouped formula at the front of bytes. -/
def read : Bytes.Reader Grouped := fun bytes => readWithin bytes.length bytes

end Grouped

/-! ## Rules and counters -/

/-- A rule in a payload. -/
structure Payload.Record where
  id : Nat
  text : String
  kind : RuleKind
  number : Option Nat
  sources : List Nat
  formula : Grouped

/-- The content of a store. -/
structure Payload where
  ruleCount : Nat
  lastId : Nat
  lastBase : Nat
  lastCombined : Nat
  records : List Payload.Record

namespace Payload

/-- A rule as bytes. -/
def Record.bytes (r : Record) : Bytes :=
  Bytes.varint r.id ++ Bytes.ofText r.text ++ Bytes.ofBool (r.kind == .combined) ++
    Bytes.ofOptional r.number ++ Bytes.ofList Bytes.varint r.sources ++ r.formula.bytes

/-- The rule at the front of bytes. -/
def Record.read : Bytes.Reader Record := fun bytes => do
  let (id, bytes) ← Bytes.readVarint 8 bytes
  let (text, bytes) ← Bytes.readText bytes
  let (combined, bytes) ← Bytes.readBool bytes
  let (number, bytes) ← Bytes.readOptional bytes
  let (sources, bytes) ← Bytes.readList (Bytes.readVarint 8) bytes
  let (formula, bytes) ← Grouped.read bytes
  return (⟨id, text, if combined then .combined else .base, number, sources, formula⟩, bytes)

/-- The content of a store as bytes. -/
def bytes (p : Payload) : Bytes :=
  Bytes.varint p.ruleCount ++ Bytes.varint p.lastId ++ Bytes.varint p.lastBase ++
    Bytes.varint p.lastCombined ++ Bytes.ofList Record.bytes p.records

/-- The content at the front of bytes. -/
def read : Bytes.Reader Payload := fun bytes => do
  let (ruleCount, bytes) ← Bytes.readVarint 8 bytes
  let (lastId, bytes) ← Bytes.readVarint 8 bytes
  let (lastBase, bytes) ← Bytes.readVarint 8 bytes
  let (lastCombined, bytes) ← Bytes.readVarint 8 bytes
  let (records, bytes) ← Bytes.readList Record.read bytes
  return (⟨ruleCount, lastId, lastBase, lastCombined, records⟩, bytes)

end Payload

end Eligibility
