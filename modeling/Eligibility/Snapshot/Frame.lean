import Eligibility.Hash.Blake3
import Eligibility.Snapshot.Content

/-!
# Snapshots

A snapshot is a header of 32 bytes and a payload. The header holds, at the given offsets,

* 0: four magic bytes;
* 4: the version of the format, in two bytes, which must be the one known here;
* 6: the version of the engine, in two bytes, and 8: four bytes of flags, all of which a reader
  passes over;
* 12: the length of the payload, in four bytes;
* 16: the first 16 bytes of the hash of the payload.

## Main definitions

* `SnapshotError` — why bytes are no snapshot.
* `Store.snapshot` — the snapshot of a store.
* `Store.ofSnapshot` — the store of a snapshot; `Store.ofSnapshotFile` — of a file that may be
  missing.

## Implementation notes

Bytes after the payload are passed over, and so are bytes of the payload after its content.
-/

set_option relaxedAutoImplicit false
set_option autoImplicit false

namespace Eligibility

/-- Why bytes are no snapshot. -/
inductive SnapshotError where
  /-- The magic bytes are others. -/
  | badMagic
  /-- The format has another version. -/
  | incompatibleVersion (found supported : Nat)
  /-- The hash of the payload is another. -/
  | checksumMismatch
  /-- There are fewer bytes than needed. -/
  | lengthMismatch (expected actual : Nat)
  /-- The payload is not content. -/
  | undecodable
  /-- The parts of the content do not agree. -/
  | invalid (fault : Payload.Fault)
  /-- The file cannot be read. -/
  | unreadable
deriving DecidableEq

/-- The wording of the error, where it has one of its own. -/
def SnapshotError.message? : SnapshotError → Option String
  | badMagic => some "not a rule store snapshot: invalid magic bytes"
  | incompatibleVersion found supported =>
    some ("incompatible format version: snapshot is v" ++ found.repr ++ ", engine supports v" ++
      supported.repr)
  | checksumMismatch => some "integrity check failed: BLAKE3 checksum mismatch"
  | lengthMismatch expected actual =>
    some ("payload length mismatch: expected " ++ expected.repr ++ " bytes, got " ++ actual.repr)
  | undecodable => none
  | invalid fault => some ("validation failed: " ++ fault.message)
  | unreadable => none

namespace Snapshot

/-- The first bytes of every snapshot. -/
def magic : Bytes := [0x52, 0x4b, 0x49, 0x54]

/-- The version of the format. -/
def formatVersion : Nat := 1

/-- The version of the engine that is written. -/
def engineVersion : Nat := 1

/-- The length of the header. -/
def headerLength : Nat := 32

/-- The checksum of a payload. -/
def checksum (payload : Bytes) : Bytes := (Blake3.hash payload).take 16

/-- The header of a payload. -/
def header (payload : Bytes) : Bytes :=
  magic ++ Bytes.littleEndian 2 formatVersion ++ Bytes.littleEndian 2 engineVersion ++
    Bytes.littleEndian 4 0 ++ Bytes.littleEndian 4 payload.length ++ checksum payload

/-- The number in `count` bytes from an offset on. -/
def numberAt (bytes : Bytes) (offset count : Nat) : Nat :=
  Bytes.ofLittleEndian ((bytes.drop offset).take count)

/-- The payload behind a header that fits it. -/
def payloadOf (bytes : Bytes) : Except SnapshotError Bytes :=
  let rest := bytes.drop headerLength
  let length := numberAt bytes 12 4
  if bytes.length < headerLength then .error (.lengthMismatch headerLength bytes.length)
  else if bytes.take 4 ≠ magic then .error .badMagic
  else if numberAt bytes 4 2 ≠ formatVersion then
    .error (.incompatibleVersion (numberAt bytes 4 2) formatVersion)
  else if rest.length < length then .error (.lengthMismatch length rest.length)
  else if checksum (rest.take length) ≠ (bytes.drop 16).take 16 then .error .checksumMismatch
  else .ok (rest.take length)

end Snapshot

namespace Store

/-- The snapshot of a store. -/
def snapshot (s : Store) : Bytes :=
  let payload := s.payload.bytes
  Snapshot.header payload ++ payload

/-- The store of a snapshot. -/
def ofSnapshot (bytes : Bytes) : Except SnapshotError Store := do
  match Payload.read (← Snapshot.payloadOf bytes) with
  | none => .error .undecodable
  | some (payload, _) => payload.store.mapError .invalid

/-- The store of a snapshot in a file, if there is one. -/
def ofSnapshotFile (file : Option Bytes) : Except SnapshotError Store :=
  match file with
  | none => .error .unreadable
  | some bytes => ofSnapshot bytes

end Store

end Eligibility
