import Eligibility.Proofs.PayloadBytes
import Eligibility.Proofs.PayloadContent
import Eligibility.Snapshot.Frame
import Mathlib.Data.List.Induction
import Mathlib.Data.List.Infix

/-!
# Restoring a store from its snapshot

The header of a snapshot says where its payload ends and what its hash is, so the payload is found
whatever follows it. A store in order that is coherent and whose numbers have 64 bits comes back
from its snapshot as it was. Storing does not look at the number and the sources of a draft, so a
store can hold rules that its counters do not cover: it is written like any other and refused when
it is read. Whatever is done to a store its rules stand by id; they stand in order as long as the
counter of ids does not wrap.

## Main definitions

* `Store.CountersFit`, `Store.Writable` — counters of 64 bits; a store that a snapshot has room for.
* `Store.Operation`, `Store.after` — what can be done to a store, with any drafts at all.

## Main results

* `Snapshot.payloadOf_fields` — what follows a header is judged by the length and checksum in it.
* `Snapshot.payloadOf_append` — the payload behind its header is found.
* `Store.Ordered.ofSnapshot_snapshot` — the snapshot of a store gives the store, or finds its fault.
* `Store.ofSnapshot_ok` — every store that is read, from whatever bytes, is in order and coherent.
* `Store.sorted_after`, `Store.sound_after` — the rules of every store that can be made stand by id,
  and in order where no id was given out after the last one.
* `Store.ofSnapshot_snapshot_after` — the stores that come back, among all that can be made.
-/

set_option relaxedAutoImplicit false
set_option autoImplicit false

namespace Eligibility

/-! ## The frame -/

/-- A hash has 32 bytes. -/
theorem Blake3.length_hash (bytes : Bytes) : (hash bytes).length = 32 := by
  have hwords (r : Row) :
      (r.toList.flatMap fun word => Bytes.littleEndian 4 word.toNat).length = 16 := by
    simp only [Row.toList, List.flatMap_cons, List.flatMap_nil, List.length_append,
      Bytes.length_littleEndian, List.length_nil]
  rw [hash]
  split
  rw [List.flatMap_append, List.length_append, hwords, hwords]

namespace Snapshot

/-- A checksum has 16 bytes. -/
theorem length_checksum (payload : Bytes) : (checksum payload).length = 16 := by
  rw [checksum, List.length_take, Blake3.length_hash]
  rfl

/-- A part of a byte string stands where the part before it ends. -/
theorem take_drop_append {front part : Bytes} {offset count : Nat} (hfront : front.length = offset)
    (hpart : part.length = count) (rest : Bytes) :
    ((front ++ (part ++ rest)).drop offset).take count = part := by
  rw [← hfront, ← hpart, List.drop_left, List.take_left]

/-- A number stands where the part before it ends. -/
theorem numberAt_append {front : Bytes} {offset count n : Nat} (hfront : front.length = offset)
    (hn : n < 256 ^ count) (rest : Bytes) :
    numberAt (front ++ (Bytes.littleEndian count n ++ rest)) offset count = n := by
  rw [numberAt, take_drop_append hfront (Bytes.length_littleEndian count n),
    Bytes.ofLittleEndian_littleEndian hn]

/-- **What follows a header is judged by the length and the checksum in it**, whatever the six bytes
hold that are passed over.

**Proof sketch.** Every field lies behind those before it, whose lengths are known, so that the
slice of the bytes that is looked at is the field. -/
theorem payloadOf_fields {middle sum : Bytes} {length : Nat} (hmiddle : middle.length = 6)
    (hlength : length < 2 ^ 32) (hsum : sum.length = 16) (rest : Bytes) :
    payloadOf (magic ++ (Bytes.littleEndian 2 formatVersion ++ (middle ++
      (Bytes.littleEndian 4 length ++ (sum ++ rest))))) =
      if rest.length < length then .error (.lengthMismatch length rest.length)
      else if checksum (rest.take length) ≠ sum then .error .checksumMismatch
      else .ok (rest.take length) := by
  set lengthBytes := Bytes.littleEndian 4 length with hlengthBytes
  set version := Bytes.littleEndian 2 formatVersion with hversion
  set bytes := magic ++ (version ++ (middle ++ (lengthBytes ++ (sum ++ rest)))) with hbytes
  have hlengths : magic.length = 4 ∧ version.length = 2 ∧ lengthBytes.length = 4 :=
    ⟨rfl, rfl, Bytes.length_littleEndian _ _⟩
  -- Every field is found by regrouping the parts into those before it, itself and those behind it.
  have hlong : ¬ bytes.length < headerLength := by
    simp only [hbytes, List.length_append, hlengths, hmiddle, hsum, headerLength]
    omega
  have hmagic : bytes.take 4 = magic := rfl
  have hformat : numberAt bytes 4 2 = formatVersion :=
    numberAt_append rfl (by decide) _
  have hstated : numberAt bytes 12 4 = length := by
    have hassoc : bytes = (magic ++ version ++ middle) ++ (lengthBytes ++ (sum ++ rest)) := by
      simp only [hbytes, List.append_assoc]
    rw [hassoc]
    refine numberAt_append ?_ hlength _
    simp only [List.length_append, hlengths, hmiddle]
  have hchecksum : (bytes.drop 16).take 16 = sum := by
    have hassoc : bytes = (magic ++ version ++ middle ++ lengthBytes) ++ (sum ++ rest) := by
      simp only [hbytes, List.append_assoc]
    rw [hassoc]
    refine take_drop_append ?_ hsum _
    simp only [List.length_append, hlengths, hmiddle]
  have hrest : bytes.drop headerLength = rest := by
    have hassoc : bytes = (magic ++ version ++ middle ++ lengthBytes ++ sum) ++ rest := by
      simp only [hbytes, List.append_assoc]
    rw [hassoc]
    refine List.drop_left' ?_
    simp only [List.length_append, hlengths, hmiddle, hsum, headerLength]
  rw [payloadOf, hstated, hrest, hformat, hchecksum, if_neg hlong, if_neg (not_not.mpr hmagic),
    if_neg (not_not.mpr rfl)]

/-- **The payload behind its header is found**, whatever follows it, and whatever the six bytes hold
that are passed over. -/
theorem payloadOf_append (middle : Bytes) {payload : Bytes} (hmiddle : middle.length = 6)
    (h : payload.length < 2 ^ 32) (rest : Bytes) :
    payloadOf (magic ++ (Bytes.littleEndian 2 formatVersion ++ (middle ++
      (Bytes.littleEndian 4 payload.length ++ (checksum payload ++ (payload ++ rest)))))) =
      .ok payload := by
  have henough : ¬ (payload ++ rest).length < payload.length := by
    rw [List.length_append]
    omega
  rw [payloadOf_fields hmiddle h (length_checksum payload), List.take_left, if_neg henough,
    if_neg (not_not.mpr rfl)]

/-- A header has the length that readers count on. -/
theorem length_header (payload : Bytes) : (header payload).length = headerLength := by
  simp only [header, List.length_append, Bytes.length_littleEndian, length_checksum, magic,
    List.length_cons, List.length_nil, headerLength]

/-- A header, field by field. -/
theorem header_append (payload rest : Bytes) :
    header payload ++ rest = magic ++ (Bytes.littleEndian 2 formatVersion ++
      ((Bytes.littleEndian 2 engineVersion ++ Bytes.littleEndian 4 0) ++
        (Bytes.littleEndian 4 payload.length ++ (checksum payload ++ rest)))) := by
  simp only [header, List.append_assoc]

/-- The payload of a snapshot is found. -/
theorem payloadOf_header_append {payload : Bytes} (h : payload.length < 2 ^ 32) :
    payloadOf (header payload ++ payload) = .ok payload := by
  have hfound := payloadOf_append (Bytes.littleEndian 2 engineVersion ++ Bytes.littleEndian 4 0)
    rfl h []
  rwa [List.append_nil, ← header_append] at hfound

end Snapshot

/-! ## Stores -/

/-- A draft whose numbers have 64 bits. -/
structure Draft.Fits (d : Draft) : Prop where
  number : ∀ n ∈ d.number, n < 2 ^ 64
  sources : ∀ id ∈ d.sources, id < 2 ^ 64

/-- Whether the numbers of a draft have at most 64 bits can be told by comparing. -/
instance (d : Draft) : Decidable d.Fits :=
  decidable_of_iff ((∀ n ∈ d.number, n < 2 ^ 64) ∧ ∀ id ∈ d.sources, id < 2 ^ 64)
    ⟨fun ⟨number, sources⟩ => ⟨number, sources⟩, fun ⟨number, sources⟩ => ⟨number, sources⟩⟩

namespace Store

variable {s : Store}

/-- A store whose counters have 64 bits. -/
structure CountersFit (s : Store) : Prop where
  lastId : s.lastId < 2 ^ 64
  lastBase : s.lastBase < 2 ^ 64
  lastCombined : s.lastCombined < 2 ^ 64

/-- A store that a snapshot has room for. -/
structure Writable (s : Store) : Prop extends CountersFit s where
  length : s.payload.bytes.length < 2 ^ 32

/-- Whether counters have at most 64 bits can be told by comparing. -/
instance (s : Store) : Decidable s.CountersFit :=
  decidable_of_iff (s.lastId < 2 ^ 64 ∧ s.lastBase < 2 ^ 64 ∧ s.lastCombined < 2 ^ 64)
    ⟨fun ⟨lastId, lastBase, lastCombined⟩ => ⟨lastId, lastBase, lastCombined⟩,
      fun ⟨lastId, lastBase, lastCombined⟩ => ⟨lastId, lastBase, lastCombined⟩⟩

/-- Whether a snapshot of a store can be written can be told by comparing. -/
instance (s : Store) : Decidable s.Writable :=
  decidable_of_iff (s.CountersFit ∧ s.payload.bytes.length < 2 ^ 32)
    ⟨fun ⟨fit, length⟩ => ⟨fit, length⟩, fun h => ⟨h.toCountersFit, h.length⟩⟩

/-- The counter of every kind has at most 64 bits. -/
theorem CountersFit.lastNumber (h : s.CountersFit) (kind : RuleKind) :
    s.lastNumber kind < 2 ^ 64 := by
  cases kind with
  | base => exact h.lastBase
  | combined => exact h.lastCombined

/-- The drafts of a coherent store with counters of 64 bits have numbers of 64 bits. -/
theorem Coherent.fits (h : s.Coherent) (hs : s.Ordered) (hfit : s.CountersFit) {r : Rule}
    (hr : r ∈ s.rules) : r.toDraft.Fits := by
  refine ⟨fun n hn => ?_, fun id hid => ?_⟩
  · exact Nat.lt_of_le_of_lt (h.number_le r hr n hn) (hfit.lastNumber r.kind)
  · obtain ⟨b, hb, rfl⟩ := h.stored r hr id hid
    exact Nat.lt_of_le_of_lt (hs.le_lastId b hb) hfit.lastId

/-- The numbers of a payload that is written have 64 bits. -/
theorem CountersFit.payload_fits (h : s.CountersFit) (hs : s.Ordered)
    (hdrafts : ∀ r ∈ s.rules, r.toDraft.Fits) (hlength : s.payload.bytes.length < 2 ^ 64) :
    s.payload.Fits := by
  refine ⟨?_, h.lastId, h.lastBase, h.lastCombined, List.forall_mem_map.mpr fun r hr => ?_⟩
  · -- the count has no counter above it, but every rule takes a byte of the payload
    have hsize : s.payload.records.length = s.size := List.length_map Rule.record
    have hle := s.payload.length_records_le
    show s.size < 2 ^ 64
    omega
  · exact ⟨Nat.lt_of_le_of_lt (hs.le_lastId r hr) h.lastId, (hdrafts r hr).number,
      (hdrafts r hr).sources⟩

/-- Reading a snapshot is taking the store that its payload describes. -/
theorem Writable.ofSnapshot_snapshot (h : s.Writable) (hfits : s.payload.Fits) :
    ofSnapshot s.snapshot = s.payload.store.mapError .invalid := by
  have hlength : s.payload.bytes.length < 2 ^ 64 := Nat.lt_trans h.length (by decide)
  have hread := Payload.read_bytes hfits hlength []
  rw [List.append_nil] at hread
  simp only [ofSnapshot, snapshot, Snapshot.payloadOf_header_append h.length, bind,
    Except.bind, hread]

/-- **The snapshot of a store in order gives the store back** where it is coherent, and has a fault
where it is not. -/
theorem Ordered.ofSnapshot_snapshot (hs : s.Ordered) (hdrafts : ∀ r ∈ s.rules, r.toDraft.Fits)
    (h : s.Writable) :
    (s.Coherent → ofSnapshot s.snapshot = .ok s) ∧
      (¬ s.Coherent → ∃ fault, ofSnapshot s.snapshot = .error (.invalid fault)) := by
  have hlength : s.payload.bytes.length < 2 ^ 64 := Nat.lt_trans h.length (by decide)
  rw [h.ofSnapshot_snapshot (h.payload_fits hs hdrafts hlength)]
  obtain ⟨hcoherent, hfault⟩ := hs.payload_store
  constructor
  · intro hok
    rw [hcoherent hok]
    rfl
  · intro hno
    obtain ⟨fault, herror⟩ := hfault hno
    exact ⟨fault, by rw [herror]; rfl⟩

/-- **A coherent store comes back from its snapshot.** Its ids and numbers are covered by the
counters, so they need no bound of their own. -/
theorem Coherent.ofSnapshot_snapshot (h : s.Coherent) (hs : s.Ordered) (hwritable : s.Writable) :
    ofSnapshot s.snapshot = .ok s := by
  have hdrafts : ∀ r ∈ s.rules, r.toDraft.Fits := fun r hr =>
    h.fits hs hwritable.toCountersFit hr
  exact (hs.ofSnapshot_snapshot hdrafts hwritable).1 h

/-- A store is read from bytes that have a payload which describes it. -/
theorem ofSnapshot_eq_ok_iff {bytes : Bytes} :
    ofSnapshot bytes = .ok s ↔ ∃ content p rest, Snapshot.payloadOf bytes = .ok content ∧
      Payload.read content = some (p, rest) ∧ p.store = .ok s := by
  unfold ofSnapshot
  cases Snapshot.payloadOf bytes with
  | error e => simp [bind, Except.bind]
  | ok content =>
    cases hread : Payload.read content with
    | none => simp [bind, Except.bind, hread]
    | some read =>
      obtain ⟨p, rest⟩ := read
      cases hstore : p.store with
      | error fault => simp [bind, Except.bind, hread, hstore, Except.mapError]
      | ok s' => simp [bind, Except.bind, hread, hstore, Except.mapError]

/-- **Every store that is read is in order and coherent**, and its counters have 64 bits. -/
theorem ofSnapshot_ok {bytes : Bytes} (h : ofSnapshot bytes = .ok s) :
    s.Ordered ∧ s.Coherent ∧ s.CountersFit := by
  obtain ⟨content, p, rest, -, hread, hstore⟩ := ofSnapshot_eq_ok_iff.mp h
  obtain ⟨hs, hcoherent, hlastId, hlastNumber⟩ := Payload.store_ok hstore
  have hfits := Payload.fits_of_read hread
  refine ⟨hs, hcoherent, hlastId ▸ hfits.lastId, ?_, ?_⟩
  · exact lt_of_eq_of_lt (hlastNumber .base) hfits.lastBase
  · exact lt_of_eq_of_lt (hlastNumber .combined) hfits.lastCombined

/-! ## Everything that can be done to a store -/

/-- What can be done to a store: it stores a draft, which may say anything, or takes a number, or is
replaced by the store of a snapshot, which may be any bytes. -/
inductive Operation where
  | create (d : Draft) (fits : d.Fits)
  | takeNumber (kind : RuleKind)
  | restore (bytes : Bytes)

/-- The store after an operation, which changes nothing when it fails. -/
def apply (s : Store) : Operation → Store
  | .create d _ =>
    match s.create d with
    | .ok (_, s') => s'
    | .error _ => s
  | .takeNumber kind => (s.takeNumber kind).2
  | .restore bytes =>
    match ofSnapshot bytes with
    | .ok s' => s'
    | .error _ => s

/-- The store after operations on the empty one. -/
def after (operations : List Operation) : Store := operations.foldl apply empty

/-- A store in order whose drafts have numbers of 64 bits. -/
structure Sound (s : Store) : Prop extends Ordered s where
  fits : ∀ r ∈ s.rules, r.toDraft.Fits

/-- Every operation keeps the rules of a store by id. -/
theorem Sorted.apply (hs : s.Sorted) (operation : Operation) : (s.apply operation).Sorted := by
  cases operation with
  | create d hd =>
    cases hcreate : s.create d with
    | error e => simpa only [Store.apply, hcreate] using hs
    | ok answer =>
      simp only [Store.apply, hcreate]
      exact hs.create hcreate
  | takeNumber kind => exact hs.takeNumber kind
  | restore bytes =>
    cases hrestore : ofSnapshot bytes with
    | error e => simpa only [Store.apply, hrestore] using hs
    | ok s' =>
      simp only [Store.apply, hrestore]
      exact (ofSnapshot_ok hrestore).1.toSorted

/-- Every operation keeps a store sound, unless the counter of ids wraps.

**Proof sketch.** A draft that is accepted comes last, a number that is taken changes no rule, and a
store that is restored is in order and coherent, whatever bytes it was read from. -/
theorem Sound.apply (hs : s.Sound) (hroom : s.lastId + 1 < 2 ^ 64) (operation : Operation) :
    (s.apply operation).Sound := by
  cases operation with
  | create d hd =>
    cases hcreate : s.create d with
    | error e => simpa only [Store.apply, hcreate] using hs
    | ok answer =>
      obtain ⟨r, s'⟩ := answer
      simp only [Store.apply, hcreate]
      refine ⟨hs.create hroom hcreate, fun a ha => ?_⟩
      rw [hs.create_rules hroom hcreate] at ha
      rcases List.mem_append.mp ha with ha | ha
      · exact hs.fits a ha
      · rw [List.mem_singleton.mp ha, (create_ok hcreate).1]
        exact hd
  | takeNumber kind => exact ⟨hs.toOrdered.takeNumber kind, by simpa [Store.apply] using hs.fits⟩
  | restore bytes =>
    cases hrestore : ofSnapshot bytes with
    | error e => simpa only [Store.apply, hrestore] using hs
    | ok s' =>
      simp only [Store.apply, hrestore]
      obtain ⟨hordered, hcoherent, hfit⟩ := ofSnapshot_ok hrestore
      exact ⟨hordered, fun r hr => hcoherent.fits hordered hfit hr⟩

/-- One more operation comes last. -/
theorem after_concat (operations : List Operation) (last : Operation) :
    after (operations ++ [last]) = (after operations).apply last := by
  rw [after, List.foldl_concat, ← after]

/-- **Every store that can be made is sound**, as long as no operation finds the counter of ids at
its end. -/
theorem sound_after {operations : List Operation}
    (hroom : ∀ before operation, before ++ [operation] <+: operations →
      (after before).lastId + 1 < 2 ^ 64) : (after operations).Sound := by
  induction operations using List.reverseRecOn with
  | nil => exact ⟨ordered_empty, by simp [after, empty]⟩
  | append_singleton operations last ih =>
    have hbefore := ih fun before operation hpart =>
      hroom before operation (hpart.trans (List.prefix_append operations [last]))
    rw [after_concat]
    exact hbefore.apply (hroom operations last List.prefix_rfl) last

/-- **The stores that come back from their snapshots** are, among all the stores that can be made
without a wrap of the ids and that a snapshot has room for, those whose counters and sources cover
their rules and whose formulas are not too deep. All others have a fault that is found.

**Proof sketch.** A store that was made without a wrap is in order, and its numbers have 64 bits.
Its snapshot has its payload, whose checks are coherence, and whatever is read from any snapshot is
coherent. -/
theorem ofSnapshot_snapshot_after (operations : List Operation)
    (hroom : ∀ before operation, before ++ [operation] <+: operations →
      (after before).lastId + 1 < 2 ^ 64)
    (h : (after operations).Writable) :
    let s := after operations
    (ofSnapshot s.snapshot = .ok s ↔ s.Coherent) ∧
      (¬ s.Coherent → ∃ fault, ofSnapshot s.snapshot = .error (.invalid fault)) := by
  intro s
  have hs : s.Sound := sound_after hroom
  obtain ⟨hcoherent, hfault⟩ := hs.ofSnapshot_snapshot hs.fits h
  refine ⟨⟨fun hok => ?_, hcoherent⟩, hfault⟩
  exact (ofSnapshot_ok hok).2.1

/-- A rule under a number that was taken, and after it one under a number that was not. -/
theorem ofSnapshot_snapshot_after_stray :
    let numbered : List Operation := [.takeNumber .base,
      .create (.base "a = 'x'" (.condition ⟨"a", .equal, .text "x"⟩) 1) (by decide)]
    let stray : Operation :=
      .create (.combined "b = 'y'" (.condition ⟨"b", .equal, .text "y"⟩) (some 1) [1]) (by decide)
    ofSnapshot (after numbered).snapshot = .ok (after numbered) ∧
      ∃ fault, ofSnapshot (after (numbered ++ [stray])).snapshot = .error (.invalid fault) := by
  intro numbered stray
  have hnumbered : (after numbered).Writable := by decide +kernel
  have hstray : (after (numbered ++ [stray])).Writable := by decide +kernel
  have hcoherent : (after numbered).Coherent := by decide +kernel
  have hincoherent : ¬ (after (numbered ++ [stray])).Coherent := by decide +kernel
  have hids : ∀ before ∈ (numbered ++ [stray]).inits, (after before).lastId + 1 < 2 ^ 64 := by
    decide +kernel
  have hroom {operations : List Operation} (hpart : operations <+: numbered ++ [stray])
      (before : List Operation) (operation : Operation)
      (hbefore : before ++ [operation] <+: operations) : (after before).lastId + 1 < 2 ^ 64 :=
    hids before ((List.mem_inits before _).mpr
      ((List.prefix_append before [operation]).trans (hbefore.trans hpart)))
  exact ⟨(ofSnapshot_snapshot_after numbered (hroom (List.prefix_append _ _)) hnumbered).1.mpr
      hcoherent,
    (ofSnapshot_snapshot_after (numbered ++ [stray]) (hroom List.prefix_rfl) hstray).2 hincoherent⟩

end Store

end Eligibility
