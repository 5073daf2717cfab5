import Eligibility.Proofs.Restoring

/-!
# The frame of a snapshot

A snapshot that was cut off says how many bytes are missing. In the header a reader counts against
the length of a header, and behind it against the length that the header states, so it does not take
a part for the whole or for a snapshot that was altered. Bytes after the payload and the version of
the engine and the flags in the header make no difference.

## Main results

* `Snapshot.payloadOf_take` — a snapshot that is cut off anywhere lacks bytes.
* `Store.ofSnapshot_framed` — what a reader says to the cut snapshots of a store, and to those with
  other bytes where it does not look.
-/

set_option relaxedAutoImplicit false
set_option autoImplicit false

namespace Eligibility

namespace Snapshot

/-- Bytes that are too few for a header are reported before anything in them is looked at. -/
theorem payloadOf_short {bytes : Bytes} (h : bytes.length < headerLength) :
    payloadOf bytes = .error (.lengthMismatch headerLength bytes.length) := by
  rw [payloadOf, if_pos h]

/-- **A snapshot that is cut off lacks bytes**, of the header or of the payload.
The length is compared before the checksum, so that it is the length that is found wrong.

**Proof sketch.** A cut within the header leaves less than a header. Behind it the header is whole,
so that its fields are found, and the length that it states is more than what is left. -/
theorem payloadOf_take {payload : Bytes} (h : payload.length < 2 ^ 32) {k : Nat}
    (hk : k < headerLength + payload.length) :
    payloadOf ((header payload ++ payload).take k) =
      .error (if k < headerLength then .lengthMismatch headerLength k
        else .lengthMismatch payload.length (k - headerLength)) := by
  have hlength : (header payload ++ payload).length = headerLength + payload.length := by
    rw [List.length_append, length_header]
  by_cases hshort : k < headerLength
  · have htake : ((header payload ++ payload).take k).length = k :=
      List.length_take_of_le (by omega)
    rw [if_pos hshort, payloadOf_short (by rwa [htake]), htake]
  · -- the header is whole, so the length that it states is that of the whole payload
    have hcut : (header payload ++ payload).take k =
        header payload ++ payload.take (k - headerLength) := by
      rw [List.take_append, length_header, List.take_of_length_le (by rw [length_header]; omega)]
    have hpart : (payload.take (k - headerLength)).length = k - headerLength :=
      List.length_take_of_le (by omega)
    rw [if_neg hshort, hcut, header_append, payloadOf_fields rfl h (length_checksum payload), hpart,
      if_pos (by omega)]

end Snapshot

namespace Store

open Snapshot

variable {s : Store}

/-- A snapshot is a header of fixed length and the payload. -/
theorem length_snapshot (s : Store) :
    s.snapshot.length = headerLength + s.payload.bytes.length := by
  rw [snapshot, List.length_append, length_header]

/-- Bytes without a payload are no snapshot, for the same reason. -/
theorem ofSnapshot_of_payloadOf_error {bytes : Bytes} {e : SnapshotError}
    (h : payloadOf bytes = .error e) : ofSnapshot bytes = .error e := by
  rw [ofSnapshot, h]
  rfl

/-- A store is read from the payload alone. -/
theorem ofSnapshot_congr {bytes bytes' : Bytes} (h : payloadOf bytes = payloadOf bytes') :
    ofSnapshot bytes = ofSnapshot bytes' := by
  rw [ofSnapshot, ofSnapshot, h]

/-- The payload of a snapshot is found whatever stands in the six bytes that are passed over and
whatever follows. -/
theorem payloadOf_altered (h : s.payload.bytes.length < 2 ^ 32) {middle : Bytes}
    (hmiddle : middle.length = 6) (rest : Bytes) :
    payloadOf (s.snapshot.take 6 ++ middle ++ s.snapshot.drop 12 ++ rest) =
      .ok s.payload.bytes := by
  have hfront : s.snapshot.take 6 = magic ++ Bytes.littleEndian 2 formatVersion := by
    rw [snapshot, header_append, ← List.append_assoc]
    exact List.take_left' rfl
  have hback : s.snapshot.drop 12 = Bytes.littleEndian 4 s.payload.bytes.length ++
      (checksum s.payload.bytes ++ s.payload.bytes) := by
    rw [snapshot, header_append, ← List.append_assoc, ← List.append_assoc]
    exact List.drop_left' rfl
  rw [hfront, hback]
  simpa only [List.append_assoc] using payloadOf_append middle hmiddle h rest

/-- **What a reader says to a snapshot that was cut off or altered where it does not look.** A cut
in the first 32 bytes leaves too few for a header, and one behind them too few for the payload that
the header states. Other bytes for the version of the engine and the flags, and bytes at the end,
leave the payload and with it the answer as they are.

**Proof sketch.** Only the payload that the header leads to is read. Cutting leaves less than the
header states, and the other changes leave the fields that are looked at where they are. -/
theorem ofSnapshot_framed (h : s.payload.bytes.length < 2 ^ 32) :
    (∀ k < s.snapshot.length, ofSnapshot (s.snapshot.take k) =
      .error (if k < 32 then .lengthMismatch 32 k
        else .lengthMismatch (s.snapshot.length - 32) (k - 32))) ∧
    (∀ middle rest : Bytes, middle.length = 6 →
      let altered := s.snapshot.take 6 ++ middle ++ s.snapshot.drop 12 ++ rest
      payloadOf altered = .ok s.payload.bytes ∧ ofSnapshot altered = ofSnapshot s.snapshot) := by
  have hwhole : payloadOf s.snapshot = .ok s.payload.bytes := payloadOf_header_append h
  refine ⟨fun k hk => ?_, fun middle rest hmiddle => ?_⟩
  · rw [length_snapshot] at hk
    have hstated : s.snapshot.length - 32 = s.payload.bytes.length := by
      rw [length_snapshot, headerLength]
      omega
    rw [hstated]
    exact ofSnapshot_of_payloadOf_error (payloadOf_take h hk)
  · have haltered := payloadOf_altered h hmiddle rest
    exact ⟨haltered, ofSnapshot_congr (haltered.trans hwhole.symm)⟩

/-- A store with a rule, cut in the header, behind it and within the payload, and with other flags
and bytes at the end. -/
theorem ofSnapshot_framed_one_rule :
    let s : Store := ⟨[⟨.base "a = 'x'" (.condition ⟨"a", .equal, .text "x"⟩) 1, 1⟩], 1, 1, 0⟩
    ofSnapshot (s.snapshot.take 31) = .error (.lengthMismatch 32 31) ∧
      ofSnapshot (s.snapshot.take 32) = .error (.lengthMismatch 25 0) ∧
      ofSnapshot (s.snapshot.take 56) = .error (.lengthMismatch 25 24) ∧
      ofSnapshot (s.snapshot.take 6 ++ [9, 0, 255, 255, 255, 255] ++ s.snapshot.drop 12 ++ [1, 2]) =
        .ok s := by
  intro s
  have hlength : s.payload.bytes.length = 25 := by decide +kernel
  obtain ⟨hcut, haltered⟩ := ofSnapshot_framed (s := s) (by omega)
  have hsnapshot : s.snapshot.length = 57 := by rw [length_snapshot, hlength]; rfl
  rw [hsnapshot] at hcut
  have hwhole : ofSnapshot s.snapshot = .ok s := by decide +kernel
  refine ⟨hcut 31 (by decide), hcut 32 (by decide), hcut 56 (by decide), ?_⟩
  exact (haltered [9, 0, 255, 255, 255, 255] [1, 2] rfl).2.trans hwhole

end Store

end Eligibility
