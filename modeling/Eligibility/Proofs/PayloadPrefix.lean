import Eligibility.Proofs.Restoring

/-!
# Payloads that are cut short

A reader of a payload takes bytes from the front and never looks behind what it takes. So what it
reads from the front of a byte string it reads from the whole of it, and no payload begins with
another: a part of a payload that is read at all is read as the payload.

## Main definitions

* `Bytes.Reader.Extends`, `Bytes.Reader.Streams` — readers that do not look behind what they take.

## Main results

* `Payload.streams_read` — the reader of payloads is such a reader.
* `Payload.eq_of_read_prefix` — what is read from a part of a payload is the payload.
* `Store.Ordered.eq_of_ofSnapshot_snapshot` — the snapshot of a store gives no other store.
-/

set_option relaxedAutoImplicit false
set_option autoImplicit false

namespace Eligibility

namespace Bytes

variable {α β : Type}

/-- A reader that reads at least as much as another, and leaves bytes that are added at the end. -/
def Reader.Extends (read wider : Reader α) : Prop :=
  ∀ ⦃bytes rest : Bytes⦄ ⦃x : α⦄, read bytes = some (x, rest) →
    ∀ more, wider (bytes ++ more) = some (x, rest ++ more)

/-- A reader that does not look behind what it takes. -/
abbrev Reader.Streams (read : Reader α) : Prop := Reader.Extends read read

/-! ## One reader after another -/

/-- A reader that takes nothing streams. -/
theorem streams_pure (x : α) : Reader.Streams fun bytes => some (x, bytes) := by
  intro bytes rest y h more
  cases h
  rfl

/-- Readers one after the other extend if each does, so it is enough to look at single fields. -/
theorem extends_bind {read wider : Reader α} {next widerNext : α → Reader β}
    (h : read.Extends wider) (hnext : ∀ x, (next x).Extends (widerNext x)) :
    Reader.Extends (fun bytes => (read bytes).bind fun p => next p.1 p.2)
      fun bytes => (wider bytes).bind fun p => widerNext p.1 p.2 := by
  intro bytes rest y hy more
  obtain ⟨⟨x, left⟩, hx, hleft⟩ := Option.bind_eq_some_iff.mp hy
  exact Option.bind_eq_some_iff.mpr ⟨(x, left ++ more), h hx more, hnext x hleft more⟩

/-- A condition on what was read before. -/
theorem streams_option {next : α → Reader β} (hnext : ∀ x, (next x).Streams) (found : Option α) :
    Reader.Streams fun bytes => found.bind fun x => next x bytes := by
  cases found with
  | none =>
    intro bytes rest y h
    cases h
  | some x => exact hnext x

/-- A choice that was made before. -/
theorem streams_ite {c : Prop} [Decidable c] {read other : Reader α} (h : read.Streams)
    (hother : other.Streams) : Reader.Streams fun bytes =>
      if c then read bytes else other bytes := by
  by_cases hc : c
  · simpa only [if_pos hc] using h
  · simpa only [if_neg hc] using hother

/-- A reader that always fails streams. -/
theorem streams_none : Reader.Streams fun _ : Bytes => (none : Option (α × Bytes)) := nofun

/-! ## Numbers -/

/-- Taking a number of bytes streams. -/
theorem streams_take? (count : Nat) : Reader.Streams (take? count) := by
  induction count with
  | zero => exact streams_pure []
  | succ count ih =>
    intro bytes rest taken h more
    cases bytes with
    | nil => cases h
    | cons b bytes =>
      rw [take?, Option.map_eq_some_iff] at h
      obtain ⟨⟨front, _⟩, hfront, heq⟩ := h
      obtain ⟨rfl, rfl⟩ := Prod.mk.inj heq
      rw [List.cons_append, take?, ih hfront more, Option.map_some]

/-- Numbers of fixed length stream. -/
theorem streams_readLittleEndian (count : Nat) : Reader.Streams (readLittleEndian count) := by
  intro bytes rest n h more
  rw [readLittleEndian, Option.map_eq_some_iff] at h
  obtain ⟨⟨taken, _⟩, htaken, heq⟩ := h
  obtain ⟨rfl, rfl⟩ := Prod.mk.inj heq
  rw [readLittleEndian, streams_take? count htaken more, Option.map_some]

/-- Numbers of variable length stream: their first byte says how many more there are. -/
theorem streams_readVarint (width : Nat) : Reader.Streams (readVarint width) := by
  intro bytes rest n h more
  cases bytes with
  | nil => cases h
  | cons b bytes =>
    rw [readVarint] at h
    rw [List.cons_append, readVarint]
    exact streams_ite (streams_pure b.toNat) (streams_ite (streams_readLittleEndian 2)
      (streams_ite (streams_readLittleEndian 4) (streams_ite (streams_readLittleEndian 8)
        streams_none))) h more

/-! ## Texts, lists and choices -/

/-- Texts stream: their length stands before them. -/
theorem streams_readText : Reader.Streams readText :=
  extends_bind (streams_readVarint 8) fun length => extends_bind (streams_take? length) fun taken =>
    streams_option (fun s => streams_pure s) (String.fromUTF8? ⟨taken.toArray⟩)

/-- Repeating a reader a number of times extends if the reader does. -/
theorem extends_many {read wider : Reader α} (h : read.Extends wider) (count : Nat) :
    Reader.Extends (many read count) (many wider count) := by
  induction count with
  | zero => exact streams_pure []
  | succ count ih => exact extends_bind h fun x => extends_bind ih fun xs => streams_pure (x :: xs)

/-- Lists extend if their items do: their length stands before them. -/
theorem extends_readList {read wider : Reader α} (h : read.Extends wider) :
    Reader.Extends (readList read) (readList wider) :=
  extends_bind (streams_readVarint 8) fun count => extends_many h count

/-- Truth values stream. -/
theorem streams_readBool : Reader.Streams readBool := by
  intro bytes rest b h more
  unfold readBool at h
  split at h
  · cases h
    rfl
  · cases h
    rfl
  · cases h

/-- Numbers that can be missing stream. -/
theorem streams_readOptional : Reader.Streams readOptional := by
  intro bytes rest number h more
  obtain ⟨⟨present, left⟩, hpresent, h⟩ := Option.bind_eq_some_iff.mp h
  refine Option.bind_eq_some_iff.mpr ⟨_, streams_readBool hpresent more, ?_⟩
  cases present with
  | false =>
    cases h
    rfl
  | true => exact extends_bind (streams_readVarint 8) (fun n => streams_pure (some n)) h more

/-- Choices from a list stream. -/
theorem streams_readChoice (choices : List α) : Reader.Streams (readChoice choices) :=
  extends_bind (streams_readVarint 4) fun place =>
    streams_option (fun x => streams_pure x) choices[place]?

end Bytes

open Bytes

/-! ## Formulas -/

/-- Literals stream, whichever of the three kinds they are. -/
theorem Literal.streams_read : Reader.Streams Literal.read := by
  intro bytes rest l h more
  obtain ⟨⟨tag, left⟩, htag, h⟩ := Option.bind_eq_some_iff.mp h
  refine Option.bind_eq_some_iff.mpr ⟨_, streams_readVarint 4 htag more, ?_⟩
  match tag with
  | 0 =>
    exact extends_bind (streams_readLittleEndian 8)
      (fun bits => streams_pure (number (.ofBits bits))) h more
  | 1 => exact extends_bind streams_readText (fun s => streams_pure (text s)) h more
  | _ + 2 => cases h

/-- Conditions stream, field by field. -/
theorem Condition.streams_read : Reader.Streams Condition.read :=
  extends_bind streams_readText fun path => extends_bind (streams_readChoice Comparator.all)
    fun comparator => extends_bind Literal.streams_read fun literal =>
      streams_pure (⟨path, comparator, literal⟩ : Condition)

namespace Grouped

/-- A grouped form that is read within a bound is read within every larger one.

**Proof sketch.** By induction on the bound. The members of a group are read within bounds that are
smaller by one each, and so in the same relation. -/
theorem extends_readWithin {bound larger : Nat} (h : bound ≤ larger) :
    Reader.Extends (readWithin bound) (readWithin larger) := by
  induction bound generalizing larger with
  | zero =>
    intro bytes rest g hg
    cases hg
  | succ bound ih =>
    obtain ⟨larger, rfl⟩ := Nat.exists_eq_add_of_lt h
    have hmembers (op : Connective) := extends_bind
      (extends_readList (ih (Nat.le_add_right bound larger))) fun gs => streams_pure (group op gs)
    intro bytes rest g hg more
    obtain ⟨⟨tag, left⟩, htag, hg⟩ := Option.bind_eq_some_iff.mp hg
    refine Option.bind_eq_some_iff.mpr ⟨_, streams_readVarint 4 htag more, ?_⟩
    match tag with
    | 0 => exact extends_bind Condition.streams_read (fun c => streams_pure (condition c)) hg more
    | 1 => exact hmembers .and hg more
    | 2 => exact hmembers .or hg more
    | _ + 3 => cases hg

/-- Groups stream, however deep they are. -/
theorem streams_read : Reader.Streams Grouped.read := by
  intro bytes rest g h more
  refine extends_readWithin ?_ h more
  rw [List.length_append]
  exact Nat.le_add_right ..

end Grouped

namespace Payload

/-- Records stream, field by field. -/
theorem Record.streams_read : Reader.Streams Record.read :=
  extends_bind (streams_readVarint 8) fun id => extends_bind streams_readText fun text =>
    extends_bind streams_readBool fun combined => extends_bind streams_readOptional fun number =>
      extends_bind (extends_readList (streams_readVarint 8)) fun sources =>
        extends_bind Grouped.streams_read fun formula => streams_pure
          (⟨id, text, if combined then .combined else .base, number, sources, formula⟩ : Record)

/-- **The reader of payloads does not look behind what it takes.** -/
theorem streams_read : Reader.Streams Payload.read :=
  extends_bind (streams_readVarint 8) fun ruleCount => extends_bind (streams_readVarint 8)
    fun lastId => extends_bind (streams_readVarint 8) fun lastBase =>
      extends_bind (streams_readVarint 8) fun lastCombined =>
        extends_bind (extends_readList Record.streams_read) fun records =>
          streams_pure (⟨ruleCount, lastId, lastBase, lastCombined, records⟩ : Payload)

/-- **What is read from a part of a payload is the payload.** -/
theorem eq_of_read_prefix {p q : Payload} (hp : p.Fits) (h : p.bytes.length < 2 ^ 64)
    {part rest : Bytes} (hpart : part <+: p.bytes) (hread : read part = some (q, rest)) :
    q = p := by
  obtain ⟨more, hmore⟩ := hpart
  have hwhole := streams_read hread more
  have hself := read_bytes hp h []
  rw [List.append_nil, ← hmore, hwhole] at hself
  exact (Prod.mk.inj (Option.some.inj hself)).1

end Payload

/-! ## Snapshots -/

/-- A payload that is found stands in front of what follows the header. -/
theorem Snapshot.payloadOf_prefix {bytes content : Bytes} (h : payloadOf bytes = .ok content) :
    content <+: bytes.drop headerLength := by
  simp only [payloadOf, Payload.ite_error_eq_ok_iff] at h
  obtain ⟨-, -, -, -, -, h⟩ := h
  obtain rfl := Except.ok.inj h
  exact List.take_prefix _ _

/-- **The snapshot of a store gives no other store**, also when it is too long for its header.

**Proof sketch.** The length in the header may be too small, and then a part of the payload is read.
But what is read from a part of a payload is the payload. -/
theorem Store.Ordered.eq_of_ofSnapshot_snapshot {s s' : Store} (hs : s.Ordered)
    (hdrafts : ∀ r ∈ s.rules, r.toDraft.Fits) (hfit : s.CountersFit)
    (hlength : s.payload.bytes.length < 2 ^ 64) (h : ofSnapshot s.snapshot = .ok s') : s' = s := by
  obtain ⟨content, p, rest, hcontent, hread, hstore⟩ := ofSnapshot_eq_ok_iff.mp h
  have hpart := Snapshot.payloadOf_prefix hcontent
  rw [snapshot, List.drop_left' (Snapshot.length_header _)] at hpart
  have hpayload := hfit.payload_fits hs hdrafts hlength
  obtain rfl := Payload.eq_of_read_prefix hpayload hlength hpart hread
  obtain ⟨hcoherent, hfault⟩ := hs.payload_store
  by_cases hs' : s.Coherent
  · rw [hcoherent hs'] at hstore
    exact (Except.ok.inj hstore).symm
  · obtain ⟨fault, herror⟩ := hfault hs'
    rw [herror] at hstore
    cases hstore

end Eligibility
