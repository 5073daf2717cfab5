import Eligibility.Proofs.GroupedForm
import Eligibility.Snapshot.Payload

/-!
# Payloads read back

What is written of a payload is read back, and what follows it is left. This holds for every payload
whose numbers have at most 64 bits, and only such payloads are read at all.

## Main definitions

* `Payload.Record.Fits`, `Payload.Fits` — a rule and a payload with numbers of at most 64 bits.

## Main results

* `Grouped.read_bytes` — the grouped form of a formula reads back.
* `Payload.read_bytes` — a payload reads back.
* `Payload.fits_of_read` — a payload that is read has numbers of at most 64 bits.

## Implementation notes

The lengths that stand before texts and lists have 64 bits too. They are no larger than the number
of bytes that are written in all, which is what the lemmas ask to be small.
-/

set_option relaxedAutoImplicit false
set_option autoImplicit false

namespace Eligibility

namespace Bytes

/-! ## Lengths -/

/-- A number takes at least one byte. -/
theorem length_varint_pos (n : Nat) : 0 < (varint n).length := by
  unfold varint
  split
  · exact Nat.zero_lt_one
  · split
    · exact Nat.succ_pos _
    · split <;> exact Nat.succ_pos _

/-- A list whose values take a byte each has no more values than bytes. -/
theorem length_le_length_flatMap {α : Type} (write : α → Bytes) {xs : List α}
    (h : ∀ x ∈ xs, 0 < (write x).length) : xs.length ≤ (xs.flatMap write).length := by
  induction xs with
  | nil => exact Nat.le_refl 0
  | cons x xs ih =>
    have hx := h x List.mem_cons_self
    have hxs := ih fun y hy => h y (List.mem_cons_of_mem x hy)
    rw [List.flatMap_cons, List.length_append, List.length_cons]
    omega

/-- A value of a list takes no more bytes than the whole list. -/
theorem length_write_le {α : Type} (write : α → Bytes) {xs : List α} {x : α} (h : x ∈ xs) :
    (write x).length ≤ (xs.flatMap write).length := by
  induction xs with
  | nil => cases h
  | cons y xs ih =>
    rw [List.flatMap_cons, List.length_append]
    rcases List.mem_cons.mp h with rfl | h
    · exact Nat.le_add_right ..
    · exact Nat.le_add_left_of_le (ih h)

/-! ## Numbers -/

/-- A number below 251 is read at every width. -/
theorem readVarint_small (width : Nat) {n : Nat} (h : n < 251) (rest : Bytes) :
    readVarint width (varint n ++ rest) = some (n, rest) := by
  have hvalue : (UInt8.ofNat n).toNat = n := by
    rw [UInt8.toNat_ofNat']
    omega
  have hbelow : UInt8.ofNat n < 251 := by
    rw [UInt8.lt_iff_toNat_lt, hvalue]
    exact h
  simp [varint, h, readVarint, hbelow, hvalue]

/-- As many bytes are taken as were asked for. -/
theorem length_of_take? {count : Nat} {bytes taken rest : Bytes}
    (h : take? count bytes = some (taken, rest)) : taken.length = count := by
  induction count generalizing bytes taken with
  | zero =>
    cases h
    rfl
  | succ count ih =>
    cases bytes with
    | nil => cases h
    | cons b bytes =>
      rw [take?, Option.map_eq_some_iff] at h
      obtain ⟨⟨more, _⟩, hmore, heq⟩ := h
      obtain ⟨rfl, rfl⟩ := Prod.mk.inj heq
      rw [List.length_cons, ih hmore]

/-- A number in some bytes is below the power of 256 that they can tell apart. -/
theorem ofLittleEndian_lt (bytes : Bytes) : ofLittleEndian bytes < 256 ^ bytes.length := by
  induction bytes with
  | nil => exact Nat.zero_lt_one
  | cons b bytes ih =>
    have hb : b.toNat < 256 := b.toNat_lt
    rw [ofLittleEndian, List.length_cons, Nat.pow_succ]
    omega

/-- A number that is read has at most 64 bits.

**Proof sketch.** By the first byte, which is the number itself or says in how many bytes, at most
eight, the number follows. -/
theorem readVarint_lt {width n : Nat} {bytes rest : Bytes}
    (h : readVarint width bytes = some (n, rest)) : n < 2 ^ 64 := by
  have hfixed {count : Nat} (hcount : count ≤ 8) {bytes : Bytes}
      (h : readLittleEndian count bytes = some (n, rest)) : n < 2 ^ 64 := by
    rw [readLittleEndian, Option.map_eq_some_iff] at h
    obtain ⟨⟨taken, _⟩, htaken, heq⟩ := h
    obtain ⟨rfl, rfl⟩ := Prod.mk.inj heq
    have hlt := ofLittleEndian_lt taken
    rw [length_of_take? htaken] at hlt
    exact Nat.lt_of_lt_of_le hlt (Nat.pow_le_pow_right (by decide) hcount)
  cases bytes with
  | nil => cases h
  | cons b bytes =>
    rw [readVarint] at h
    split at h
    · obtain ⟨rfl, rfl⟩ := Prod.mk.inj (Option.some.inj h)
      have hb : b.toNat < 256 := b.toNat_lt
      omega
    · split at h
      · exact hfixed (by decide) h
      · split at h
        · exact hfixed (by decide) h
        · split at h
          · exact hfixed (by decide) h
          · cases h

/-! ## Texts, lists and choices -/

/-- A text reads back. -/
theorem readText_ofText {s : String} (h : (ofText s).length < 2 ^ 64) (rest : Bytes) :
    readText (ofText s ++ rest) = some (s, rest) := by
  have hlength : s.toUTF8.data.toList.length < 2 ^ 64 := by
    rw [ofText, List.length_append] at h
    omega
  have hvalid : String.fromUTF8? ⟨s.toUTF8.data.toList.toArray⟩ = some s := by
    rw [Array.toArray_toList]
    exact dif_pos s.isValidUTF8
  simp only [readText, ofText, List.append_assoc, readVarint_varint hlength, take?_append, hvalid,
    Option.bind_eq_bind, Option.bind_some, Option.pure_def]

/-- Values one after the other are read back when each of them is. -/
theorem many_flatMap {α : Type} {read : Reader α} {write : α → Bytes} {xs : List α}
    (h : ∀ x ∈ xs, ∀ rest, read (write x ++ rest) = some (x, rest)) (rest : Bytes) :
    many read xs.length (xs.flatMap write ++ rest) = some (xs, rest) := by
  induction xs with
  | nil => rfl
  | cons x xs ih =>
    have hx := h x List.mem_cons_self
    have hxs := ih fun y hy => h y (List.mem_cons_of_mem x hy)
    simp only [List.length_cons, List.flatMap_cons, List.append_assoc, many, hx, hxs,
      Option.bind_eq_bind, Option.bind_some, Option.pure_def]

/-- A list reads back when each of its values does. -/
theorem readList_ofList {α : Type} {read : Reader α} {write : α → Bytes} {xs : List α}
    (hlength : xs.length < 2 ^ 64)
    (h : ∀ x ∈ xs, ∀ rest, read (write x ++ rest) = some (x, rest)) (rest : Bytes) :
    readList read (ofList write xs ++ rest) = some (xs, rest) := by
  simp only [readList, ofList, List.append_assoc, readVarint_varint hlength, many_flatMap h,
    Option.bind_eq_bind, Option.bind_some]

/-- What holds of every value that is read holds of all values of a list.

**Proof sketch.** By induction on the number of values that stands before the list. -/
theorem forall_of_readList {α : Type} {read : Reader α} {P : α → Prop}
    (hread : ∀ {bytes rest : Bytes} {x : α}, read bytes = some (x, rest) → P x) {bytes rest : Bytes}
    {xs : List α} (h : readList read bytes = some (xs, rest)) : ∀ x ∈ xs, P x := by
  have hmany (count : Nat) : ∀ {bytes : Bytes} {xs : List α},
      many read count bytes = some (xs, rest) → ∀ x ∈ xs, P x := by
    induction count with
    | zero =>
      rintro bytes xs h x hx
      cases h
      cases hx
    | succ count ih =>
      intro bytes xs h
      simp only [many, Option.bind_eq_bind, Option.pure_def, Option.bind_eq_some_iff,
        Option.some.injEq, Prod.mk.injEq] at h
      obtain ⟨⟨x, _⟩, hx, ⟨ys, _⟩, hys, rfl, rfl⟩ := h
      exact List.forall_mem_cons.mpr ⟨hread hx, ih hys⟩
  simp only [readList, Option.bind_eq_bind, Option.bind_eq_some_iff] at h
  obtain ⟨⟨count, _⟩, _, h⟩ := h
  exact hmany count h

/-- A truth value is read back, whatever follows it. -/
theorem readBool_ofBool (b : Bool) (rest : Bytes) :
    readBool (ofBool b ++ rest) = some (b, rest) := by
  cases b <;> rfl

/-- A number that may be absent reads back. -/
theorem readOptional_ofOptional {number : Option Nat} (h : ∀ n ∈ number, n < 2 ^ 64)
    (rest : Bytes) : readOptional (ofOptional number ++ rest) = some (number, rest) := by
  cases number with
  | none => rfl
  | some n =>
    simp only [readOptional, ofOptional, List.cons_append, readBool, readVarint_varint (h n rfl),
      Option.bind_eq_bind, Option.bind_some, Option.pure_def]

/-- A number that is read, if it is there, has at most 64 bits. -/
theorem readOptional_lt {number : Option Nat} {bytes rest : Bytes}
    (h : readOptional bytes = some (number, rest)) : ∀ n ∈ number, n < 2 ^ 64 := by
  simp only [readOptional, Option.bind_eq_bind, Option.bind_eq_some_iff] at h
  obtain ⟨⟨present, _⟩, _, h⟩ := h
  rintro n rfl
  cases present with
  | false => cases h
  | true =>
    simp only [Option.bind_eq_some_iff, Option.pure_def, Option.some.injEq, Prod.mk.injEq] at h
    obtain ⟨⟨m, _⟩, hm, rfl, _⟩ := h
    exact readVarint_lt hm

end Bytes

/-! ## Formulas -/

/-- A comparator is found at its place. -/
theorem Comparator.all_getElem?_place (c : Comparator) : all[c.place]? = some c := by
  cases c <;> rfl

/-- The place of a comparator is written in one byte. -/
theorem Comparator.place_lt (c : Comparator) : c.place < 251 := by
  cases c <;> decide

/-- A literal reads back. -/
theorem Literal.read_bytes {l : Literal} (h : l.bytes.length < 2 ^ 64) (rest : Bytes) :
    read (l.bytes ++ rest) = some (l, rest) := by
  cases l with
  | number x =>
    have htag : Bytes.readVarint 4 (0 :: (Bytes.littleEndian 8 x.toBits ++ rest)) =
        some (0, Bytes.littleEndian 8 x.toBits ++ rest) := rfl
    have hbits := Bytes.readLittleEndian_littleEndian 8 x.toBits_lt rest
    simp only [read, bytes, List.cons_append, htag, hbits, Binary64.ofBits_toBits,
      Option.bind_eq_bind, Option.bind_some, Option.pure_def]
  | text s =>
    have htag : Bytes.readVarint 4 (1 :: (Bytes.ofText s ++ rest)) =
        some (1, Bytes.ofText s ++ rest) := rfl
    have hlength : (Bytes.ofText s).length < 2 ^ 64 := by
      rw [bytes, List.length_cons] at h
      omega
    simp only [read, bytes, List.cons_append, htag, Bytes.readText_ofText hlength,
      Option.bind_eq_bind, Option.bind_some, Option.pure_def]

/-- A condition reads back. -/
theorem Condition.read_bytes {c : Condition} (h : c.bytes.length < 2 ^ 64) (rest : Bytes) :
    read (c.bytes ++ rest) = some (c, rest) := by
  obtain ⟨path, comparator, literal⟩ := c
  simp only [bytes, List.length_append] at h
  have hpath := Bytes.readText_ofText (s := path) (by omega)
  have hliteral := Literal.read_bytes (l := literal) (by omega)
  have hplace := Bytes.readVarint_small 4 comparator.place_lt
  simp only [read, bytes, List.append_assoc, hpath, Bytes.readChoice, hplace,
    Comparator.all_getElem?_place, hliteral, Option.bind_eq_bind, Option.bind_some, Option.pure_def]

namespace Grouped

/-- The bytes of groups follow one another. -/
theorem allBytes_eq_flatMap (gs : List Grouped) : allBytes gs = gs.flatMap bytes := by
  induction gs with
  | nil => rfl
  | cons g gs ih => rw [allBytes, List.flatMap_cons, ih]

/-- Every group takes at least one byte, so that lists of groups cannot be longer than their bytes.
-/
theorem length_bytes_pos (g : Grouped) : 0 < g.bytes.length := by
  cases g with
  | condition c => exact Nat.succ_pos _
  | group op members =>
    have hplace := Bytes.length_varint_pos (groupPlace op)
    simp only [bytes, List.length_append]
    omega

/-- A group is read from its number and its members. -/
theorem readWithin_group (bound : Nat) (op : Connective) (gs : List Grouped) (rest : Bytes)
    (h : Bytes.readList (readWithin bound) (Bytes.ofList bytes gs ++ rest) = some (gs, rest)) :
    readWithin (bound + 1) ((group op gs).bytes ++ rest) = some (group op gs, rest) := by
  have htag := Bytes.readVarint_small 4 (show groupPlace op < 251 by cases op <;> decide)
    (Bytes.ofList bytes gs ++ rest)
  have hbytes : (group op gs).bytes ++ rest =
      Bytes.varint (groupPlace op) ++ (Bytes.ofList bytes gs ++ rest) := by
    simp only [bytes, Bytes.ofList, allBytes_eq_flatMap, List.append_assoc]
  rw [hbytes, readWithin, htag]
  cases op with
  | and => simp only [groupPlace, h, Option.bind_eq_bind, Option.bind_some, Option.pure_def]
  | or => simp only [groupPlace, h, Option.bind_eq_bind, Option.bind_some, Option.pure_def]

/-- A grouped form reads back within any bound that its bytes do not exceed.

**Proof sketch.** By induction over groups. The number of a group takes a byte, so the bytes of a
member are fewer than those of the group and stay within the smaller bound. -/
theorem readWithin_bytes (g : Grouped) {bound : Nat} (hbound : g.bytes.length ≤ bound)
    (hsize : g.bytes.length < 2 ^ 64) (rest : Bytes) :
    readWithin bound (g.bytes ++ rest) = some (g, rest) := by
  induction g using Grouped.induction generalizing bound rest with
  | condition c =>
    rw [bytes, List.length_cons] at hbound hsize
    obtain ⟨bound, rfl⟩ := Nat.exists_eq_add_of_lt (Nat.lt_of_lt_of_le (Nat.succ_pos _) hbound)
    have htag : Bytes.readVarint 4 (0 :: (c.bytes ++ rest)) = some (0, c.bytes ++ rest) := rfl
    have hc := Condition.read_bytes (c := c) (by omega) rest
    simp only [bytes, List.cons_append, Nat.zero_add, readWithin, htag, hc, Option.bind_eq_bind,
      Option.bind_some, Option.pure_def]
  | group op gs ih =>
    have hplace := Bytes.length_varint_pos (groupPlace op)
    rw [bytes, allBytes_eq_flatMap] at hbound hsize
    simp only [List.length_append] at hbound hsize
    obtain ⟨bound, rfl⟩ := Nat.exists_eq_add_of_lt (show 0 < bound by omega)
    rw [Nat.zero_add]
    apply readWithin_group
    apply Bytes.readList_ofList
    · have hle := Bytes.length_le_length_flatMap bytes fun g (_ : g ∈ gs) => g.length_bytes_pos
      omega
    · intro g hg rest
      have hle := Bytes.length_write_le bytes hg
      exact ih g hg (by omega) (by omega) rest

/-- **The grouped form of a formula reads back.** -/
theorem read_bytes {g : Grouped} (h : g.bytes.length < 2 ^ 64) (rest : Bytes) :
    read (g.bytes ++ rest) = some (g, rest) := by
  have hbound : g.bytes.length ≤ (g.bytes ++ rest).length := by
    rw [List.length_append]
    exact Nat.le_add_right ..
  exact g.readWithin_bytes hbound h rest

end Grouped

/-! ## Rules and counters -/

namespace Payload

/-- A rule whose numbers have at most 64 bits. -/
structure Record.Fits (r : Record) : Prop where
  id : r.id < 2 ^ 64
  number : ∀ n ∈ r.number, n < 2 ^ 64
  sources : ∀ id ∈ r.sources, id < 2 ^ 64

/-- A payload whose numbers have at most 64 bits. -/
structure Fits (p : Payload) : Prop where
  ruleCount : p.ruleCount < 2 ^ 64
  lastId : p.lastId < 2 ^ 64
  lastBase : p.lastBase < 2 ^ 64
  lastCombined : p.lastCombined < 2 ^ 64
  records : ∀ r ∈ p.records, r.Fits

/-- Every record takes at least one byte, since its id does. -/
theorem Record.length_bytes_pos (r : Record) : 0 < r.bytes.length := by
  have hid := Bytes.length_varint_pos r.id
  simp only [bytes, List.length_append]
  omega

/-- A payload holds no more rules than bytes. -/
theorem length_records_le (p : Payload) : p.records.length ≤ p.bytes.length := by
  have hle := Bytes.length_le_length_flatMap Record.bytes
    fun r (_ : r ∈ p.records) => r.length_bytes_pos
  simp only [bytes, Bytes.ofList, List.length_append]
  omega

/-- A rule reads back. -/
theorem Record.read_bytes {r : Record} (hr : r.Fits) (h : r.bytes.length < 2 ^ 64) (rest : Bytes) :
    read (r.bytes ++ rest) = some (r, rest) := by
  obtain ⟨id, text, kind, number, sources, formula⟩ := r
  have hcount := Bytes.length_le_length_flatMap Bytes.varint
    fun id (_ : id ∈ sources) => Bytes.length_varint_pos id
  simp only [bytes, Bytes.ofList, List.length_append] at h
  have htext := Bytes.readText_ofText (s := text) (by omega)
  have hsources := Bytes.readList_ofList (show sources.length < 2 ^ 64 by omega)
    fun id hid => Bytes.readVarint_varint (hr.sources id hid)
  have hformula := Grouped.read_bytes (g := formula) (by omega)
  have hkind : (if (kind == .combined) = true then RuleKind.combined else .base) = kind := by
    cases kind <;> rfl
  simp only [read, bytes, List.append_assoc, Bytes.readVarint_varint hr.id, htext,
    Bytes.readBool_ofBool, Bytes.readOptional_ofOptional hr.number, hsources, hformula, hkind,
    Option.bind_eq_bind, Option.bind_some, Option.pure_def]

/-- A rule that is read has numbers of at most 64 bits. -/
theorem Record.fits_of_read {r : Record} {bytes rest : Bytes} (h : read bytes = some (r, rest)) :
    r.Fits := by
  simp only [read, Option.bind_eq_bind, Option.pure_def, Option.bind_eq_some_iff, Option.some.injEq,
    Prod.mk.injEq] at h
  obtain ⟨⟨id, _⟩, hid, ⟨_, _⟩, _, ⟨_, _⟩, _, ⟨number, _⟩, hnumber, ⟨sources, _⟩,
    hsources, ⟨_, _⟩, _,
    rfl, _⟩ := h
  exact ⟨Bytes.readVarint_lt hid, Bytes.readOptional_lt hnumber,
    Bytes.forall_of_readList Bytes.readVarint_lt hsources⟩

/-- **A payload reads back**, and what follows it is left. -/
theorem read_bytes {p : Payload} (hp : p.Fits) (h : p.bytes.length < 2 ^ 64) (rest : Bytes) :
    read (p.bytes ++ rest) = some (p, rest) := by
  have hcount := p.length_records_le
  have hall : (p.records.flatMap Record.bytes).length ≤ p.bytes.length := by
    simp only [bytes, Bytes.ofList, List.length_append]
    omega
  have hrecord : ∀ r ∈ p.records, ∀ rest, Record.read (r.bytes ++ rest) = some (r, rest) := by
    intro r hr rest
    have hle := Bytes.length_write_le Record.bytes hr
    exact Record.read_bytes (hp.records r hr) (by omega) rest
  have hrecords := Bytes.readList_ofList (show p.records.length < 2 ^ 64 by omega) hrecord
  simp only [read, bytes, List.append_assoc, Bytes.readVarint_varint hp.ruleCount,
    Bytes.readVarint_varint hp.lastId, Bytes.readVarint_varint hp.lastBase,
    Bytes.readVarint_varint hp.lastCombined, hrecords, Option.bind_eq_bind, Option.bind_some,
    Option.pure_def]

/-- **A payload that is read has numbers of at most 64 bits.** -/
theorem fits_of_read {p : Payload} {bytes rest : Bytes} (h : read bytes = some (p, rest)) :
    p.Fits := by
  simp only [read, Option.bind_eq_bind, Option.pure_def, Option.bind_eq_some_iff, Option.some.injEq,
    Prod.mk.injEq] at h
  obtain ⟨⟨_, _⟩, hruleCount, ⟨_, _⟩, hlastId, ⟨_, _⟩, hlastBase, ⟨_, _⟩, hlastCombined, ⟨_, _⟩,
    hrecords, rfl, _⟩ := h
  exact ⟨Bytes.readVarint_lt hruleCount, Bytes.readVarint_lt hlastId, Bytes.readVarint_lt hlastBase,
    Bytes.readVarint_lt hlastCombined, Bytes.forall_of_readList Record.fits_of_read hrecords⟩

end Payload

end Eligibility
