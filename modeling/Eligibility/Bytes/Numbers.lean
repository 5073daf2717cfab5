import Eligibility.Number.Binary64

/-!
# Numbers in bytes

Numbers are written with the lowest byte first, at a fixed width or at the shortest of several. A
reader takes bytes from the front and returns what is left.

## Main definitions

* `Bytes`, `Bytes.Reader` — byte strings and what reads them from the front.
* `Bytes.littleEndian`, `Bytes.ofLittleEndian` — a number at a fixed width.
* `Bytes.varint`, `Bytes.readVarint` — a number at the shortest width that fits.
-/

set_option relaxedAutoImplicit false
set_option autoImplicit false

namespace Eligibility

/-- A byte string. -/
abbrev Bytes := List UInt8

namespace Bytes

/-- Reads a value from the front of a byte string and returns the bytes after it. -/
abbrev Reader (α : Type) := Bytes → Option (α × Bytes)

/-- The first `count` bytes. -/
def take? : (count : Nat) → Reader Bytes
  | 0, bytes => some ([], bytes)
  | _ + 1, [] => none
  | count + 1, b :: bytes => (take? count bytes).map fun (taken, rest) => (b :: taken, rest)

/-- As many values as `count` says. -/
def many {α : Type} (read : Reader α) : (count : Nat) → Reader (List α)
  | 0, bytes => some ([], bytes)
  | count + 1, bytes => do
    let (x, bytes) ← read bytes
    let (xs, bytes) ← many read count bytes
    return (x :: xs, bytes)

/-! ## Fixed width -/

/-- The lowest `count` bytes of a number, the lowest first. -/
def littleEndian : (count : Nat) → Nat → Bytes
  | 0, _ => []
  | count + 1, n => UInt8.ofNat n :: littleEndian count (n / 256)

/-- The number with the given bytes, the lowest first. -/
def ofLittleEndian : Bytes → Nat
  | [] => 0
  | b :: bytes => b.toNat + 256 * ofLittleEndian bytes

/-- The number in the first `count` bytes. -/
def readLittleEndian (count : Nat) : Reader Nat := fun bytes =>
  (take? count bytes).map fun (taken, rest) => (ofLittleEndian taken, rest)

/-- A number takes exactly the bytes that it is given. -/
theorem length_littleEndian (count n : Nat) : (littleEndian count n).length = count := by
  induction count generalizing n with
  | zero => rfl
  | succ count ih => simp [littleEndian, ih]

/-- A number that is small enough for its bytes is read back from them. -/
theorem ofLittleEndian_littleEndian {count n : Nat} (h : n < 256 ^ count) :
    ofLittleEndian (littleEndian count n) = n := by
  induction count generalizing n with
  | zero =>
    simp only [Nat.pow_zero, Nat.lt_one_iff] at h
    simp [littleEndian, ofLittleEndian, h]
  | succ count ih =>
    have small : n / 256 < 256 ^ count := by
      rw [Nat.pow_succ] at h
      exact Nat.div_lt_of_lt_mul (by omega)
    simp only [littleEndian, ofLittleEndian, ih small, UInt8.toNat_ofNat']
    omega

/-- Bytes are taken from the front, whatever follows them. -/
theorem take?_append (taken rest : Bytes) :
    take? taken.length (taken ++ rest) = some (taken, rest) := by
  induction taken with
  | nil => rfl
  | cons b taken ih => simp [take?, ih]

/-- A number is read back at a fixed width. -/
theorem readLittleEndian_littleEndian (count : Nat) {n : Nat} (h : n < 256 ^ count) (rest : Bytes) :
    readLittleEndian count (littleEndian count n ++ rest) = some (n, rest) := by
  have taken := take?_append (littleEndian count n) rest
  rw [length_littleEndian] at taken
  simp only [readLittleEndian, taken, Option.map_some, ofLittleEndian_littleEndian h]

/-! ## Shortest width -/

/-- A number below `2 ^ 64` in one byte if it is below 251, and otherwise in two, four or eight
bytes behind a byte that says how many. -/
def varint (n : Nat) : Bytes :=
  if n < 251 then [UInt8.ofNat n]
  else if n < 2 ^ 16 then 251 :: littleEndian 2 n
  else if n < 2 ^ 32 then 252 :: littleEndian 4 n
  else 253 :: littleEndian 8 n

/-- The number that `varint` writes, at any width up to `width` bytes. -/
def readVarint (width : Nat) : Reader Nat
  | [] => none
  | b :: bytes =>
    if b < 251 then some (b.toNat, bytes)
    else if b = 251 ∧ 2 ≤ width then readLittleEndian 2 bytes
    else if b = 252 ∧ 4 ≤ width then readLittleEndian 4 bytes
    else if b = 253 ∧ 8 ≤ width then readLittleEndian 8 bytes
    else none

/-- Reading a number back leaves the bytes after it. -/
theorem readVarint_varint {n : Nat} (h : n < 2 ^ 64) (rest : Bytes) :
    readVarint 8 (varint n ++ rest) = some (n, rest) := by
  unfold varint
  split
  · rename_i small
    have value : (UInt8.ofNat n).toNat = n := by simp only [UInt8.toNat_ofNat']; omega
    have below : UInt8.ofNat n < 251 := by
      rw [UInt8.lt_iff_toNat_lt, value]
      exact small
    simp [readVarint, below, value]
  · split
    · simp only [List.cons_append, readVarint]
      exact readLittleEndian_littleEndian 2 (by omega) rest
    · split
      · simp only [List.cons_append, readVarint]
        exact readLittleEndian_littleEndian 4 (by omega) rest
      · simp only [List.cons_append, readVarint]
        exact readLittleEndian_littleEndian 8 (by omega) rest

end Bytes

end Eligibility
