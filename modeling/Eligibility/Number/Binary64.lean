/-!
# Double-precision numbers

Literals of rules and attributes of data are numbers of the binary64 format. A number is kept as its
sign and its *rank*, which counts the steps from zero to its absolute value along the format's own
grid. Ranks make order and neighbours plain: the next larger number has the next rank, and the
fields of the format are a quotient and a remainder of it.

Absolute values are measured in *units* of `2⁻¹⁰⁷⁴`, the smallest positive number, so that every
finite number is a natural number of units and all arithmetic here is exact.

## Main definitions

* `Binary64` — a number, as sign and rank; `Binary64.ofBits`, `Binary64.toBits` — its 64 bits.
* `Binary64.units` — the absolute value of a finite rank in units.
* `Binary64.nearestRank` — the rank nearest to a quotient of units, ties to even.
* `Binary64.lt`, `Binary64.le`, `Binary64.numEq` — comparison as numbers, false on a NaN.

## Implementation notes

Equality of the type is identity of the bits: it tells the two zeros and the NaNs apart. Equality as
numbers is `Binary64.numEq`.

The sizes of words and the steps of the grid are powers of two with literal exponents. The attribute
below reads them as powers of the core library here and in the modules that build on this one, also
beside a library that brings powers of its own to the natural numbers.
-/

set_option relaxedAutoImplicit false
set_option autoImplicit false

attribute [instance (2000), default_instance (20000)] instPowNat

namespace Eligibility

/-- A double-precision number: the ranks below `Binary64.infinityRank` are the finite absolute
values in increasing order, starting at zero, and the ranks above it are NaNs. -/
structure Binary64 where
  /-- Whether the sign bit is set. -/
  negative : Bool
  /-- The position of the absolute value on the format's grid. -/
  rank : Nat
  rank_lt : rank < 2 ^ 63
deriving DecidableEq

namespace Binary64

/-! ## Bits -/

/-- The number with the given 64 bits, the sign first. -/
def ofBits (bits : Nat) : Binary64 :=
  ⟨2 ^ 63 ≤ bits % 2 ^ 64, bits % 2 ^ 63, Nat.mod_lt _ (by decide)⟩

/-- The 64 bits of a number, the sign first. -/
def toBits (x : Binary64) : Nat :=
  (if x.negative then 2 ^ 63 else 0) + x.rank

/-- The bits of a number are 64. -/
theorem toBits_lt (x : Binary64) : x.toBits < 2 ^ 64 := by
  have := x.rank_lt
  unfold toBits
  split <;> omega

/-- A number is read back from its bits, a NaN and the sign of a zero included. -/
theorem ofBits_toBits (x : Binary64) : ofBits x.toBits = x := by
  obtain ⟨negative, rank, rank_lt⟩ := x
  cases negative <;> simp only [ofBits, toBits, Binary64.mk.injEq, decide_eq_true_eq,
    decide_eq_false_iff_not, Bool.false_eq_true, if_true, if_false] <;> omega

/-! ## Classes -/

/-- The rank of infinity. -/
def infinityRank : Nat := 2047 * 2 ^ 52

/-- Whether the number is a NaN. -/
def isNaN (x : Binary64) : Bool := infinityRank < x.rank

/-- Whether the number is neither infinite nor a NaN. -/
def isFinite (x : Binary64) : Bool := x.rank < infinityRank

/-- The number with the given sign and rank, infinity standing for every larger rank. -/
def ofRank (negative : Bool) (rank : Nat) : Binary64 :=
  ⟨negative, min rank infinityRank, Nat.lt_of_le_of_lt (Nat.min_le_right ..) (by decide)⟩

/-- The number zero with a positive sign. -/
def zero : Binary64 := ofRank false 0

/-- A number that is none, with the least payload. -/
def nan : Binary64 := ⟨false, 0x7ff8000000000000, by decide⟩

/-! ## Comparison as numbers -/

/-- The signed rank: it orders the numbers and is the same for both zeros. -/
def order (x : Binary64) : Int :=
  if x.negative then -(x.rank : Int) else x.rank

/-- Whether `x` is less than `y`. -/
def lt (x y : Binary64) : Bool :=
  !x.isNaN && !y.isNaN && decide (x.order < y.order)

/-- Whether `x` is at most `y`. -/
def le (x y : Binary64) : Bool :=
  !x.isNaN && !y.isNaN && decide (x.order ≤ y.order)

/-- Whether `x` and `y` are the same number: the two zeros are, a NaN equals nothing. -/
def numEq (x y : Binary64) : Bool :=
  !x.isNaN && !y.isNaN && decide (x.order = y.order)

/-! ## Absolute values -/

/-- The absolute value of a finite rank, in units of `2⁻¹⁰⁷⁴`. Below `2⁵³` the grid is the units
themselves, and its step doubles every `2⁵²` ranks after that. -/
def units (rank : Nat) : Nat :=
  if rank < 2 ^ 52 then rank
  else (2 ^ 52 + rank % 2 ^ 52) * 2 ^ (rank / 2 ^ 52 - 1)

/-- The integer nearest to `num / den`, a half going to the even neighbour. -/
def roundHalfEven (num den : Nat) : Nat :=
  let quotient := num / den
  let remainder := num % den
  if 2 * remainder < den ∨ (2 * remainder = den ∧ quotient % 2 = 0) then quotient
  else quotient + 1

/-- The rank nearest to `num / den` units, a half going to the even rank, and infinity from half a
step above the largest finite number on. The step of the grid at the quotient is `2 ^ shift`
units. -/
def nearestRank (num den : Nat) : Nat :=
  let shift := Nat.log2 (num / den) - 52
  min (shift * 2 ^ 52 + roundHalfEven num (den * 2 ^ shift)) infinityRank

/-- The number nearest to an integer. -/
def ofInt (i : Int) : Binary64 :=
  ofRank (decide (i < 0)) (nearestRank (i.natAbs * 2 ^ 1074) 1)

/-- The integer nearest to the absolute value of a finite number, a half going up. -/
def roundedMagnitude (x : Binary64) : Nat :=
  (2 * units x.rank + 2 ^ 1074) / 2 ^ 1075

end Binary64

end Eligibility
