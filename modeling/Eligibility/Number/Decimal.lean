import Eligibility.Number.Binary64

/-!
# Decimals and the numbers they denote

A decimal is a natural coefficient times a power of ten. Reading one gives the double-precision
number nearest to it, a half going to the even neighbour. Writing a number starts from the shortest
decimal that reads back as it: on the coarsest decimal grid that has such a point, the point nearest
to the number.

## Main definitions

* `Decimal` — a coefficient and an exponent of ten; `Decimal.ofDigits` — from digit characters.
* `Decimal.rank` — the rank of the nearest number.
* `Decimal.shortest` — the shortest decimal that reads back as a given rank.

## Main results

* `Decimal.search_reads_back` — what the search for a shortest decimal finds reads back.

## Implementation notes

A coefficient that is not zero is at least one and less than a power of ten no larger than its bit
length, so exponents beyond `±400` give infinity or zero without the power being computed. Seventeen
significant digits always suffice, so the search never runs out of grids; the exact expansion stands
behind it to make `Decimal.shortest` total.
-/

set_option relaxedAutoImplicit false
set_option autoImplicit false

namespace Eligibility

/-- The decimal `coefficient · 10 ^ exponent`. -/
structure Decimal where
  coefficient : Nat
  exponent : Int
deriving DecidableEq

/-- Which of two equally near decimals is taken. -/
inductive Tie where
  /-- The larger one. -/
  | up
  /-- The one whose last digit is even. -/
  | even
deriving DecidableEq

namespace Decimal

/-! ## Reading -/

/-- The decimal with the given digits before and after its point. -/
def ofDigits (whole fraction : List Char) : Decimal :=
  ⟨Nat.ofDigitChars 10 (whole ++ fraction) 0, -(fraction.length : Int)⟩

/-- The rank of the double-precision number nearest to a decimal. -/
def rank (d : Decimal) : Nat :=
  if d.coefficient = 0 then 0
  else if 400 < d.exponent then Binary64.infinityRank
  else if d.exponent + Nat.log2 d.coefficient < -400 then 0
  else match d.exponent with
    | .ofNat e => Binary64.nearestRank (d.coefficient * 10 ^ e * 2 ^ 1074) 1
    | .negSucc e => Binary64.nearestRank (d.coefficient * 2 ^ 1074) (10 ^ (e + 1))

/-- The double-precision number nearest to a decimal with a sign. -/
def toBinary64 (negative : Bool) (d : Decimal) : Binary64 :=
  Binary64.ofRank negative d.rank

/-! ## The shortest decimal -/

/-- The value of a rank as a quotient of natural numbers, measured in steps of `10 ^ exponent`. -/
def inSteps (exponent : Int) (rank : Nat) : Nat × Nat :=
  (Binary64.units rank * 10 ^ (-exponent).toNat, 2 ^ 1074 * 10 ^ exponent.toNat)

/-- The point of the grid `10 ^ exponent` nearest to the value of `rank` among its two neighbours
there that read back as `rank`. -/
def onGrid? (tie : Tie) (rank : Nat) (exponent : Int) : Option Decimal :=
  let (num, den) := inSteps exponent rank
  let below : Decimal := ⟨num / den, exponent⟩
  let above : Decimal := ⟨num / den + 1, exponent⟩
  let remainder := num % den
  let aboveIsNearer := den < 2 * remainder ∨
    (den = 2 * remainder ∧ (tie = .up ∨ below.coefficient % 2 = 1))
  if below.rank = rank ∧ above.rank = rank then
    some (if aboveIsNearer then above else below)
  else if below.rank = rank then some below
  else if above.rank = rank then some above
  else none

/-- The first grid with a point that reads back, of `steps` grids of decreasing coarseness. -/
def search (tie : Tie) (rank : Nat) : (steps : Nat) → (exponent : Int) → Option Decimal
  | 0, _ => none
  | steps + 1, exponent =>
    (onGrid? tie rank exponent).or (search tie rank steps (exponent - 1))

/-- The decimal of exactly the value of a finite rank. -/
def exact (rank : Nat) : Decimal :=
  ⟨Binary64.units rank * 5 ^ 1074, -1074⟩

/-- A grid coarser than the value of a positive finite rank: the power of ten at or just above the
value is at most two grids finer. -/
def coarseExponent (rank : Nat) : Int :=
  ((Nat.log2 (Binary64.units rank) : Int) - 1074) * 30103 / 100000 + 2

/-- The shortest decimal that reads back as a finite rank, and of the shortest the nearest. -/
def shortest (tie : Tie) (rank : Nat) : Decimal :=
  if rank = 0 then ⟨0, 0⟩
  else (search tie rank 20 (coarseExponent rank)).getD (exact rank)

/-- A decimal that is accepted on a grid is read back as the number that it stands for. -/
theorem onGrid?_reads_back {tie : Tie} {rank : Nat} {exponent : Int} {d : Decimal}
    (h : onGrid? tie rank exponent = some d) : d.rank = rank := by
  simp only [onGrid?] at h
  split at h
  · rename_i both
    split at h <;> injection h with h <;> subst h
    · exact both.2
    · exact both.1
  · split at h
    · injection h with h
      subst h
      assumption
    · split at h
      · injection h with h
        subst h
        assumption
      · cases h

/-- The search for a decimal ends with one that is read back, on whichever grid it ends. -/
theorem search_reads_back {tie : Tie} {rank steps : Nat} {exponent : Int} {d : Decimal}
    (h : search tie rank steps exponent = some d) : d.rank = rank := by
  induction steps generalizing exponent with
  | zero => cases h
  | succ steps ih =>
    rw [search, Option.or_eq_some_iff] at h
    rcases h with h | ⟨_, h⟩
    · exact onGrid?_reads_back h
    · exact ih h

end Decimal

end Eligibility
