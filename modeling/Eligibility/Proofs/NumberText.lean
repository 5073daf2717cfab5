import Eligibility.Token.Scan

/-!
# The text of a number reads back

The text that rule text has for a finite number is a numeral, and the number nearest to that numeral
is the number itself. The digits are found by a search that checks them, with the exact expansion of
the number behind it; it remains to show that the exact expansion reads back as well and that the
zeros and the point of the text do not change the decimal.

## Main definitions

* `Scan.Numeral.WellFormed` — a numeral has a digit, and digits only.
* `NumberStyle.Shows` — a numeral with the sign and the characters of a number's text.

## Main results

* `Binary64.nearestRank_units` — a number is the nearest one to its own value.
* `Decimal.rank_shortest` — the shortest decimal of a finite rank reads back.
* `NumberStyle.exists_numeral` — the plain text of a finite number is a numeral with its value.
-/

set_option relaxedAutoImplicit false
set_option autoImplicit false

namespace Eligibility

/-! ## Exact values -/

namespace Binary64

/-- A whole quotient is not rounded. -/
theorem roundHalfEven_mul (quotient : Nat) {den : Nat} (hden : 0 < den) :
    roundHalfEven (quotient * den) den = quotient := by
  have hdiv : quotient * den / den = quotient := Nat.mul_div_cancel _ hden
  have hmod : quotient * den % den = 0 := Nat.mul_mod_left ..
  simp only [roundHalfEven, hdiv, hmod]
  rw [if_pos (Or.inl (by omega))]

/-- From `2⁵²` on, a rank has a leading bit and 52 more, and a power of two as its step. -/
theorem units_eq_shift {rank : Nat} (h : 2 ^ 52 ≤ rank) :
    units rank = (2 ^ 52 + rank % 2 ^ 52) * 2 ^ (rank / 2 ^ 52 - 1) := by
  rw [units, if_neg (Nat.not_lt.mpr h)]

/-- The units of a positive rank are positive. -/
theorem units_pos {rank : Nat} (h : 0 < rank) : 0 < units rank := by
  rcases Nat.lt_or_ge rank (2 ^ 52) with hsmall | hlarge
  · rwa [units, if_pos hsmall]
  · rw [units_eq_shift hlarge]
    exact Nat.mul_pos (by omega) (Nat.two_pow_pos _)

/-- The binary logarithm of the units gives back the step of the grid. -/
theorem log2_units {rank : Nat} (h : 2 ^ 52 ≤ rank) :
    Nat.log2 (units rank) = 52 + (rank / 2 ^ 52 - 1) := by
  have hpos : units rank ≠ 0 := Nat.ne_of_gt (units_pos (by omega))
  have hstep := Nat.two_pow_pos (rank / 2 ^ 52 - 1)
  have hnext : 52 + (rank / 2 ^ 52 - 1) + 1 = 53 + (rank / 2 ^ 52 - 1) := by omega
  rw [Nat.log2_eq_iff hpos, units_eq_shift h, hnext, Nat.pow_add, Nat.pow_add]
  constructor
  · exact Nat.mul_le_mul_right _ (Nat.le_add_right ..)
  · exact Nat.mul_lt_mul_of_pos_right (by omega) hstep

/-- **A number is the nearest one to its own value.**

**Proof sketch.** The step of the grid divides the units, so nothing is rounded. Below `2⁵²` the
step is one unit. Above, the leading bit and the 52 bits after it count one block of ranks more than
the logarithm does. -/
theorem nearestRank_units {rank den : Nat} (hrank : rank < infinityRank) (hden : 0 < den) :
    nearestRank (units rank * den) den = rank := by
  have hquotient : units rank * den / den = units rank := Nat.mul_div_cancel _ hden
  simp only [nearestRank, hquotient]
  rcases Nat.lt_or_ge rank (2 ^ 52) with hsmall | hlarge
  · have hunits : units rank = rank := by rw [units, if_pos hsmall]
    have hlog : Nat.log2 rank ≤ 52 := by
      by_cases hzero : rank = 0
      · rw [hzero]
        decide
      · have := (Nat.log2_lt hzero).mpr hsmall
        omega
    rw [hunits, Nat.sub_eq_zero_of_le hlog, Nat.pow_zero, Nat.mul_one, roundHalfEven_mul _ hden]
    omega
  · have hshift : Nat.log2 (units rank) - 52 = rank / 2 ^ 52 - 1 := by
      rw [log2_units hlarge]
      omega
    have hstep : units rank * den =
        (2 ^ 52 + rank % 2 ^ 52) * (den * 2 ^ (rank / 2 ^ 52 - 1)) := by
      rw [units_eq_shift hlarge, Nat.mul_assoc, Nat.mul_comm (2 ^ _) den]
    rw [hshift, hstep, roundHalfEven_mul _ (Nat.mul_pos hden (Nat.two_pow_pos _))]
    have hblock : 1 ≤ rank / 2 ^ 52 := (Nat.le_div_iff_mul_le (by decide)).mpr (by omega)
    have hsum : (rank / 2 ^ 52 - 1) * 2 ^ 52 + (2 ^ 52 + rank % 2 ^ 52) = rank :=
      calc (rank / 2 ^ 52 - 1) * 2 ^ 52 + (2 ^ 52 + rank % 2 ^ 52)
          = (rank / 2 ^ 52 - 1 + 1) * 2 ^ 52 + rank % 2 ^ 52 := by
            rw [Nat.succ_mul, Nat.add_assoc]
        _ = rank / 2 ^ 52 * 2 ^ 52 + rank % 2 ^ 52 := by rw [Nat.sub_add_cancel hblock]
        _ = rank := Nat.div_add_mod' ..
    rw [hsum]
    exact Nat.min_eq_left (Nat.le_of_lt hrank)

end Binary64

namespace Decimal

/-- A decimal with digits behind its point is as many units as its quotient by a power of ten, where
that is not far below all numbers. -/
theorem rank_neg {coefficient k : Nat} (hc : coefficient ≠ 0) (hk : 0 < k)
    (hlow : k ≤ Nat.log2 coefficient + 400) :
    rank ⟨coefficient, -(k : Int)⟩ = Binary64.nearestRank (coefficient * 2 ^ 1074) (10 ^ k) := by
  obtain ⟨e, rfl⟩ := Nat.exists_eq_succ_of_ne_zero (Nat.ne_of_gt hk)
  have hhigh : ¬ 400 < Int.negSucc e := by omega
  have hlow : ¬ Int.negSucc e + Nat.log2 coefficient < -400 := by omega
  show rank ⟨coefficient, .negSucc e⟩ = _
  simp only [rank, if_neg hc, if_neg hhigh, if_neg hlow]

/-- A whole decimal is as many units as its value. -/
theorem rank_ofNat {coefficient e : Nat} (hc : coefficient ≠ 0) (hhigh : e ≤ 400) :
    rank ⟨coefficient, .ofNat e⟩ =
      Binary64.nearestRank (coefficient * 10 ^ e * 2 ^ 1074) 1 := by
  have hhigh : ¬ 400 < Int.ofNat e := by
    simp only [Int.ofNat_eq_natCast]
    omega
  have hlow : ¬ Int.ofNat e + Nat.log2 coefficient < -400 := by
    simp only [Int.ofNat_eq_natCast]
    omega
  simp only [rank, if_neg hc, if_neg hhigh, if_neg hlow]

/-- No number reads as a decimal above all numbers. -/
theorem exponent_le_of_rank_lt {d : Decimal} (hc : d.coefficient ≠ 0)
    (h : d.rank < Binary64.infinityRank) : d.exponent ≤ 400 := by
  by_cases hhigh : 400 < d.exponent
  · rw [rank, if_neg hc, if_pos hhigh] at h
    exact absurd h (Nat.lt_irrefl _)
  · exact Int.not_lt.mp hhigh

/-- Moving zeros from the exponent into the coefficient keeps the rank. -/
theorem rank_mul_pow {coefficient e : Nat}
    (h : rank ⟨coefficient, .ofNat e⟩ < Binary64.infinityRank) :
    rank ⟨coefficient * 10 ^ e, 0⟩ = rank ⟨coefficient, .ofNat e⟩ := by
  by_cases hc : coefficient = 0
  · simp only [rank, hc, Nat.zero_mul, if_true]
  · have he : e ≤ 400 := Int.ofNat_le.mp (exponent_le_of_rank_lt hc h)
    have hpos : coefficient * 10 ^ e ≠ 0 :=
      Nat.ne_of_gt (Nat.mul_pos (Nat.pos_of_ne_zero hc) (Nat.pow_pos (by decide)))
    have hwhole := rank_ofNat hpos (Nat.zero_le 400)
    rw [Nat.pow_zero, Nat.mul_one] at hwhole
    exact hwhole.trans (rank_ofNat hc he).symm

/-! ## The shortest decimal -/

/-- A power of five has at least as many bits as its exponent. -/
theorem two_pow_le_mul_five_pow {units : Nat} (h : 0 < units) (k : Nat) :
    2 ^ k ≤ units * 5 ^ k :=
  calc 2 ^ k ≤ 5 ^ k := Nat.pow_le_pow_left (by decide) k
    _ = 1 * 5 ^ k := (Nat.one_mul _).symm
    _ ≤ units * 5 ^ k := Nat.mul_le_mul_right _ h

/-- Powers of ten are split into those of five and of two. -/
theorem five_pow_mul_two_pow (k : Nat) : 5 ^ k * 2 ^ k = 10 ^ k := (Nat.mul_pow 5 2 k).symm

/-- Powers of ten are positive, in the form that arithmetic asks for. -/
theorem ten_pow_pos (k : Nat) : 0 < 10 ^ k := Nat.pow_pos (by decide)

/-- **The exact expansion of a number reads back.** -/
theorem rank_exact {r : Nat} (hpos : 0 < r) (hr : r < Binary64.infinityRank) :
    (exact r).rank = r := by
  have hunits := Binary64.units_pos hpos
  have hbits := two_pow_le_mul_five_pow hunits 1074
  have hc : Binary64.units r * 5 ^ 1074 ≠ 0 :=
    Nat.ne_of_gt (Nat.lt_of_lt_of_le (Nat.two_pow_pos 1074) hbits)
  have hlog : 1074 ≤ Nat.log2 (Binary64.units r * 5 ^ 1074) := (Nat.le_log2 hc).mpr hbits
  have hread := rank_neg (k := 1074) hc (by omega) (Nat.le_add_right_of_le hlog)
  rw [Nat.mul_assoc, five_pow_mul_two_pow 1074] at hread
  exact hread.trans (Binary64.nearestRank_units hr (ten_pow_pos 1074))

/-- **The shortest decimal of a finite number reads back.** -/
theorem rank_shortest (tie : Tie) {r : Nat} (hr : r < Binary64.infinityRank) :
    (shortest tie r).rank = r := by
  by_cases hzero : r = 0
  · rw [hzero]
    rfl
  · rw [shortest, if_neg hzero]
    cases hsearch : search tie r 20 (coarseExponent r) with
    | none => exact rank_exact (Nat.pos_of_ne_zero hzero) hr
    | some d => exact search_reads_back hsearch

end Decimal

/-! ## The text -/

/-- A numeral of rule text has a digit, and digits only. -/
structure Scan.Numeral.WellFormed (n : Scan.Numeral) : Prop where
  whole_ne_nil : n.whole ≠ []
  whole : ∀ c ∈ n.whole, c.isDigit = true
  fraction : ∀ c ∈ n.fraction, c.isDigit = true

namespace NumberStyle

/-! The three places of the point, as in `placed`: after zeros behind the digits, after zeros before
them, and among them. -/

/-- The numeral has the sign and the characters, and denotes the decimal. -/
structure Shows (n : Scan.Numeral) (negative : Bool) (chars : List Char) (d : Decimal) : Prop where
  wellFormed : n.WellFormed
  negative_eq : n.negative = negative
  chars_eq : (if negative then ['-'] else []) ++ chars = n.chars
  ofDigits_eq : Decimal.ofDigits n.whole n.fraction = d

section

variable {digits : List Char} (hdigits : ∀ c ∈ digits, c.isDigit = true) (hne : digits ≠ [])
  (negative : Bool)
include hdigits hne

/-- Digits with a point behind them and `e` zeros. -/
theorem exists_numeral_whole (e : Nat) :
    ∃ n, Shows n negative (placed false digits e)
      ⟨Nat.ofDigitChars 10 digits 0 * 10 ^ e, 0⟩ := by
  refine ⟨⟨negative, digits ++ List.replicate e '0', []⟩, ⟨by simp [hne], ?_, by simp⟩, rfl, ?_, ?_⟩
  · intro c hc
    rcases List.mem_append.mp hc with hc | hc
    · exact hdigits c hc
    · rw [List.eq_of_mem_replicate hc]
      decide
  · simp [Scan.Numeral.chars, placed]
  · have hzeros : Nat.ofDigitChars 10 (digits ++ List.replicate e '0') 0 =
        Nat.ofDigitChars 10 digits 0 * 10 ^ e := by
      rw [Nat.ofDigitChars_append, Nat.ofDigitChars_replicate_zero, Nat.mul_comm]
    simp only [Decimal.ofDigits, List.append_nil, hzeros]
    rfl

/-- Digits with a point and zeros before them.

**Proof sketch.** The zeros in front change no value, and together with the digits they are as many
as the exponent is below zero. -/
theorem exists_numeral_fraction {exponent : Int} (hwhole : ¬ 0 ≤ exponent)
    (hfraction : digits.length + exponent ≤ 0) :
    ∃ n, Shows n negative (placed false digits exponent)
      ⟨Nat.ofDigitChars 10 digits 0, exponent⟩ := by
  let zeros := List.replicate (-(digits.length + exponent)).toNat '0'
  refine ⟨⟨negative, ['0'], zeros ++ digits⟩, ⟨by simp, by simp, ?_⟩, rfl, ?_, ?_⟩
  · intro c hc
    rcases List.mem_append.mp hc with hc | hc
    · rw [List.eq_of_mem_replicate hc]
      decide
    · exact hdigits c hc
  · simp [Scan.Numeral.chars, placed, hwhole, hfraction, hne, zeros]
  · have hexponent : -((zeros ++ digits).length : Int) = exponent := by
      simp only [zeros, List.length_append, List.length_replicate]
      omega
    have hzeros : Nat.ofDigitChars 10 (['0'] ++ (zeros ++ digits)) 0 =
        Nat.ofDigitChars 10 digits 0 := by
      rw [← List.append_assoc, Nat.ofDigitChars_append]
      simp [zeros, Nat.ofDigitChars_cons, Nat.ofDigitChars_replicate_zero]
    simp only [Decimal.ofDigits, hzeros, hexponent]

/-- Digits with a point among them.

**Proof sketch.** The digits are cut where the point belongs, and the two parts together have the
value of all digits. -/
theorem exists_numeral_mixed {exponent : Int} (hwhole : ¬ 0 ≤ exponent)
    (hfraction : ¬ digits.length + exponent ≤ 0) :
    ∃ n, Shows n negative (placed false digits exponent)
      ⟨Nat.ofDigitChars 10 digits 0, exponent⟩ := by
  let whole := (digits.length + exponent).toNat
  refine ⟨⟨negative, digits.take whole, digits.drop whole⟩, ⟨?_, ?_, ?_⟩, rfl, ?_, ?_⟩
  · simp only [ne_eq, List.take_eq_nil_iff, hne, or_false]
    omega
  · exact fun c hc => hdigits c (List.mem_of_mem_take hc)
  · exact fun c hc => hdigits c (List.mem_of_mem_drop hc)
  · have hdrop : digits.drop whole ≠ [] := by
      simp only [ne_eq, List.drop_eq_nil_iff]
      omega
    simp [Scan.Numeral.chars, placed, hwhole, hfraction, hdrop, whole]
  · have hexponent : -((digits.drop whole).length : Int) = exponent := by
      rw [List.length_drop]
      omega
    simp only [Decimal.ofDigits, List.take_append_drop, hexponent]

end

/-- The digits and the point of a decimal are a numeral that denotes the decimal's number.

**Proof sketch.** By where the point stands: behind the digits, before them or among them. -/
theorem exists_numeral_placed (negative : Bool) {d : Decimal}
    (h : d.rank < Binary64.infinityRank) :
    ∃ n e, Shows n negative (placed false (Nat.toDigits 10 d.coefficient) d.exponent) e ∧
      e.rank = d.rank := by
  obtain ⟨coefficient, exponent⟩ := d
  have hdigits : ∀ c ∈ Nat.toDigits 10 coefficient, c.isDigit = true :=
    fun c hc => Nat.isDigit_of_mem_toDigits (by decide) (by decide) hc
  have hne : Nat.toDigits 10 coefficient ≠ [] := Nat.toDigits_ne_nil
  have hvalue : Nat.ofDigitChars 10 (Nat.toDigits 10 coefficient) 0 = coefficient :=
    Nat.ofDigitChars_ten_toDigits
  by_cases hwhole : 0 ≤ exponent
  · obtain ⟨e, rfl⟩ := Int.eq_ofNat_of_zero_le hwhole
    obtain ⟨n, hn⟩ := exists_numeral_whole hdigits hne negative e
    rw [hvalue] at hn
    exact ⟨n, _, hn, Decimal.rank_mul_pow h⟩
  · by_cases hfraction : (Nat.toDigits 10 coefficient).length + exponent ≤ 0
    · obtain ⟨n, hn⟩ := exists_numeral_fraction hdigits hne negative hwhole hfraction
      rw [hvalue] at hn
      exact ⟨n, _, hn, rfl⟩
    · obtain ⟨n, hn⟩ := exists_numeral_mixed hdigits hne negative hwhole hfraction
      rw [hvalue] at hn
      exact ⟨n, _, hn, rfl⟩

/-- **The plain text of a finite number is a numeral with its value.** -/
theorem exists_numeral {x : Binary64} (hx : x.isFinite = true) :
    ∃ n : Scan.Numeral, n.WellFormed ∧ (plain.write x).toList = n.chars ∧ n.value = x := by
  obtain ⟨negative, rank, rank_lt⟩ := x
  have hrank : rank < Binary64.infinityRank := by simpa [Binary64.isFinite] using hx
  have hnan : Binary64.isNaN ⟨negative, rank, rank_lt⟩ = false := by
    simp [Binary64.isNaN, Nat.le_of_lt hrank]
  have hread := Decimal.rank_shortest .up hrank
  obtain ⟨n, e, hn, hvalue⟩ :=
    exists_numeral_placed negative (d := Decimal.shortest .up rank) (by rwa [hread])
  refine ⟨n, hn.wellFormed, ?_, ?_⟩
  · rw [← hn.chars_eq]
    cases negative <;> simp [write, hnan, hx, plain, digits]
  · simp only [Scan.Numeral.value, Decimal.toBinary64, hn.ofDigits_eq, hvalue, hread,
      hn.negative_eq, Binary64.ofRank, Nat.min_eq_left (Nat.le_of_lt hrank)]

end NumberStyle

end Eligibility
