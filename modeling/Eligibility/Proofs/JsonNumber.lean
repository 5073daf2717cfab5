import Eligibility.Json.Lexeme
import Eligibility.Proofs.Spelling
import Mathlib.Data.Nat.Init

/-!
# The text of a JSON number reads back

JSON writes a finite number with a point or an exponent, so that it is not taken for an integer, and
an integer with neither. Both are read as what they were. A zero that follows the point of a whole
number multiplies the coefficient by ten and lowers the exponent by one, which leaves the number as
it is.

## Main definitions

* `Json.Lexeme.Numeral` — a JSON number without its sign; `Numeral.WellFormed`, `Numeral.Shows`.

## Main results

* `Json.Lexeme.unsigned?_append` — a numeral is read from its characters.
* `Json.Lexeme.read?_write` — a finite number is read from its text.
* `Json.Lexeme.read?_repr` — an integer of at most 64 bits is read from its text.
-/

set_option relaxedAutoImplicit false
set_option autoImplicit false

namespace Eligibility

open Scan (StopsAt stopsAt_cons stopsAt_nil takeWhile_append_stopsAt dropWhile_append_stopsAt)

/-! ## Values -/

namespace Binary64

/-- Rounding depends on the quotient only. -/
theorem roundHalfEven_mul_right (num den : Nat) {k : Nat} (hk : 0 < k) :
    roundHalfEven (num * k) (den * k) = roundHalfEven num den := by
  have hdouble : 2 * (num % den * k) = 2 * (num % den) * k := (Nat.mul_assoc ..).symm
  simp only [roundHalfEven, Nat.mul_div_mul_right num den hk, Nat.mul_mod_mul_right, hdouble,
    Nat.mul_lt_mul_right hk, Nat.mul_left_inj (Nat.ne_of_gt hk)]

/-- The nearest number depends on the quotient only. -/
theorem nearestRank_mul_right (num den : Nat) {k : Nat} (hk : 0 < k) :
    nearestRank (num * k) (den * k) = nearestRank num den := by
  have hstep (shift : Nat) : den * k * 2 ^ shift = den * 2 ^ shift * k := Nat.mul_right_comm ..
  simp only [nearestRank, Nat.mul_div_mul_right num den hk, hstep, roundHalfEven_mul_right _ _ hk]

end Binary64

namespace Decimal

/-- A zero behind the point changes nothing. -/
theorem rank_mul_ten (coefficient : Nat) : rank ⟨coefficient * 10, -1⟩ = rank ⟨coefficient, 0⟩ := by
  by_cases hc : coefficient = 0
  · simp only [rank, hc, Nat.zero_mul, if_true]
  · have hten :=
      rank_neg (k := 1) (Nat.mul_ne_zero hc (show 10 ≠ 0 by decide)) (by decide) (by omega)
    have hone := rank_ofNat hc (Nat.zero_le 400)
    rw [Nat.pow_zero, Nat.mul_one] at hone
    have hfactor : coefficient * 10 * 2 ^ 1074 = coefficient * 2 ^ 1074 * 10 :=
      Nat.mul_right_comm ..
    rw [Nat.pow_one, hfactor, ← Nat.one_mul 10,
      Binary64.nearestRank_mul_right _ _ (by decide)] at hten
    exact hten.trans hone.symm

/-- The shortest decimal without a digit is zero. -/
theorem exponent_shortest (tie : Tie) {r : Nat} (hr : r < Binary64.infinityRank)
    (hzero : (shortest tie r).coefficient = 0) : (shortest tie r).exponent = 0 := by
  by_cases h : r = 0
  · rw [shortest, if_pos h]
  · have hread := rank_shortest tie hr
    rw [rank, if_pos hzero] at hread
    exact absurd hread.symm h

end Decimal

/-- The digits of a positive number do not start with a zero. -/
theorem exists_toDigits_of_pos {n : Nat} (h : 0 < n) :
    ∃ c cs, Nat.toDigits 10 n = c :: cs ∧ c ≠ '0' := by
  induction n using Nat.strong_induction_on with
  | _ n ih =>
    rcases Nat.lt_or_ge n 10 with hsmall | hlarge
    · have hdigit : ∀ n < 10, 0 < n → Nat.digitChar n ≠ '0' := by decide
      exact ⟨_, [], Nat.toDigits_of_lt_base hsmall, hdigit n hsmall h⟩
    · obtain ⟨c, cs, hcs, hc⟩ := ih (n / 10) (by omega) (by omega)
      rw [Nat.toDigits_of_base_le (by decide) hlarge, hcs]
      exact ⟨c, _, rfl, hc⟩

namespace Json.Lexeme

/-! ## Numerals -/

/-- The characters that a number can go on with. -/
def isNumberChar (c : Char) : Bool := c.isDigit || c = '.' || c = 'e' || c = 'E'

/-- An exponent as it is written. -/
def exponentChars (e : Int) : List Char :=
  ['e', if e < 0 then '-' else '+'] ++ Nat.toDigits 10 e.natAbs

/-- A JSON number without its sign. -/
structure Numeral where
  whole : List Char
  fraction : Option (List Char)
  exponent : Option Int

namespace Numeral

/-- The characters of a numeral. -/
def chars (n : Numeral) : List Char :=
  n.whole ++ (n.fraction.elim [] ('.' :: ·) ++ n.exponent.elim [] exponentChars)

/-- The decimal of a numeral. -/
def decimal (n : Numeral) : Decimal :=
  let d := Decimal.ofDigits n.whole (n.fraction.getD [])
  ⟨d.coefficient, d.exponent + n.exponent.getD 0⟩

/-- A numeral has digits only, at least one on each side of the point, and no zero before others. -/
structure WellFormed (n : Numeral) : Prop where
  whole : ∀ c ∈ n.whole, c.isDigit = true
  leading : n.whole = ['0'] ∨ ∃ c cs, n.whole = c :: cs ∧ c ≠ '0'
  fraction : ∀ digits ∈ n.fraction, digits ≠ [] ∧ ∀ c ∈ digits, c.isDigit = true

/-- A numeral with the given characters that is not taken for an integer and reads as a decimal. -/
structure Shows (n : Numeral) (chars : List Char) (d : Decimal) : Prop where
  wellFormed : n.WellFormed
  chars_eq : n.chars = chars
  inexact : (n.fraction.isSome || n.exponent.isSome) = true
  rank_eq : n.decimal.rank = d.rank

end Numeral

/-- What follows the fraction of a number starts with its exponent or with what follows the
number. -/
theorem stopsAt_exponent {p : Char → Bool} (hp : p 'e' = false) (e : Option Int) {rest : List Char}
    (hrest : StopsAt p rest) : StopsAt p (e.elim [] exponentChars ++ rest) := by
  cases e with
  | none => exact hrest
  | some e => exact stopsAt_cons.mpr hp

/-- Digits before a point are read up to the first character that is no digit. -/
theorem whole?_append {whole rest : List Char} (hwhole : ∀ c ∈ whole, c.isDigit = true)
    (hleading : whole = ['0'] ∨ ∃ c cs, whole = c :: cs ∧ c ≠ '0')
    (hrest : StopsAt Char.isDigit rest) : whole? (whole ++ rest) = some (whole, rest) := by
  rcases hleading with rfl | ⟨c, cs, rfl, hc⟩
  · rfl
  · unfold whole?
    split
    · rename_i heq
      exact absurd (List.cons.inj heq).1 hc
    · rw [takeWhile_append_stopsAt hwhole hrest, dropWhile_append_stopsAt hwhole hrest]
      rfl

/-- A fraction is read up to the first character that is no digit, and none where there is no point.
-/
theorem fraction?_append {fraction : Option (List Char)} {rest : List Char}
    (h : ∀ digits ∈ fraction, digits ≠ [] ∧ ∀ c ∈ digits, c.isDigit = true)
    (hdigit : StopsAt Char.isDigit rest) (hpoint : StopsAt (· = '.') rest) :
    fraction? (fraction.elim [] ('.' :: ·) ++ rest) = some (fraction, rest) := by
  cases fraction with
  | none =>
    show fraction? rest = _
    unfold fraction?
    split
    · exact absurd (stopsAt_cons.mp hpoint) (by simp)
    · rfl
  | some digits =>
    obtain ⟨hne, hdigits⟩ := h digits rfl
    show fraction? ('.' :: (digits ++ rest)) = _
    rw [fraction?, takeWhile_append_stopsAt hdigits hdigit, dropWhile_append_stopsAt hdigits hdigit,
      if_neg (by simpa using hne)]

/-- The digits of an exponent are read as the number that they spell, with its sign. -/
theorem exponentDigits?_append (negative : Bool) (size : Nat) {rest : List Char}
    (hrest : StopsAt Char.isDigit rest) :
    exponentDigits? negative (Nat.toDigits 10 size ++ rest) =
      some (some (if negative then -(size : Int) else size), rest) := by
  have hdigits : ∀ c ∈ Nat.toDigits 10 size, c.isDigit = true :=
    fun c hc => Nat.isDigit_of_mem_toDigits (by decide) (by decide) hc
  simp only [exponentDigits?, takeWhile_append_stopsAt hdigits hrest,
    dropWhile_append_stopsAt hdigits hrest, Nat.ofDigitChars_ten_toDigits]
  rw [if_neg (by simp [Nat.toDigits_ne_nil])]

/-- An exponent is read as it is written, and none where none is.

**Proof sketch.** By whether there is an exponent and by its sign. Without one, what follows does
not begin with an `e`, because that would go on in the number. -/
theorem exponent?_append (e : Option Int) {rest : List Char} (hrest : StopsAt isNumberChar rest) :
    exponent? (e.elim [] exponentChars ++ rest) = some (e, rest) := by
  cases e with
  | none =>
    cases rest with
    | nil => rfl
    | cons c rest =>
      have hc : ¬ (c = 'e' ∨ c = 'E') := by
        have hstop := stopsAt_cons.mp hrest
        simp only [isNumberChar, Bool.or_eq_false_iff, decide_eq_false_iff_not] at hstop
        exact fun h => h.elim hstop.1.2 hstop.2
      show exponent? (c :: rest) = _
      unfold exponent?
      exact if_neg hc
  | some e =>
    have hdigit : StopsAt Char.isDigit rest := hrest.mono fun c hc => by simp [isNumberChar, hc]
    by_cases hsign : e < 0
    · have hread := exponentDigits?_append true e.natAbs hdigit
      have hvalue : -(e.natAbs : Int) = e := by omega
      simp only [Option.elim, exponentChars, if_pos hsign, List.cons_append, List.nil_append,
        exponent?, true_or, if_true, hread, hvalue]
    · have hread := exponentDigits?_append false e.natAbs hdigit
      have hvalue : (e.natAbs : Int) = e := by omega
      simp only [Option.elim, exponentChars, if_neg hsign, List.cons_append, List.nil_append,
        exponent?, true_or, if_true, hread, Bool.false_eq_true, if_false, hvalue]

/-- **A numeral is read from its characters** before a text that does not go on with it. -/
theorem unsigned?_append (negative : Bool) {n : Numeral} (hn : n.WellFormed) {rest : List Char}
    (hrest : StopsAt isNumberChar rest) :
    unsigned? negative (n.chars ++ rest) =
      some (.scalar (numberValue negative n.whole n.fraction n.exponent), rest) := by
  have hdigit : StopsAt Char.isDigit (n.exponent.elim [] exponentChars ++ rest) :=
    stopsAt_exponent rfl _ (hrest.mono fun c hc => by simp [isNumberChar, hc])
  have hpoint : StopsAt (· = '.') (n.exponent.elim [] exponentChars ++ rest) :=
    stopsAt_exponent rfl _ (hrest.mono fun c hc => by simp_all [isNumberChar])
  have hwhole : StopsAt Char.isDigit
      (n.fraction.elim [] ('.' :: ·) ++ (n.exponent.elim [] exponentChars ++ rest)) := by
    cases n.fraction with
    | none => exact hdigit
    | some digits => exact stopsAt_cons.mpr rfl
  simp only [unsigned?, Numeral.chars, List.append_assoc, whole?_append hn.whole hn.leading hwhole,
    fraction?_append hn.fraction hdigit hpoint, exponent?_append n.exponent hrest,
    Option.bind_eq_bind, Option.bind_some, Option.pure_def]

/-- A numeral with a point or an exponent has the value of its decimal. -/
theorem numberValue_eq (negative : Bool) {n : Numeral}
    (h : (n.fraction.isSome || n.exponent.isSome) = true) :
    numberValue negative n.whole n.fraction n.exponent =
      finite (n.decimal.toBinary64 negative) := by
  simp only [numberValue, h, if_true]
  rfl

/-! ## The text of a number -/

section

variable {coefficient : Nat}

/-- The digits of a coefficient, which do not start with a zero unless there is only that. -/
theorem leading_toDigits (coefficient : Nat) :
    Nat.toDigits 10 coefficient = ['0'] ∨
      ∃ c cs, Nat.toDigits 10 coefficient = c :: cs ∧ c ≠ '0' := by
  rcases Nat.eq_zero_or_pos coefficient with rfl | hpos
  · exact .inl rfl
  · exact .inr (exists_toDigits_of_pos hpos)

/-- The digits of a coefficient are decimal digits. -/
theorem isDigit_toDigits : ∀ c ∈ Nat.toDigits 10 coefficient, c.isDigit = true :=
  fun _ hc => Nat.isDigit_of_mem_toDigits (by decide) (by decide) hc

/-- Digits and `e` zeros with a point and one more zero behind them.

**Proof sketch.** The zeros multiply the digits by a power of ten, and the zero behind the point by
one more, which changes no value while the number is finite. -/
theorem shows_whole (e : Nat) (hzero : coefficient = 0 → e = 0)
    (hfinite : Decimal.rank ⟨coefficient, e⟩ < Binary64.infinityRank) :
    ∃ n : Numeral, n.Shows (NumberStyle.placed true (Nat.toDigits 10 coefficient) e)
      ⟨coefficient, e⟩ := by
  refine ⟨⟨Nat.toDigits 10 coefficient ++ List.replicate e '0', some ['0'], none⟩,
    ⟨?_, ?_, by simp⟩, by simp [Numeral.chars, NumberStyle.placed], rfl, ?_⟩
  · intro c hc
    rcases List.mem_append.mp hc with hc | hc
    · exact isDigit_toDigits c hc
    · rw [List.eq_of_mem_replicate hc]
      rfl
  · rcases Nat.eq_zero_or_pos coefficient with rfl | hpos
    · rw [hzero rfl]
      exact .inl rfl
    · obtain ⟨c, cs, hcs, hc⟩ := exists_toDigits_of_pos hpos
      exact .inr ⟨c, cs ++ List.replicate e '0', by rw [hcs]; rfl, hc⟩
  · have hcoefficient : Nat.ofDigitChars 10
        (Nat.toDigits 10 coefficient ++ List.replicate e '0' ++ ['0']) 0 =
          coefficient * 10 ^ e * 10 := by
      rw [Nat.ofDigitChars_append, Nat.ofDigitChars_append, Nat.ofDigitChars_replicate_zero,
        Nat.ofDigitChars_ten_toDigits, Nat.ofDigitChars_cons]
      simp [Nat.mul_comm]
    simp only [Numeral.decimal, Decimal.ofDigits, Option.getD, hcoefficient]
    exact (Decimal.rank_mul_ten _).trans (Decimal.rank_mul_pow hfinite)

/-- Digits with a point and zeros before them.

**Proof sketch.** The zeros in front change no value, and together with the digits they are as many
as the exponent is below zero. -/
theorem shows_fraction {exponent : Int} (hwhole : ¬ 0 ≤ exponent)
    (hfraction : (Nat.toDigits 10 coefficient).length + exponent ≤ 0) :
    ∃ n : Numeral, n.Shows (NumberStyle.placed true (Nat.toDigits 10 coefficient) exponent)
      ⟨coefficient, exponent⟩ := by
  let zeros := List.replicate (-((Nat.toDigits 10 coefficient).length + exponent)).toNat '0'
  refine ⟨⟨['0'], some (zeros ++ Nat.toDigits 10 coefficient), none⟩, ⟨by simp, .inl rfl, ?_⟩, ?_,
    rfl, ?_⟩
  · rintro digits ⟨⟩
    refine ⟨by simp [Nat.toDigits_ne_nil], fun c hc => ?_⟩
    rcases List.mem_append.mp hc with hc | hc
    · rw [List.eq_of_mem_replicate hc]
      rfl
    · exact isDigit_toDigits c hc
  · simp [Numeral.chars, NumberStyle.placed, hwhole, hfraction, zeros]
  · have hexponent : -((zeros ++ Nat.toDigits 10 coefficient).length : Int) + 0 = exponent := by
      simp only [zeros, List.length_append, List.length_replicate]
      omega
    have hcoefficient :
        Nat.ofDigitChars 10 (['0'] ++ (zeros ++ Nat.toDigits 10 coefficient)) 0 = coefficient := by
      rw [← List.append_assoc, Nat.ofDigitChars_append]
      simp [zeros, Nat.ofDigitChars_cons, Nat.ofDigitChars_replicate_zero]
    simp only [Numeral.decimal, Decimal.ofDigits, Option.getD, hcoefficient, hexponent]

/-- Digits with a point among them.

**Proof sketch.** The digits are cut where the point belongs. The coefficient is that of all digits
together, and the digits behind the point count the exponent down. -/
theorem shows_mixed {exponent : Int} (hwhole : ¬ 0 ≤ exponent)
    (hfraction : ¬ (Nat.toDigits 10 coefficient).length + exponent ≤ 0) :
    ∃ n : Numeral, n.Shows (NumberStyle.placed true (Nat.toDigits 10 coefficient) exponent)
      ⟨coefficient, exponent⟩ := by
  let digits := Nat.toDigits 10 coefficient
  let whole := (digits.length + exponent).toNat
  have hwholePos : whole ≠ 0 := by
    simp only [whole, digits]
    omega
  refine ⟨⟨digits.take whole, some (digits.drop whole), none⟩,
    ⟨fun c hc => isDigit_toDigits c (List.mem_of_mem_take hc), ?_, ?_⟩, ?_, rfl, ?_⟩
  · obtain ⟨k, hk⟩ := Nat.exists_eq_succ_of_ne_zero hwholePos
    rcases leading_toDigits coefficient with hzero | ⟨c, cs, hcs, hc⟩
    · rw [hzero, List.length_singleton] at hfraction
      omega
    · exact .inr ⟨c, cs.take k, by simp only [digits, hcs, hk, List.take_succ_cons], hc⟩
  · rintro _ ⟨⟩
    refine ⟨?_, fun c hc => isDigit_toDigits c (List.mem_of_mem_drop hc)⟩
    simp only [ne_eq, List.drop_eq_nil_iff, whole, digits]
    omega
  · simp [Numeral.chars, NumberStyle.placed, hwhole, hfraction, whole, digits]
  · have hexponent : -((digits.drop whole).length : Int) + 0 = exponent := by
      rw [List.length_drop]
      simp only [whole, digits]
      omega
    simp only [Numeral.decimal, Decimal.ofDigits, Option.getD, List.take_append_drop, hexponent]
    simp only [digits, Nat.ofDigitChars_ten_toDigits]

/-- A digit with a point behind it, if more follow, and an exponent.

**Proof sketch.** The first digit stands alone before the point, and the exponent makes up for the
digits behind it. -/
theorem shows_scientific (hpos : 0 < coefficient) (exponent : Int) :
    ∃ n : Numeral, n.Shows (NumberStyle.scientific (Nat.toDigits 10 coefficient) exponent)
      ⟨coefficient, exponent⟩ := by
  obtain ⟨c, cs, hcs, hc⟩ := exists_toDigits_of_pos hpos
  have hdigits : ∀ d ∈ c :: cs, d.isDigit = true := hcs ▸ isDigit_toDigits
  have hvalue : Nat.ofDigitChars 10 (c :: cs) 0 = coefficient := by
    rw [← hcs, Nat.ofDigitChars_ten_toDigits]
  rw [hcs]
  refine ⟨⟨[c], if cs.isEmpty then none else some cs, some ((c :: cs).length - 1 + exponent)⟩,
    ⟨?_, .inr ⟨c, [], rfl, hc⟩, ?_⟩, ?_, by simp, ?_⟩
  · intro d hd
    exact hdigits d (List.mem_cons.mpr (.inl (List.mem_singleton.mp hd)))
  · intro digits hmem
    cases cs with
    | nil => cases hmem
    | cons d ds =>
      obtain rfl : d :: ds = digits := Option.some.inj hmem
      exact ⟨by simp, fun a ha => hdigits a (List.mem_cons_of_mem c ha)⟩
  · cases cs with
    | nil => simp [Numeral.chars, NumberStyle.scientific, exponentChars]
    | cons d ds => simp [Numeral.chars, NumberStyle.scientific, exponentChars]
  · have hexponent : -(cs.length : Int) + ((c :: cs).length - 1 + exponent) = exponent := by
      rw [List.length_cons]
      omega
    have hfraction : (if cs.isEmpty then none else some cs).getD [] = cs := by
      cases cs <;> rfl
    simp only [Numeral.decimal, Decimal.ofDigits, hfraction, List.singleton_append, hvalue,
      Option.getD_some, hexponent]

end

/-- **The digits of a finite number are a numeral that reads as the number.**

**Proof sketch.** By the style and by where the point stands: behind the digits, before them or
among them. -/
theorem exists_shows {r : Nat} (hr : r < Binary64.infinityRank) :
    ∃ n : Numeral, n.Shows (numberStyle.digits (.shortest .even r)) (.shortest .even r) := by
  have hread := Decimal.rank_shortest .even hr
  have hexponent := Decimal.exponent_shortest .even hr
  cases hd : Decimal.shortest .even r with
  | mk coefficient exponent =>
    rw [hd] at hread hexponent
    unfold NumberStyle.digits
    dsimp only
    split
    · by_cases hwhole : 0 ≤ exponent
      · obtain ⟨e, rfl⟩ := Int.eq_ofNat_of_zero_le hwhole
        exact shows_whole e (fun h => Int.ofNat_eq_zero.mp (hexponent h)) (by rwa [hread])
      · by_cases hfraction : (Nat.toDigits 10 coefficient).length + exponent ≤ 0
        · exact shows_fraction hwhole hfraction
        · exact shows_mixed hwhole hfraction
    · -- zero is written without an exponent, so that the digits start with another one
      rename_i hlarge
      refine shows_scientific (Nat.pos_of_ne_zero fun hzero => hlarge ?_) exponent
      obtain rfl : exponent = 0 := hexponent hzero
      rw [hzero]
      rfl

/-- A text that starts with a digit is read as a number. -/
theorem read?_of_isDigit {c : Char} {cs : List Char} (h : c.isDigit = true) :
    read? (c :: cs) = unsigned? false (c :: cs) := by
  unfold read?
  split
  case h_12 => rfl
  all_goals
    rename_i heq
    obtain ⟨rfl, -⟩ := List.cons.inj heq
    exact absurd h (by decide)

/-- A numeral is read from its characters with its sign. -/
theorem read?_numeral (negative : Bool) {n : Numeral} (hn : n.WellFormed) {rest : List Char}
    (hrest : StopsAt isNumberChar rest) :
    read? ((if negative then '-' :: n.chars else n.chars) ++ rest) =
      some (.scalar (numberValue negative n.whole n.fraction n.exponent), rest) := by
  have hread := unsigned?_append negative hn hrest
  cases negative with
  | true => exact hread
  | false =>
    obtain ⟨c, cs, hcs⟩ : ∃ c cs, n.whole = c :: cs := by
      rcases hn.leading with h | ⟨c, cs, h, _⟩
      · exact ⟨_, _, h⟩
      · exact ⟨c, cs, h⟩
    have hdigit : c.isDigit = true := hn.whole c (hcs ▸ List.mem_cons_self)
    have hchars : ∃ tail, n.chars ++ rest = c :: tail := ⟨_, by rw [Numeral.chars, hcs]; rfl⟩
    obtain ⟨tail, htail⟩ := hchars
    rw [htail] at hread
    show read? (n.chars ++ rest) = _
    rw [htail, read?_of_isDigit hdigit, hread]

/-- **A finite number is read from its text.** -/
theorem read?_write {x : Binary64} (hx : x.isFinite = true) {rest : List Char}
    (hrest : StopsAt isNumberChar rest) :
    read? ((numberStyle.write x).toList ++ rest) = some (.scalar (.number x), rest) := by
  obtain ⟨negative, rank, rank_lt⟩ := x
  have hrank : rank < Binary64.infinityRank := by simpa [Binary64.isFinite] using hx
  have hnan : Binary64.isNaN ⟨negative, rank, rank_lt⟩ = false := by
    simp [Binary64.isNaN, Nat.le_of_lt hrank]
  obtain ⟨n, hn⟩ := exists_shows hrank
  have hchars : (numberStyle.write ⟨negative, rank, rank_lt⟩).toList =
      if negative then '-' :: n.chars else n.chars := by
    rw [hn.chars_eq]
    cases negative <;> simp [NumberStyle.write, hnan, hx, numberStyle]
  have hvalue : n.decimal.toBinary64 negative = ⟨negative, rank, rank_lt⟩ := by
    simp only [Decimal.toBinary64, hn.rank_eq, Decimal.rank_shortest .even hrank, Binary64.ofRank,
      Nat.min_eq_left (Nat.le_of_lt hrank)]
  rw [hchars, read?_numeral negative hn.wellFormed hrest,
    numberValue_eq negative hn.inexact, hvalue, finite, if_pos hx]

/-- An integer of at most 64 bits, with or without a sign. -/
def IsWord (i : Int) : Prop := -2 ^ 63 ≤ i ∧ i < 2 ^ 64

/-- **An integer of at most 64 bits is read from its text.**

**Proof sketch.** By the sign. The digits of the size are a numeral without fraction and exponent,
and its value is an integer because it has at most 64 bits. -/
theorem read?_repr {i : Int} (hi : IsWord i) {rest : List Char}
    (hrest : StopsAt isNumberChar rest) :
    read? (i.repr.toList ++ rest) = some (.scalar (.integer i), rest) := by
  have hnumeral (size : Nat) : (⟨Nat.toDigits 10 size, none, none⟩ : Numeral).WellFormed :=
    ⟨isDigit_toDigits, leading_toDigits size, fun _ h => by cases h⟩
  have hchars (size : Nat) :
      (⟨Nat.toDigits 10 size, none, none⟩ : Numeral).chars = Nat.toDigits 10 size :=
    List.append_nil _
  have hcoefficient (size : Nat) :
      (Decimal.ofDigits (Nat.toDigits 10 size) ((none : Option (List Char)).getD [])).coefficient =
        size := by
    simp [Decimal.ofDigits]
  cases i with
  | ofNat size =>
    have hread := read?_numeral false (hnumeral size) hrest
    have hlt : size < 2 ^ 64 := by
      have := hi.2
      simp only [Int.ofNat_eq_natCast] at this
      omega
    simp only [hchars, numberValue, hcoefficient, hlt] at hread
    simpa [Int.repr, Nat.repr_eq_ofList_toDigits] using hread
  | negSucc size =>
    have hread := read?_numeral true (hnumeral (size + 1)) hrest
    have hle : size + 1 ≤ 2 ^ 63 := by
      have := hi.1
      omega
    simp only [hchars, numberValue, hcoefficient, hle] at hread
    simpa [Int.repr, Nat.repr_eq_ofList_toDigits, Int.negSucc_eq] using hread

end Json.Lexeme

end Eligibility
