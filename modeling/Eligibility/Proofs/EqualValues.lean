import Eligibility.Evaluation
import Eligibility.Proofs.RelatedPaths

/-!
# Equal values in the eyes of a formula

Values can be equal without being the same: the two zeros are one number and have two texts, `0` and
`-0`. All other equal values are the same, and a comparison of numbers does not tell the zeros
apart. So contexts that hold equal values give equal formulas the same truth, unless a condition
asks whether a zero is written as the quoted text of one of the zeros.

## Main definitions

* `Context.Same` — two contexts that hold equal values at every path.
* `Value.OppositeZeros` — two zeros of different sign.
* `Condition.TellsZeros` — a condition that looks for the text of a zero where two contexts hold
  zeros of different sign.

## Main results

* `Value.same_iff` — equal values are the same or zeros of different sign.
* `Value.satisfies_eq_iff` — when equal values pass the same tests.
* `Formula.eval_of_same` — equal contexts give equal formulas the same truth where no condition
  tells zeros apart, and a condition differs in truth exactly where it does.
* `Formula.quoted_zero_differs` — such a condition exists.
-/

set_option relaxedAutoImplicit false
set_option autoImplicit false

namespace Eligibility

/-! ## Numbers -/

namespace Binary64

variable {x y : Binary64}

/-- Numbers are equal if neither is a NaN and they stand at the same place in the order. -/
theorem numEq_iff : x.numEq y = true ↔ x.isNaN = false ∧ y.isNaN = false ∧ x.order = y.order := by
  simp [numEq, and_assoc]

/-- Numbers have the same place in the order when they are the same or both zeros. -/
theorem order_eq_iff : x.order = y.order ↔ x = y ∨ x.rank = 0 ∧ y.rank = 0 := by
  obtain ⟨negative, rank, rank_lt⟩ := x
  obtain ⟨negative', rank', rank_lt'⟩ := y
  cases negative <;> cases negative' <;> simp [order] <;> omega

/-- There is one zero of each sign. -/
theorem eq_of_zeros (hx : x.rank = 0) (hy : y.rank = 0) (h : x.negative = y.negative) : x = y := by
  cases x
  cases y
  simp_all

end Binary64

/-- Comparison of numbers does not tell equal numbers apart. -/
theorem Comparator.holds_congr {x x' y y' : Binary64} (hx : x.numEq x' = true)
    (hy : y.numEq y' = true) (comparator : Comparator) :
    comparator.holds x y = comparator.holds x' y' := by
  obtain ⟨hnan, hnan', horder⟩ := Binary64.numEq_iff.mp hx
  obtain ⟨hynan, hynan', hyorder⟩ := Binary64.numEq_iff.mp hy
  cases comparator <;>
    simp only [holds, Binary64.lt, Binary64.le, Binary64.numEq, hnan, hnan', hynan, hynan', horder,
      hyorder]

/-! ## Values -/

namespace Value

variable {v w : Value}

/-- Two zeros of different sign. -/
def OppositeZeros : Value → Value → Prop
  | number x, number y => x.rank = 0 ∧ y.rank = 0 ∧ x.negative ≠ y.negative
  | _, _ => False

/-- Whether two values are zeros of different sign can be told from their bits. -/
instance : DecidableRel OppositeZeros
  | number x, number y => inferInstanceAs (Decidable (x.rank = 0 ∧ y.rank = 0 ∧ _))
  | number _, bool _ | number _, text _ | bool _, _ | text _, _ => inferInstanceAs (Decidable False)

/-- **Equal values are the same or zeros of different sign**, and only a NaN is the same and not
equal.

**Proof sketch.** By the kinds of the two values. Numbers are equal when their places in the order
are, which two different numbers share only if both are zero. -/
theorem same_iff : v.same w = true ↔
    (v = w ∧ ∀ x, v = number x → x.isNaN = false) ∨ v.OppositeZeros w := by
  cases v with
  | bool a => cases w <;> simp [same, OppositeZeros]
  | text s => cases w <;> simp [same, OppositeZeros]
  | number x =>
    cases w with
    | bool b => simp [same, OppositeZeros]
    | text t => simp [same, OppositeZeros]
    | number y =>
      have hzero {z : Binary64} (h : z.rank = 0) : z.isNaN = false := by
        simp [Binary64.isNaN, h]
      rw [same, Binary64.numEq_iff, Binary64.order_eq_iff]
      simp only [OppositeZeros, number.injEq, forall_eq']
      constructor
      · rintro ⟨hx, -, rfl | ⟨hrank, hrank'⟩⟩
        · exact .inl ⟨rfl, hx⟩
        · by_cases hsign : x.negative = y.negative
          · exact .inl ⟨Binary64.eq_of_zeros hrank hrank' hsign, hx⟩
          · exact .inr ⟨hrank, hrank', hsign⟩
      · rintro (⟨rfl, hx⟩ | ⟨hrank, hrank', -⟩)
        · exact ⟨hx, hx, .inl rfl⟩
        · exact ⟨hzero hrank, hzero hrank', .inr ⟨hrank, hrank'⟩⟩

/-- The texts of the two zeros. -/
theorem textForm_zero {x : Binary64} (h : x.rank = 0) :
    (number x).textForm = if x.negative then "-0" else "0" := by
  have hpositive : (number ⟨false, 0, by decide⟩).textForm = "0" := by decide +kernel
  have hnegative : (number ⟨true, 0, by decide⟩).textForm = "-0" := by decide +kernel
  obtain ⟨negative, rank, rank_lt⟩ := x
  obtain rfl : rank = 0 := h
  cases negative with
  | false => exact hpositive
  | true => exact hnegative

/-- Zeros of different sign have the two texts between them. -/
theorem OppositeZeros.textForm (h : v.OppositeZeros w) :
    v.textForm = "0" ∧ w.textForm = "-0" ∨ v.textForm = "-0" ∧ w.textForm = "0" := by
  match v, w, h with
  | number x, number y, ⟨hx, hy, hsign⟩ =>
    rw [textForm_zero hx, textForm_zero hy, Bool.eq_not_of_ne hsign]
    cases y.negative with
    | false => exact .inr ⟨rfl, rfl⟩
    | true => exact .inl ⟨rfl, rfl⟩

/-- Equal values pass the same tests against numbers. -/
theorem satisfies_number {x y : Binary64} (hvalue : v.same w = true) (hliteral : x.numEq y = true)
    (comparator : Comparator) :
    v.satisfies comparator (.number x) = w.satisfies comparator (.number y) := by
  cases v <;> cases w <;> simp only [same, Bool.false_eq_true] at hvalue
  case number.number => exact Comparator.holds_congr hvalue hliteral comparator
  all_goals rfl

/-- **When equal values pass the same tests**: always, unless they are zeros of different sign and
the test asks for the text of a zero.

**Proof sketch.** By cases on the two literals. Numbers are compared by their order, in which zeros
of different sign are equal. For a text the text of the value counts, and equal values have
different texts only if they are such zeros. -/
theorem satisfies_eq_iff {comparator : Comparator} {l m : Literal} (hvalue : v.same w = true)
    (hliteral : l.same m = true) :
    v.satisfies comparator l = w.satisfies comparator m ↔
      ¬ (comparator = .equal ∧ (l = .text "0" ∨ l = .text "-0") ∧ v.OppositeZeros w) := by
  cases l with
  | number x =>
    cases m with
    | text t => cases hliteral
    | number y => simp [satisfies_number hvalue hliteral comparator]
  | text s =>
    cases m with
    | number y => cases hliteral
    | text t =>
      obtain rfl : s = t := beq_iff_eq.mp hliteral
      -- the texts are compared, and only zeros of different sign are equal with different texts
      rcases same_iff.mp hvalue with ⟨rfl, hnan⟩ | hzeros
      · have hself : ¬ v.OppositeZeros v := by
          cases v <;> simp [OppositeZeros]
        simp [hself]
      · simp only [satisfies, hzeros, and_true, Literal.text.injEq]
        by_cases hequal : comparator = .equal
        · rcases hzeros.textForm with ⟨hv, hw⟩ | ⟨hv, hw⟩
          · grind
          · grind
        · simp [hequal, beq_false_of_ne hequal]

end Value

/-! ## Contexts and formulas -/

namespace Context

/-- Two contexts that hold equal values at every path: nothing in both, or values that are equal. -/
def Same (ctx ctx' : Context) : Prop :=
  ∀ path, Option.Rel (fun v w => v.same w = true) (ctx.get? path) (ctx'.get? path)

/-- Contexts without attributes are the same. -/
theorem same_empty : empty.Same empty := by
  intro path
  rw [get?_empty]
  exact .none

/-- Equal writes keep contexts equal. -/
theorem Same.insert {ctx ctx' : Context} (h : ctx.Same ctx') (path : String) {v w : Value}
    (hvalue : v.same w = true) : (ctx.insert path v).Same (ctx'.insert path w) := by
  intro path'
  rw [get?_insert, get?_insert]
  split
  · exact .some hvalue
  · split
    · exact .none
    · exact h path'

end Context

namespace Condition

variable {ctx ctx' : Context} {c d : Condition}

/-- A condition that looks for the text of a zero where two contexts hold zeros of different
sign. -/
def TellsZeros (c : Condition) (ctx ctx' : Context) : Prop :=
  c.comparator = .equal ∧ (c.literal = .text "0" ∨ c.literal = .text "-0") ∧
    ∃ v ∈ ctx.get? c.path, ∃ w ∈ ctx'.get? c.path, v.OppositeZeros w

/-- Whether a condition tells zeros of different sign apart can be told by looking its attribute up.
-/
instance (c : Condition) (ctx ctx' : Context) : Decidable (c.TellsZeros ctx ctx') :=
  inferInstanceAs (Decidable (_ ∧ _ ∧ ∃ v ∈ ctx.get? c.path, ∃ w ∈ ctx'.get? c.path, _))

/-- Equal contexts give equal conditions the same truth exactly where they do not tell zeros
apart.

**Proof sketch.** By whether the two contexts hold a value at the path. If they do, the two values
are equal and meet equal literals. -/
theorem eval_eq_iff (h : ctx.Same ctx') (hsame : c.same d = true) :
    c.eval ctx = d.eval ctx' ↔ ¬ c.TellsZeros ctx ctx' := by
  obtain ⟨path, comparator, l⟩ := c
  obtain ⟨path', comparator', m⟩ := d
  simp only [same, Bool.and_eq_true, beq_iff_eq] at hsame
  obtain ⟨⟨rfl, rfl⟩, hliteral⟩ := hsame
  have hpath := h path
  simp only [eval, TellsZeros]
  cases hv : ctx.get? path with
  | none =>
    cases hw : ctx'.get? path with
    | none => simp
    | some w => simp [hv, hw] at hpath
  | some v =>
    cases hw : ctx'.get? path with
    | none => simp [hv, hw] at hpath
    | some w =>
      rw [hv, hw, Option.rel_some_some] at hpath
      simpa using Value.satisfies_eq_iff hpath hliteral

end Condition

namespace Formula

variable {ctx ctx' : Context}

/-- Equal contexts give equal formulas the same truth where no condition tells zeros apart.

**Proof sketch.** By induction on the formula, with `Condition.eval_eq_iff` at the leaves. -/
theorem eval_eq_of_same (h : ctx.Same ctx') {f g : Formula} (hsame : f.same g = true)
    (hzeros : ∀ c ∈ f.conditions, ¬ c.TellsZeros ctx ctx') : f.eval ctx = g.eval ctx' := by
  induction f generalizing g with
  | condition c =>
    cases g with
    | join op left right => cases hsame
    | condition d =>
        exact (Condition.eval_eq_iff h hsame).mpr (hzeros c (List.mem_singleton.mpr rfl))
  | join op left right ihleft ihright =>
    cases g with
    | condition d => cases hsame
    | join op' left' right' =>
      simp only [same, Bool.and_eq_true, beq_iff_eq] at hsame
      obtain ⟨⟨rfl, hleft⟩, hright⟩ := hsame
      have hleft' := ihleft hleft fun c hc => hzeros c (List.mem_append_left _ hc)
      have hright' := ihright hright fun c hc => hzeros c (List.mem_append_right _ hc)
      cases op with
      | and => rw [eval, eval, hleft', hright']
      | or => rw [eval, eval, hleft', hright']

/-- **Equal values give equal formulas the same truth**, in contexts that hold equal values, unless
a condition looks for the text of a zero where the contexts hold zeros of different sign. Such a
condition always differs in truth, and no other one does.

**Proof sketch.** Conditions are compared one by one: equal values satisfy the same comparisons of
numbers, and the texts of two equal numbers differ only if they are zeros of different sign.
Formulas follow by induction. -/
theorem eval_of_same (h : ctx.Same ctx') :
    (∀ f g : Formula, f.same g = true → (∀ c ∈ f.conditions, ¬ c.TellsZeros ctx ctx') →
      f.eval ctx = g.eval ctx') ∧
    ∀ c d : Condition, c.same d = true → (c.eval ctx = d.eval ctx' ↔ ¬ c.TellsZeros ctx ctx') :=
  ⟨fun _ _ hsame hzeros => eval_eq_of_same h hsame hzeros, fun _ _ hsame =>
    Condition.eval_eq_iff h hsame⟩

/-- The two zeros pass the same tests against either zero and the same texts other than their
own. -/
theorem eval_of_same_zeros :
    let negativeZero : Binary64 := ⟨true, 0, by decide⟩
    let ctx := (Context.empty.insert "a" (.number .zero)).insert "b" (.text "0")
    let ctx' := (Context.empty.insert "a" (.number negativeZero)).insert "b" (.text "0")
    let f (x : Binary64) : Formula := .join .and (.condition ⟨"a", .atLeast, .number x⟩)
      (.join .or (.condition ⟨"a", .equal, .text "0.0"⟩) (.condition ⟨"b", .equal, .text "0"⟩))
    (f .zero).eval ctx = (f negativeZero).eval ctx' ∧
      Condition.eval ⟨"a", .equal, .text "-0"⟩ ctx ≠
      Condition.eval ⟨"a", .equal, .text "-0"⟩ ctx' := by
  intro negativeZero ctx ctx' f
  have hsame : ctx.Same ctx' :=
    (Context.same_empty.insert "a" (by decide)).insert "b" (by decide)
  obtain ⟨hformula, hcondition⟩ := eval_of_same hsame
  refine ⟨hformula _ _ (by decide) (by decide +kernel), fun heq => ?_⟩
  exact (hcondition _ _ (by decide)).mp heq (by decide +kernel)

/-- **A quoted zero tells equal values apart**: a context with zero satisfies the formula, and one
with negative zero does not. -/
theorem quoted_zero_differs :
    ¬ ∀ (ctx ctx' : Context) (f g : Formula), ctx.Same ctx' → f.same g = true →
      f.eval ctx = g.eval ctx' := by
  intro hall
  let zero := Context.empty.insert "a" (.number .zero)
  let negativeZero := Context.empty.insert "a" (.number ⟨true, 0, by decide⟩)
  let f : Formula := .condition ⟨"a", .equal, .text "0"⟩
  have hsame : zero.Same negativeZero := Context.same_empty.insert "a" (by decide)
  have hdiffer : f.eval zero ≠ f.eval negativeZero := by decide +kernel
  exact hdiffer (hall zero negativeZero f f hsame (by decide))

end Formula

end Eligibility
