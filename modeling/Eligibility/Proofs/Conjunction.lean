import Eligibility.Engine

/-!
# Conjunctions of formulas

A combination folds the formulas of stored rules into one. The depth of the fold is known in
advance, it holds where all of its formulas hold, and a combination that is accepted passed every
check.

## Main results

* `Formula.depth_conjunction` — the depth of a conjunction is the one computed before it is built.
* `Formula.eval_conjunction` — a conjunction holds where all its formulas hold.
* `Formula.combine_cons` — the result of a combination, accepted or not.
* `Formula.combine_bounded_conjunction` — a combination is the conjunction within its bounds, and
  the depth that it is refused for is the true one.
* `Formula.combine_ok`, `Engine.conjunctionOf_ok` — what an accepted combination is.
-/

set_option relaxedAutoImplicit false
set_option autoImplicit false

namespace Eligibility

namespace Formula

/-! ## The fold -/

/-- The depth of a conjunction is the one computed before it is built. -/
theorem depth_conjunction (first : Formula) (rest : List Formula) :
    (conjunction first rest).depth = conjunctionDepth first rest := by
  suffices h : ∀ f : Formula, (conjunction f rest).depth =
      rest.foldl (fun depth g => max depth g.depth + 1) f.depth from h first
  induction rest with
  | nil => intro f; rfl
  | cons g rest ih =>
    intro f
    show (conjunction (f.and g) rest).depth = _
    rw [ih, List.foldl_cons]
    rfl

/-- **A conjunction holds where all its formulas hold.** -/
theorem eval_conjunction (ctx : Context) (first : Formula) (rest : List Formula) :
    (conjunction first rest).eval ctx = true ↔ ∀ f ∈ first :: rest, f.eval ctx = true := by
  induction rest generalizing first with
  | nil => simp [conjunction]
  | cons g rest ih =>
    show (conjunction (first.and g) rest).eval ctx = true ↔ _
    rw [ih]
    have hand : (first.and g).eval ctx = true ↔ first.eval ctx = true ∧ g.eval ctx = true := by
      simp [Formula.and, eval]
    simp only [List.forall_mem_cons, hand, and_assoc]

/-- The leaves of a conjunction are those of its formulas, in order. -/
theorem conditions_conjunction (first : Formula) (rest : List Formula) :
    (conjunction first rest).conditions = (first :: rest).flatMap conditions := by
  induction rest generalizing first with
  | nil => simp [conjunction]
  | cons g rest ih =>
    have hand : (first.and g).conditions = first.conditions ++ g.conditions := rfl
    show (conjunction (first.and g) rest).conditions = _
    rw [ih]
    simp [hand]

/-- **The result of a combination**: too few formulas are counted, too deep a conjunction is
measured. -/
theorem combine_cons (minimum : Nat) (first : Formula) (rest : List Formula) :
    combine minimum (first :: rest) =
      if (first :: rest).length < max minimum minCombined then
        .error (.tooFew (max minimum minCombined) (first :: rest).length)
      else if (conjunction first rest).depth ≤ maxDepth then .ok (conjunction first rest)
      else .error (.tooDeep (conjunction first rest).depth maxDepth) := by
  simp only [combine, depth_conjunction]
  split
  · rfl
  · by_cases hdepth : conjunctionDepth first rest ≤ maxDepth
    · rw [if_pos hdepth, if_neg (Nat.not_lt.mpr hdepth)]
    · rw [if_neg hdepth, if_pos (Nat.lt_of_not_le hdepth)]

/-- Too few formulas are refused, with their number. -/
theorem combine_of_few {minimum : Nat} {formulas : List Formula}
    (h : formulas.length < max minimum minCombined) :
    combine minimum formulas = .error (.tooFew (max minimum minCombined) formulas.length) :=
  if_pos h

/-- A combination that is accepted has formulas enough, and is their conjunction within the depth
limit. -/
theorem combine_ok {minimum : Nat} {formulas : List Formula} {f : Formula}
    (h : combine minimum formulas = .ok f) :
    max minimum minCombined ≤ formulas.length ∧ f.depth ≤ maxDepth ∧
      ∃ first rest, formulas = first :: rest ∧ f = conjunction first rest := by
  by_cases hfew : formulas.length < max minimum minCombined
  · rw [combine_of_few hfew] at h
    cases h
  · cases formulas with
    | nil => exact absurd (Nat.lt_of_lt_of_le (by decide) (Nat.le_max_right ..)) hfew
    | cons first rest =>
      rw [combine_cons, if_neg hfew] at h
      split at h
      · rename_i hdepth
        injection h with h
        exact ⟨Nat.le_of_not_lt hfew, h ▸ hdepth, first, rest, rfl, h.symm⟩
      · cases h

/-- **A combination is the conjunction within its bounds.** Fewer formulas than the minimum, or than
two, are refused with their number. Otherwise the result is the left fold by `AND` if it has no more
levels than a formula may have, and the refusal names the levels that it would have. What is
accepted holds in a context exactly when all the formulas hold, and has their leaves in order.

**Proof sketch.** The number of formulas decides first, then the depth of the fold. A fold by `AND`
holds where all its parts hold and has their leaves in order, by induction on the parts. -/
theorem combine_bounded_conjunction (minimum : Nat) (formulas : List Formula) :
    (formulas.length < max minimum 2 →
      combine minimum formulas = .error (.tooFew (max minimum 2) formulas.length)) ∧
    (∀ first rest, formulas = first :: rest → max minimum 2 ≤ formulas.length →
      let f := rest.foldl (join .and) first
      combine minimum formulas =
        if f.depth ≤ maxDepth then .ok f else .error (.tooDeep f.depth maxDepth)) ∧
    ∀ f, combine minimum formulas = .ok f →
      (∀ ctx, f.eval ctx = formulas.all (·.eval ctx)) ∧
      f.conditions = formulas.flatMap conditions := by
  refine ⟨combine_of_few, ?_, ?_⟩
  · rintro first rest rfl henough
    exact (combine_cons minimum first rest).trans (if_neg (Nat.not_lt.mpr henough))
  · intro f h
    obtain ⟨-, -, first, rest, rfl, rfl⟩ := combine_ok h
    refine ⟨fun ctx => ?_, conditions_conjunction first rest⟩
    rw [Bool.eq_iff_iff, eval_conjunction, List.all_eq_true]

/-- Three formulas where one is asked for, and too few of them where four are. -/
theorem combine_bounded_conjunction_three :
    let a : Formula := .condition ⟨"a", .equal, .text "x"⟩
    let b : Formula := .condition ⟨"b", .equal, .text "y"⟩
    let f : Formula := .join .and (.join .and (.join .or a b) b) a
    combine 1 [.join .or a b, b, a] = .ok f ∧
      (∀ ctx, f.eval ctx = ((a.eval ctx || b.eval ctx) && (b.eval ctx && (a.eval ctx && true)))) ∧
      combine 4 [.join .or a b, b, a] = .error (.tooFew 4 3) := by
  intro a b f
  have hok : combine 1 [.join .or a b, b, a] = .ok f :=
    ((combine_bounded_conjunction 1 _).2.1 _ _ rfl (by decide)).trans (if_pos (by decide))
  exact ⟨hok, ((combine_bounded_conjunction 1 _).2.2 f hok).1,
    (combine_bounded_conjunction 4 _).1 (by decide)⟩

end Formula

namespace Engine

/-- **What an accepted combination of rules is**: every id was found, and the formulas that were
found combine within the limits.

**Proof sketch.** The checks are passed one after the other: no id is missing, the formulas combine,
and their conjunction does not nest too deep. -/
theorem conjunctionOf_ok {limits : Limits} {ids : List Nat} {found : List Rule} {f : Formula}
    (h : conjunctionOf limits ids found = .ok f) :
    (∀ id ∈ ids, ∃ r ∈ found, r.id = id) ∧
      Formula.combine limits.minCombined (found.map (·.formula)) = .ok f ∧
      f.nesting ≤ limits.maxNesting := by
  unfold conjunctionOf at h
  cases hmissing : ids.find? fun id => !found.any (·.id = id) with
  | some missing => simp [hmissing] at h
  | none =>
    rw [hmissing] at h
    dsimp only at h
    cases hcombine : Formula.combine limits.minCombined (found.map (·.formula)) with
    | error e => simp [hcombine] at h
    | ok g =>
      rw [hcombine] at h
      dsimp only at h
      by_cases hdeep : limits.maxNesting < g.nesting
      · rw [if_pos hdeep] at h
        exact absurd h (by simp)
      · rw [if_neg hdeep] at h
        obtain rfl := Except.ok.inj h
        refine ⟨fun id hid => ?_, rfl, Nat.le_of_not_lt hdeep⟩
        simpa using List.find?_eq_none.mp hmissing id hid

end Engine

end Eligibility
