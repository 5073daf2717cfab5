import Eligibility.Evaluation
import Eligibility.Proofs.RelatedPaths

/-!
# What the truth of a formula depends on

A formula has no negation, so it keeps its truth when its conditions keep theirs, and it is false
when all of them are. Of the attributes it reads those that its conditions name. A write can change
other paths than the one that is written, but only related ones, so a formula does not notice a
write to a path that is related to none of its attributes.

## Main results

* `Formula.mem_attributes_iff` — the attributes of a formula are the paths of its conditions.
* `Formula.eval_mono` — a formula keeps its truth when its conditions keep theirs.
* `Formula.eval_congr` — contexts that agree on the attributes of a formula give it the same truth.
* `Formula.monotone_and_local` — the two together with the formula that no condition supports and
  the write that it does not notice.
-/

set_option relaxedAutoImplicit false
set_option autoImplicit false

namespace Eligibility

/-- A list has the same members without its repetitions.

**Proof sketch.** The loop carries the value whose repetitions are passed over and, in reverse, the
values that it is done with; the members are those of both and of the rest. -/
theorem mem_eraseReps_iff {α : Type} [DecidableEq α] {x : α} {xs : List α} :
    x ∈ xs.eraseReps ↔ x ∈ xs := by
  have hloop (first : α) (rest done : List α) :
      x ∈ List.eraseRepsBy.loop (· == ·) first rest done ↔ x ∈ done ∨ x ∈ first :: rest := by
    induction rest generalizing first done with
    | nil => simp [List.eraseRepsBy.loop, or_comm]
    | cons next rest ih =>
      rw [List.eraseRepsBy.loop]
      cases hsame : first == next with
      | true =>
        obtain rfl := beq_iff_eq.mp hsame
        simp [ih]
      | false => simp [ih, or_assoc, or_left_comm]
  cases xs with
  | nil => rfl
  | cons first rest => exact (hloop first rest []).trans (or_iff_right List.not_mem_nil)

namespace Formula

variable {f : Formula} {ctx ctx' : Context}

/-- **The attributes of a formula are the paths of its conditions.** -/
theorem mem_attributes_iff {path : String} :
    path ∈ f.attributes ↔ ∃ c ∈ f.conditions, c.path = path := by
  rw [attributes, mem_eraseReps_iff, List.mem_mergeSort, List.mem_map]

/-- What holds of all attributes holds of the paths of all conditions, and the other way round. -/
theorem forall_mem_attributes {P : String → Prop} :
    (∀ path ∈ f.attributes, P path) ↔ ∀ c ∈ f.conditions, P c.path := by
  simp only [mem_attributes_iff, forall_exists_index, and_imp, forall_apply_eq_imp_iff₂]

/-- A conjunction holds when both sides do, and a disjunction when one does. -/
theorem eval_join {op : Connective} {left right : Formula} :
    (join op left right).eval ctx = true ↔
      match op with
      | .and => left.eval ctx = true ∧ right.eval ctx = true
      | .or => left.eval ctx = true ∨ right.eval ctx = true := by
  cases op with
  | and => exact Bool.and_eq_true_iff
  | or => exact Bool.or_eq_true_iff

/-- **A formula keeps its truth when its conditions keep theirs.** -/
theorem eval_mono (h : ∀ c ∈ f.conditions, c.eval ctx = true → c.eval ctx' = true) :
    f.eval ctx = true → f.eval ctx' = true := by
  induction f with
  | condition c => exact h c (List.mem_singleton.mpr rfl)
  | join op left right ihleft ihright =>
    have hleft := ihleft fun c hc => h c (List.mem_append_left _ hc)
    have hright := ihright fun c hc => h c (List.mem_append_right _ hc)
    rw [eval_join, eval_join]
    cases op with
    | and => exact And.imp hleft hright
    | or => exact Or.imp hleft hright

/-- A formula without a true condition is false. -/
theorem eval_eq_false (h : ∀ c ∈ f.conditions, c.eval ctx = false) : f.eval ctx = false := by
  induction f with
  | condition c => exact h c (List.mem_singleton.mpr rfl)
  | join op left right ihleft ihright =>
    have hleft := ihleft fun c hc => h c (List.mem_append_left _ hc)
    have hright := ihright fun c hc => h c (List.mem_append_right _ hc)
    rw [Bool.eq_false_iff, ne_eq, eval_join, hleft, hright]
    cases op <;> simp

/-- **A formula reads its attributes only**: contexts that agree on them give it the same truth. -/
theorem eval_congr (h : ∀ path ∈ f.attributes, ctx.get? path = ctx'.get? path) :
    f.eval ctx = f.eval ctx' := by
  have hcondition (c : Condition) (hc : c ∈ f.conditions) : c.eval ctx = c.eval ctx' := by
    rw [Condition.eval, Condition.eval, forall_mem_attributes.mp h c hc]
  -- conditions that are as true as before keep their truth in both directions
  rw [Bool.eq_iff_iff]
  exact ⟨eval_mono fun c hc => hcondition c hc ▸ id, eval_mono fun c hc => hcondition c hc ▸ id⟩

/-- A formula does not notice a write to a path that is related to none of its attributes. -/
theorem eval_insert {path : String} (h : ∀ used ∈ f.attributes, ¬ Related path used)
    (v : Value) : f.eval (ctx.insert path v) = f.eval ctx := by
  refine eval_congr fun used hused => ?_
  have hunrelated := h used hused
  have hne : path ≠ used := by
    rintro rfl
    exact hunrelated (Related.refl path)
  rw [Context.get?_insert, if_neg hne, if_neg hunrelated]

/-- **A formula is monotone in its conditions and reads its attributes only.** It stays true where
its true conditions stay true, it is false where no condition is true, contexts that agree on its
attributes give it the same truth, and so do a context and this context after a write to a path that
neither leads through one of the attributes nor is led through by one.

**Proof sketch.** The first two parts are by induction on the formula. Contexts that agree on the
attributes make the same conditions true, so that the first part gives both directions, and a write
to an unrelated path changes no attribute. -/
theorem monotone_and_local (f : Formula) (ctx : Context) :
    (∀ ctx', (∀ c ∈ f.conditions, c.eval ctx = true → c.eval ctx' = true) →
      f.eval ctx = true → f.eval ctx' = true) ∧
    ((∀ c ∈ f.conditions, c.eval ctx = false) → f.eval ctx = false) ∧
    (∀ ctx', (∀ path ∈ f.attributes, ctx.get? path = ctx'.get? path) → f.eval ctx = f.eval ctx') ∧
    ∀ path v, (∀ used ∈ f.attributes, ¬ Related path used) →
      f.eval (ctx.insert path v) = f.eval ctx :=
  ⟨fun _ h => eval_mono h, eval_eq_false, fun _ h => eval_congr h, fun _ v h => eval_insert h v⟩

/-- A formula of `a.b` and `c` stays true when `c` begins to pass its test and does not notice
writes to `a.bc` and `a.d`, which are neither before nor behind `a.b`; without attributes it is
false. -/
theorem monotone_and_local_siblings :
    let f : Formula := .join .or (.condition ⟨"a.b", .equal, .text "x"⟩)
      (.join .and (.condition ⟨"c", .equal, .text "y"⟩) (.condition ⟨"a.b", .equal, .text "z"⟩))
    let ctx := Context.ofList [("a.b", .text "x")]
    f.eval (ctx.insert "c" (.text "y")) = true ∧ f.eval .empty = false ∧
      f.eval ((ctx.insert "a.d" (.bool true)).insert "a.bc" (.text "z")) = true ∧
      f.eval (Context.ofList [("d", .bool true), ("a.b", .text "x")]) = true := by
  intro f ctx
  have htrue : f.eval ctx = true := by decide +kernel
  obtain ⟨hmono, -, hcongr, hinsert⟩ := monotone_and_local f ctx
  refine ⟨hmono _ (by decide +kernel) htrue, ?_, ?_, ?_⟩
  · exact (monotone_and_local f .empty).2.1 (by decide +kernel)
  · have hnext := (monotone_and_local f (ctx.insert "a.d" (.bool true))).2.2.2 "a.bc" (.text "z")
    rw [hnext (forall_mem_attributes.mpr (by decide +kernel)),
      hinsert "a.d" (.bool true) (forall_mem_attributes.mpr (by decide +kernel)), htrue]
  · exact (hcongr _ (forall_mem_attributes.mpr (by decide +kernel))).symm.trans htrue

end Formula

end Eligibility
