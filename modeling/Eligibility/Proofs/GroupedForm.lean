import Eligibility.Snapshot.Grouping

/-!
# Grouped formulas stand for formulas

Gathering the left spine of a formula into groups loses nothing: the grouped form stands for the
formula it was made of. The depth that is found without building the formula is its depth, and there
is none just where there is no formula.

## Main results

* `Grouped.induction` — induction over groups and all of their members.
* `Grouped.formula?_chain` — a chain of members stands for the formula that was gathered into it.
* `Formula.formula?_group` — the grouped form of a formula stands for it.
* `Grouped.depth?_eq_map` — the depth of a grouped form is the depth of its formula.
-/

set_option relaxedAutoImplicit false
set_option autoImplicit false

namespace Eligibility

namespace Grouped

/-- Induction over groups and all of their members. -/
@[elab_as_elim]
theorem induction {P : Grouped → Prop} (condition : ∀ c, P (condition c))
    (group : ∀ op members, (∀ g ∈ members, P g) → P (group op members)) (g : Grouped) : P g := by
  refine Grouped.rec (motive_1 := P) (motive_2 := fun gs => ∀ g ∈ gs, P g) condition group ?_ ?_ g
  · intro g hg
    cases hg
  · intro g gs hg hgs
    exact List.forall_mem_cons.mpr ⟨hg, hgs⟩

/-! ## Formulas -/

/-- Joining with the members of two lists is joining with the ones and then with the others. -/
theorem joinAll_append (op : Connective) (left : Formula) (gs hs : List Grouped) :
    joinAll op left (gs ++ hs) = (joinAll op left gs).bind fun f => joinAll op f hs := by
  induction gs generalizing left with
  | nil => rfl
  | cons g gs ih =>
    rw [List.cons_append, joinAll, joinAll]
    cases g.formula? with
    | none => rfl
    | some f => exact ih _

/-- A group with one more member stands for the group joined with it. -/
theorem formula?_group_append (op : Connective) {gs : List Grouped} {f right : Formula}
    {g : Grouped} (hgs : (group op gs).formula? = some f) (hg : g.formula? = some right) :
    (group op (gs ++ [g])).formula? = some (.join op f right) := by
  cases gs with
  | nil => cases hgs
  | cons first rest =>
    rw [formula?] at hgs
    rw [List.cons_append, formula?]
    obtain ⟨start, hstart, hjoin⟩ := Option.bind_eq_some_iff.mp hgs
    rw [hstart]
    show joinAll op start (rest ++ [g]) = _
    rw [joinAll_append, hjoin, Option.bind_some, joinAll, hg]
    rfl

/-- **A chain of members stands for the formula that was gathered into it.** -/
theorem formula?_chain (op : Connective) (g : Grouped) :
    (group op (g.chain op)).formula? = g.formula? := by
  have hsingle (h : Grouped) : (group op [h]).formula? = h.formula? := by
    rw [formula?]
    cases h.formula? <;> rfl
  cases g with
  | condition c => exact hsingle _
  | group op' members =>
    rw [chain]
    split
    · rename_i hop
      rw [hop]
    · exact hsingle _

end Grouped

/-- **The grouped form of a formula stands for it.** -/
theorem Formula.formula?_group (f : Formula) : f.group.formula? = some f := by
  induction f with
  | condition c => rfl
  | join op left right ihleft ihright =>
    have hchain := Grouped.formula?_chain op left.group
    rw [ihleft] at hchain
    exact Grouped.formula?_group_append op hchain ihright

namespace Grouped

/-! ## Depths -/

/-- **The depth of a grouped form is the depth of its formula**, and there is none where a group is
empty.

**Proof sketch.** By induction over groups. Within one group, joining the formula so far with the
next member makes it one level deeper than the deeper of the two, which is how the depth is
counted. -/
theorem depth?_eq_map (g : Grouped) : g.depth? = g.formula?.map Formula.depth := by
  induction g using Grouped.induction with
  | condition c => rfl
  | group op members ih =>
    have hall (rest : List Grouped) (hrest : ∀ g ∈ rest, g ∈ members) (left : Formula) :
        depthAll left.depth rest = (joinAll op left rest).map Formula.depth := by
      induction rest generalizing left with
      | nil => rfl
      | cons g rest ihrest =>
        have hg := ih g (hrest g List.mem_cons_self)
        rw [depthAll, joinAll, hg]
        cases g.formula? with
        | none => rfl
        | some right =>
          exact ihrest (fun h hh => hrest h (List.mem_cons_of_mem g hh)) (.join op left right)
    cases members with
    | nil => rfl
    | cons first rest =>
      rw [depth?, formula?, ih first List.mem_cons_self]
      cases first.formula? with
      | none => rfl
      | some left => exact hall rest (fun g hg => List.mem_cons_of_mem first hg) left

end Grouped

end Eligibility
