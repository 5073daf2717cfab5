import Eligibility.Proofs.Normalization

/-!
# The depth that a payload is checked for

The checks of a payload find the depth of each formula without building it. They find none where a
group is empty, which may be any group at any depth, and there no formula can be built. Everywhere
else the formula that is built afterwards has the depth that was found, whether or not its groups
are in normal form. So a payload that passed its checks is turned into a store without a fault, and
with no formula that is too deep.

## Main definitions

* `Grouped.HasEmptyGroup` — forms with a group that has no members.

## Main results

* `Grouped.formula?_eq_none_iff` — which forms stand for no formula.
* `Payload.check_predicts_formulas` — what the checks of a payload say about the formulas that are
  built of it.
-/

set_option relaxedAutoImplicit false
set_option autoImplicit false

namespace Eligibility

/-- The form is an empty group, or has one among its members or in them. -/
inductive Grouped.HasEmptyGroup : Grouped → Prop where
  | empty (op : Connective) : HasEmptyGroup (.group op [])
  | member {op : Connective} {members : List Grouped} {g : Grouped} : g ∈ members →
    HasEmptyGroup g → HasEmptyGroup (.group op members)

namespace Grouped

/-- Joining with the members of a list fails at the members that stand for no formula. -/
theorem joinAll_eq_none_iff {op : Connective} {left : Formula} {gs : List Grouped} :
    joinAll op left gs = none ↔ ∃ g ∈ gs, g.formula? = none := by
  induction gs generalizing left with
  | nil => simp [joinAll]
  | cons g gs ih =>
    rw [joinAll]
    cases hg : g.formula? with
    | none => simp [hg]
    | some right => simp [hg, ih]

/-- A group stands for no formula if it is empty or one of its members stands for none. -/
theorem formula?_group_eq_none_iff {op : Connective} {members : List Grouped} :
    (group op members).formula? = none ↔ members = [] ∨ ∃ g ∈ members, g.formula? = none := by
  cases members with
  | nil => simp [formula?]
  | cons first rest =>
    rw [formula?]
    cases hfirst : first.formula? with
    | none => simp [hfirst]
    | some left => simp [hfirst, joinAll_eq_none_iff]

/-- **A form stands for no formula just where it has an empty group.**

**Proof sketch.** By induction on the form. A group stands for no formula if it is empty or a member
stands for none. -/
theorem formula?_eq_none_iff (g : Grouped) : g.formula? = none ↔ g.HasEmptyGroup := by
  induction g using Grouped.induction with
  | condition c =>
    constructor
    · intro h
      cases h
    · intro h
      cases h
  | group op members ih =>
    rw [formula?_group_eq_none_iff]
    constructor
    · rintro (rfl | ⟨g, hg, hnone⟩)
      · exact .empty op
      · exact .member hg ((ih g hg).mp hnone)
    · intro h
      cases h with
      | empty => exact .inl rfl
      | member hg h => exact .inr ⟨_, hg, (ih _ hg).mpr h⟩

end Grouped

namespace Payload

/-- **The checks of a payload predict its formulas.** The depth that is found of a form is that of
the formula it stands for. None is found just where there is no formula, which is where a group is
empty. A payload that passes its checks gives a rule for every record and a store of these rules,
none of which has a formula that is too deep.

**Proof sketch.** The depth of a form is found by the same recursion as its formula
(`Grouped.depth?_eq_map`). The checks of a payload say that there is a store for it, whose rules are
those of the records in the order of their ids. -/
theorem check_predicts_formulas :
    (∀ (g : Grouped) (depth : Nat),
      g.depth? = some depth ↔ ∃ f, g.formula? = some f ∧ f.depth = depth) ∧
    (∀ g : Grouped, (g.depth? = none ↔ g.formula? = none) ∧
      (g.formula? = none ↔ g.HasEmptyGroup)) ∧
    ∀ p : Payload, p.check = .ok () → ∃ rules s, p.records.mapM Record.rule = .ok rules ∧
      p.store = .ok s ∧ s.rules.Perm rules ∧ ∀ r ∈ rules, r.formula.depth ≤ Formula.maxDepth := by
  refine ⟨fun g depth => ?_, fun g => ⟨?_, g.formula?_eq_none_iff⟩, fun p hp => ?_⟩
  · rw [Grouped.depth?_eq_map, Option.map_eq_some_iff]
  · rw [Grouped.depth?_eq_map, Option.map_eq_none_iff]
  · obtain ⟨s, hstore⟩ := agrees_iff_exists_store.mp (check_eq_ok_iff.mp hp)
    obtain ⟨rules, hrules, hperm⟩ := perm_of_store hstore
    obtain ⟨-, hcoherent, -⟩ := store_ok hstore
    exact ⟨rules, s, hrules, hstore, hperm, fun r hr => hcoherent.depth_le r (hperm.mem_iff.mpr hr)⟩

/-- A group that begins with one of its own connective and of more levels than the members after it,
which are a group of a single member and a condition. -/
theorem check_predicts_formulas_degenerate :
    let a : Grouped := .condition ⟨"a", .equal, .text "x"⟩
    let g : Grouped := .group .or [.group .or [a, a, a], .group .and [.group .or [a]], a]
    let p : Payload := ⟨1, 4, 2, 0, [⟨3, "a = 'x'", .base, some 2, [], g⟩]⟩
    (∃ f, g.formula? = some f ∧ f.depth = 5) ∧ p.check = .ok () ∧
      ∃ rules s, p.records.mapM Record.rule = .ok rules ∧ p.store = .ok s ∧ s.rules.Perm rules ∧
        ∀ r ∈ rules, r.formula.depth ≤ Formula.maxDepth := by
  intro a g p
  obtain ⟨hdepth, -, hchecked⟩ := check_predicts_formulas
  have hp : p.check = .ok () := by decide
  exact ⟨(hdepth g 5).mp (by decide), hp, hchecked p hp⟩

end Payload

end Eligibility
