import Eligibility.Proofs.GroupedForm
import Mathlib.Data.List.Basic

/-!
# Groups in normal form

Many grouped forms stand for one formula: a group of one member stands for what its member stands
for, and a group that begins with a group of its own connective for the chain of both. Gathering the
left spine of a formula makes groups of neither kind, and every form without them is gathered from
the formula that it stands for. So the normal forms are the grouped forms of formulas, one for each
formula.

A group of the same connective may stand at any other place, where it keeps the operands together
that the formula has to the right.

## Main definitions

* `Grouped.Normal` — forms with no group of fewer than two members and none that begins with a group
  of its own connective.

## Main results

* `Formula.normal_group` — the grouped form of a formula is normal.
* `Grouped.Normal.exists_group` — a normal form is gathered from a formula.
* `Formula.group_bijective` — formulas and normal forms are the same up to grouping.
-/

set_option relaxedAutoImplicit false
set_option autoImplicit false

namespace Eligibility

/-- **Normal forms**: every group in the form, at whatever depth, has at least two members, and none
begins with a group of its own connective. -/
inductive Grouped.Normal : Grouped → Prop where
  | condition (c : Condition) : Normal (.condition c)
  | group {op : Connective} {members : List Grouped} : 2 ≤ members.length →
    (∀ inner, members.head? ≠ some (.group op inner)) → (∀ g ∈ members, Normal g) →
    Normal (.group op members)

namespace Grouped

/-! ## Chains -/

/-- The chain of a group of the connective is the group. -/
theorem chain_group (op : Connective) (members : List Grouped) :
    (group op members).chain op = members := if_pos rfl

/-- Anything else is a chain of its own. -/
theorem chain_of_not_group {op : Connective} {g : Grouped} (h : ¬ ∃ members, g = group op members) :
    g.chain op = [g] := by
  cases g with
  | condition c => rfl
  | group op' members =>
    have hop : op' ≠ op := fun hop => h ⟨members, by rw [hop]⟩
    exact if_neg hop

/-- A chain of two members or more is that of a group of them. -/
theorem eq_group_of_chain {op : Connective} {g : Grouped} {members : List Grouped}
    (h : g.chain op = members) (hlength : 2 ≤ members.length) : g = group op members := by
  by_cases hg : ∃ inner, g = group op inner
  · obtain ⟨inner, rfl⟩ := hg
    rw [← h, chain_group]
  · rw [chain_of_not_group hg] at h
    rw [← h, List.length_singleton] at hlength
    omega

/-- The chain of a normal form has a member, does not begin with a group of its connective, and
holds normal forms. -/
theorem Normal.chain {g : Grouped} (h : g.Normal) (op : Connective) :
    g.chain op ≠ [] ∧ (∀ inner, (g.chain op).head? ≠ some (.group op inner)) ∧
      ∀ m ∈ g.chain op, m.Normal := by
  by_cases hg : ∃ members, g = .group op members
  · obtain ⟨members, rfl⟩ := hg
    rw [chain_group]
    cases h with
    | group hlength hhead hmembers =>
      exact ⟨List.ne_nil_of_length_pos (by omega), hhead, hmembers⟩
  · rw [chain_of_not_group hg]
    have hhead (inner : List Grouped) : [g].head? ≠ some (.group op inner) :=
      fun hinner => hg ⟨inner, Option.some.inj hinner⟩
    exact ⟨List.cons_ne_nil g [], hhead, List.forall_mem_singleton.mpr h⟩

end Grouped

namespace Formula

/-- Joining a formula with another puts one more member at the end of its chain. -/
theorem chain_group_join (op : Connective) (left right : Formula) :
    (join op left right).group.chain op = left.group.chain op ++ [right.group] :=
  Grouped.chain_group op _

/-! ## Gathering -/

/-- **The grouped form of a formula is normal.** -/
theorem normal_group (f : Formula) : f.group.Normal := by
  induction f with
  | condition c => exact .condition c
  | join op left right ihleft ihright =>
    obtain ⟨hne, hhead, hmembers⟩ := ihleft.chain op
    have hpos := List.length_pos_iff.mpr hne
    refine .group ?_ ?_ ?_
    · rw [List.length_append, List.length_singleton]
      omega
    · rwa [List.head?_append_of_ne_nil _ hne]
    · exact List.forall_mem_append.mpr ⟨hmembers, List.forall_mem_singleton.mpr ihright⟩

/-- Grouped forms of formulas end the chain of some formula that begins with a given one. -/
theorem exists_chain (op : Connective) (left : Formula) {rest : List Grouped}
    (h : ∀ g ∈ rest, ∃ f : Formula, f.group = g) :
    ∃ f : Formula, f.group.chain op = left.group.chain op ++ rest := by
  induction rest generalizing left with
  | nil => exact ⟨left, (List.append_nil _).symm⟩
  | cons g rest ih =>
    obtain ⟨⟨right, rfl⟩, hrest⟩ := List.forall_mem_cons.mp h
    obtain ⟨f, hf⟩ := ih (join op left right) hrest
    exact ⟨f, by rw [hf, chain_group_join, List.append_assoc, List.singleton_append]⟩

end Formula

/-- **A normal form is gathered from a formula.**

**Proof sketch.** By induction on the form. The members of a group are gathered from formulas, which
are joined from left to right. The first member is no group of the connective, so the chain of what
is joined holds it as a whole and the others after it. -/
theorem Grouped.Normal.exists_group {g : Grouped} (h : g.Normal) : ∃ f : Formula, f.group = g := by
  induction h with
  | condition c => exact ⟨.condition c, rfl⟩
  | @group op members hlength hhead _ ih =>
    cases members with
    | nil => exact absurd hlength (by decide)
    | cons first rest =>
      obtain ⟨⟨left, hleft⟩, hrest⟩ := List.forall_mem_cons.mp ih
      obtain ⟨f, hf⟩ := Formula.exists_chain op left hrest
      have hfirst : ¬ ∃ inner, first = .group op inner := by
        rintro ⟨inner, rfl⟩
        exact hhead inner rfl
      rw [hleft, chain_of_not_group hfirst] at hf
      exact ⟨f, eq_group_of_chain hf hlength⟩

/-- **Grouping is a bijection onto the normal forms.** The grouped form of a formula is normal and
stands for the formula. A form stands for a formula whose grouped form it is just where it is
normal.

**Proof sketch.** By induction on the formula, and on the form in the other direction: the members
of a normal group are gathered from formulas, and joining these from left to right gives a formula
that is gathered into the group (`Grouped.Normal.exists_group`). -/
theorem Formula.group_bijective :
    (∀ f : Formula, f.group.Normal ∧ f.group.formula? = some f) ∧
    ∀ g : Grouped, (∃ f : Formula, g.formula? = some f ∧ f.group = g) ↔ g.Normal := by
  refine ⟨fun f => ⟨f.normal_group, f.formula?_group⟩, fun g => ⟨?_, fun h => ?_⟩⟩
  · rintro ⟨f, -, rfl⟩
    exact f.normal_group
  · obtain ⟨f, rfl⟩ := h.exists_group
    exact ⟨f, f.formula?_group, rfl⟩

end Eligibility
