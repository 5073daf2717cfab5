import Eligibility.Proofs.StoreHistory

/-!
# Numbers in a restored store

A store refuses a draft whose number a rule of its kind carries, so storing drafts never makes two
rules of a kind with the same number (`Store.Distinct.create`). The checks of a snapshot compare
every number with its counter, and no number with another. So what a snapshot repeats is restored
with its repetition.

## Main definitions

* `Apart` — two rules, by kind and number, that are not of one kind with one number.
* `Payload.Distinct` — a payload in which no two rules of a kind carry the same number.

## Main results

* `Payload.distinct_store_iff` — a payload and the store that it describes repeat the same numbers.
* `Store.distinct_iff_of_ofSnapshot` — when a restored store repeats no number.
* `Store.restored_not_distinct` — the checks of a snapshot do not rule it out.
-/

set_option relaxedAutoImplicit false
set_option autoImplicit false

namespace Eligibility

/-! ## Repetitions -/

/-- Two rules, given by their kinds and numbers, that are not of one kind with one number. -/
def Apart (a b : RuleKind × Option Nat) : Prop := a.1 = b.1 → a.2 = b.2 → a.2 = none

/-- Being apart does not depend on the order. -/
theorem Apart.symm {a b : RuleKind × Option Nat} (h : Apart a b) : Apart b a :=
  fun hkind hnumber => hnumber.trans (h hkind.symm hnumber.symm)

/-- Whether numbers are distinct depends only on the kinds and numbers of the rules, in any order.
-/
theorem Store.distinct_iff {s : Store} :
    s.Distinct ↔ (s.rules.map fun r => (r.kind, r.number)).Pairwise Apart := by
  rw [List.pairwise_map]
  exact Iff.rfl

namespace Payload

/-- A payload in which no two rules of a kind carry the same number. -/
def Distinct (p : Payload) : Prop := (p.records.map fun r => (r.kind, r.number)).Pairwise Apart

/-- Rules have the kinds and numbers of their records. -/
theorem map_number_of_forall₂_rule {records : List Record} {rules : List Rule}
    (h : List.Forall₂ (fun record r => record.rule = .ok r) records rules) :
    rules.map (fun r => (r.kind, r.number)) = records.map fun r => (r.kind, r.number) := by
  induction h with
  | nil => rfl
  | cons hr _ ih =>
    obtain ⟨-, -, -, hkind, hnumber, -⟩ := Record.rule_eq_ok_iff.mp hr
    rw [List.map_cons, List.map_cons, ih, hkind, hnumber]

/-- **A payload and the store that it describes repeat the same numbers.** -/
theorem distinct_store_iff {p : Payload} {s : Store} (h : p.store = .ok s) :
    s.Distinct ↔ p.Distinct := by
  obtain ⟨hp, rules, hrules, rfl⟩ := store_eq_ok_iff.mp h
  have hnodup : (rules.map (·.id)).Nodup := map_id_of_forall₂_rule hrules ▸ hp.nodup
  have hperm := (perm_foldl_insertById hnodup).map fun r => (r.kind, r.number)
  rw [Store.distinct_iff, hperm.pairwise_iff Apart.symm,
    map_number_of_forall₂_rule hrules, Distinct]

end Payload

namespace Store

/-- **When a restored store repeats no number**: exactly when the content of its snapshot repeats
none.

**Proof sketch.** The restored rules are those of the records in another order, and no two having
one number does not depend on the order. -/
theorem distinct_iff_of_ofSnapshot {bytes : Bytes} {s : Store} (h : ofSnapshot bytes = .ok s) :
    ∃ content p rest, Snapshot.payloadOf bytes = .ok content ∧
      Payload.read content = some (p, rest) ∧ (s.Distinct ↔ p.Distinct) := by
  obtain ⟨content, p, rest, hcontent, hread, hstore⟩ := ofSnapshot_eq_ok_iff.mp h
  exact ⟨content, p, rest, hcontent, hread, Payload.distinct_store_iff hstore⟩

/-- One number for two kinds, and two rules of a kind without a number. -/
theorem distinct_iff_of_ofSnapshot_kinds :
    let f : Formula := .condition ⟨"a", .equal, .text "x"⟩
    let s : Store := ⟨[⟨.base "a = 'x'" f 3, 2⟩, ⟨.combined "a = 'x'" f (some 3) [2], 4⟩,
      ⟨.combined "a = 'x'" f none [], 5⟩, ⟨.combined "a = 'x'" f none [4], 6⟩], 6, 3, 3⟩
    ofSnapshot s.snapshot = .ok s ∧ ∃ content p rest, Snapshot.payloadOf s.snapshot = .ok content ∧
      Payload.read content = some (p, rest) ∧ p.Distinct := by
  intro f s
  have hread : ofSnapshot s.snapshot = .ok s := by decide +kernel
  have hdistinct : s.Distinct := by
    unfold Distinct
    decide
  obtain ⟨content, p, rest, hcontent, hpayload, hiff⟩ := distinct_iff_of_ofSnapshot hread
  exact ⟨hread, content, p, rest, hcontent, hpayload, hiff.mp hdistinct⟩

/-- **A restored store can repeat a number**: two base rules carry the number one, and no check of
the snapshot finds a fault. -/
theorem restored_not_distinct :
    ¬ ∀ (bytes : Bytes) (s : Store), ofSnapshot bytes = .ok s → s.Distinct := by
  intro hall
  let f : Formula := .condition ⟨"a", .equal, .text "x"⟩
  let twice : Store := ⟨[⟨.base "a = 'x'" f 1, 1⟩, ⟨.base "a = 'x'" f 1, 2⟩], 2, 1, 0⟩
  have hread : ofSnapshot twice.snapshot = .ok twice := by decide +kernel
  have hrepeated : ¬ twice.Distinct := by
    unfold Distinct
    decide
  exact hrepeated (hall _ _ hread)

end Store

end Eligibility
