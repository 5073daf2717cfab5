import Eligibility.Store.Basic
import Mathlib.Data.List.Nodup

/-!
# The order of a store

The rules of a store always follow each other by id, so a look-up by id finds the one rule that has
it. Every new rule gets the next id, and as long as the counter of ids does not wrap a store stands
in order: no id is above the last that was given. In such a store a new rule goes to the end.

## Main definitions

* `Store.HasRoom`, `Store.Onward` — counters that can go on without a wrap, and that have.
* `Store.Sorted` — a store whose rules follow each other by id.
* `Store.Ordered` — a store in order.
* `Store.Counted` — a store whose counters cover the numbers of its rules.

## Main results

* `Store.create_ok`, `Store.create_of_free` — all that storing a rule does, and when it does it.
* `Store.Sorted.find?_eq_some_iff` — the look-up by id.
* `Store.Ordered.create_rules` — in a store in order, storing a rule appends it.
* `Store.Ordered.takeNumber`, `Store.Ordered.create` — the acts of a store keep the order.
* `Store.map_id_findByIds` — the ids of the rules that a look-up by several ids finds.
* `Store.Counted.hasNumber_takeNumber` — a number is free just after it was taken.
-/

set_option relaxedAutoImplicit false
set_option autoImplicit false

namespace Eligibility

/-- A listing of one kind shows the rules of that kind. -/
theorem RuleFilter.shows_some (kind : RuleKind) (r : Rule) :
    RuleFilter.shows ⟨some kind⟩ r = (r.kind == kind) := by
  rw [shows, Option.all_some, BEq.comm]

namespace Store

/-! ## Counters -/

/-- A counter that is not at its end goes on by one. -/
theorem next_of_lt {n : Nat} (h : n + 1 < 2 ^ 64) : next n = n + 1 := Nat.mod_eq_of_lt h

/-- A counter goes on by one at most. -/
theorem next_le (n : Nat) : next n ≤ n + 1 := Nat.mod_le _ _

/-- A counter that has gone on has 64 bits. -/
theorem next_lt (n : Nat) : next n < 2 ^ 64 := Nat.mod_lt _ (Nat.two_pow_pos 64)

/-- A counter that has gone on without a wrap was not at its end. -/
theorem lt_of_le_next {n : Nat} (h : n ≤ next n) : n + 1 < 2 ^ 64 := by
  rw [next] at h
  omega

/-- A store in which all counters can go on `n` times before one of them wraps. -/
structure HasRoom (s : Store) (n : Nat) : Prop where
  lastId : s.lastId + n < 2 ^ 64
  lastNumber : ∀ kind, s.lastNumber kind + n < 2 ^ 64

/-- Whether counters have room can be told by comparing. -/
instance (s : Store) (n : Nat) : Decidable (s.HasRoom n) :=
  decidable_of_iff (s.lastId + n < 2 ^ 64 ∧ s.lastBase + n < 2 ^ 64 ∧ s.lastCombined + n < 2 ^ 64)
    ⟨fun ⟨lastId, base, combined⟩ => ⟨lastId, fun | .base => base | .combined => combined⟩,
      fun h => ⟨h.lastId, h.lastNumber .base, h.lastNumber .combined⟩⟩

/-- The counters of the empty store can go on as often as a counter can count. -/
theorem hasRoom_empty {n : Nat} (h : n < 2 ^ 64) : empty.HasRoom n := by
  rw [← Nat.zero_add n] at h
  exact ⟨h, fun kind => by cases kind <;> exact h⟩

/-- Room for more is room for less. -/
theorem HasRoom.mono {s : Store} {m n : Nat} (h : s.HasRoom n) (hmn : m ≤ n) : s.HasRoom m :=
  ⟨Nat.lt_of_le_of_lt (Nat.add_le_add_left hmn _) h.lastId,
    fun kind => Nat.lt_of_le_of_lt (Nat.add_le_add_left hmn _) (h.lastNumber kind)⟩

/-- The counters of the second store have gone on from those of the first, and none has wrapped. -/
structure Onward (s s' : Store) : Prop where
  lastId : s.lastId ≤ s'.lastId
  lastNumber : ∀ kind, s.lastNumber kind ≤ s'.lastNumber kind

/-! ## What the acts change -/

/-- Taking a number stores no rule. -/
@[simp]
theorem takeNumber_rules (s : Store) (kind : RuleKind) : (s.takeNumber kind).2.rules = s.rules := by
  cases kind <;> rfl

/-- Taking a number takes no id. -/
@[simp]
theorem takeNumber_lastId (s : Store) (kind : RuleKind) :
    (s.takeNumber kind).2.lastId = s.lastId := by
  cases kind <;> rfl

/-- The number that is taken is the last one of its kind afterwards. -/
theorem takeNumber_number (s : Store) (kind : RuleKind) :
    (s.takeNumber kind).1 = (s.takeNumber kind).2.lastNumber kind := by
  cases kind <;> rfl

/-- Taking a number moves the counter of its kind on and leaves the other. -/
theorem lastNumber_takeNumber (s : Store) (taken kind : RuleKind) :
    (s.takeNumber taken).2.lastNumber kind =
      if taken = kind then next (s.lastNumber kind) else s.lastNumber kind := by
  cases taken <;> cases kind <;> rfl

/-- Taking a number lowers no counter unless its own wraps. -/
theorem onward_takeNumber {s : Store} {kind : RuleKind} (h : s.lastNumber kind + 1 < 2 ^ 64) :
    s.Onward (s.takeNumber kind).2 := by
  refine ⟨Nat.le_of_eq (takeNumber_lastId s kind).symm, fun other => ?_⟩
  rw [lastNumber_takeNumber]
  split
  · rename_i heq
    rw [← heq, next_of_lt h]
    exact Nat.le_succ _
  · exact Nat.le_refl _

/-- Taking a number uses up room for one number. -/
theorem HasRoom.takeNumber {s : Store} {n : Nat} (h : s.HasRoom (n + 1)) (kind : RuleKind) :
    (s.takeNumber kind).2.HasRoom n := by
  refine ⟨?_, fun other => ?_⟩
  · have hid := h.lastId
    rw [takeNumber_lastId]
    omega
  · have hnumber := h.lastNumber other
    have hle := next_le (s.lastNumber other)
    rw [lastNumber_takeNumber]
    split <;> omega

/-- What a store reads depends on its rules only. -/
theorem findByIds_congr {s s' : Store} (h : s'.rules = s.rules) (ids : List Nat) :
    s'.findByIds ids = s.findByIds ids := by
  have hfind : s'.find? = s.find? := by
    funext id
    rw [find?, h, find?]
  rw [findByIds, hfind, findByIds]

/-- **Storing a rule gives it the next id** and touches no number, where no rule of its kind carries
its number.

**Proof sketch.** By whether the draft carries a number, and then by whether a rule of its kind has
it. -/
theorem create_ok {s s' : Store} {d : Draft} {r : Rule} (h : s.create d = .ok (r, s')) :
    r = ⟨d, next s.lastId⟩ ∧
      s' = { s with rules := insertById r s.rules, lastId := next s.lastId } ∧
      ∀ number, d.number = some number → s.hasNumber d.kind number = false := by
  unfold create at h
  cases hnumber : d.number with
  | none =>
    rw [hnumber] at h
    cases h
    exact ⟨rfl, rfl, by simp⟩
  | some number =>
    rw [hnumber] at h
    cases htaken : s.hasNumber d.kind number with
    | true => simp [htaken] at h
    | false =>
      simp only [htaken, Bool.false_eq_true, if_false] at h
      cases h
      refine ⟨rfl, rfl, fun number' hnumber' => ?_⟩
      rwa [← Option.some.inj hnumber']

/-- No rule of a kind that has a number free carries it. -/
theorem hasNumber_eq_false_iff {s : Store} {kind : RuleKind} {n : Nat} :
    s.hasNumber kind n = false ↔ ∀ r ∈ s.rules, r.kind = kind → r.number ≠ some n := by
  simp [hasNumber]

/-- **A draft whose number is free is stored**, under the next id. -/
theorem create_of_free {s : Store} {d : Draft}
    (h : ∀ n, d.number = some n → s.hasNumber d.kind n = false) :
    ∃ s', s.create d = .ok (⟨d, next s.lastId⟩, s') := by
  unfold create
  cases hnumber : d.number with
  | none => exact ⟨_, rfl⟩
  | some n =>
    simp only [h n hnumber, Bool.false_eq_true, if_false]
    exact ⟨_, rfl⟩

/-- Storing a rule lowers no counter unless the one of ids wraps. -/
theorem onward_create {s s' : Store} {d : Draft} {r : Rule} (hroom : s.lastId + 1 < 2 ^ 64)
    (h : s.create d = .ok (r, s')) : s.Onward s' := by
  obtain ⟨-, rfl, -⟩ := create_ok h
  refine ⟨?_, fun kind => Nat.le_refl _⟩
  show s.lastId ≤ next s.lastId
  rw [next_of_lt hroom]
  exact Nat.le_succ _

/-- Storing a rule uses up room for one rule. -/
theorem HasRoom.create {s s' : Store} {n : Nat} (h : s.HasRoom (n + 1)) {d : Draft} {r : Rule}
    (hcreate : s.create d = .ok (r, s')) : s'.HasRoom n := by
  obtain ⟨-, rfl, -⟩ := create_ok hcreate
  refine ⟨?_, (h.mono (Nat.le_succ n)).lastNumber⟩
  have hid := h.lastId
  have hle := next_le s.lastId
  show next s.lastId + n < 2 ^ 64
  omega

/-- A number was taken without a wrap, so its counter was not at its end. -/
theorem Onward.lt_of_takeNumber {s : Store} {kind : RuleKind} (h : s.Onward (s.takeNumber kind).2) :
    s.lastNumber kind + 1 < 2 ^ 64 := by
  have hle := h.lastNumber kind
  rw [lastNumber_takeNumber, if_pos rfl] at hle
  exact lt_of_le_next hle

/-- A rule was stored without a wrap, so the counter of ids was not at its end. -/
theorem Onward.lt_of_create {s s' : Store} {d : Draft} {r : Rule} (h : s.Onward s')
    (hcreate : s.create d = .ok (r, s')) : s.lastId + 1 < 2 ^ 64 := by
  obtain ⟨-, rfl, -⟩ := create_ok hcreate
  exact lt_of_le_next h.lastId

/-! ## Order -/

/-- A store whose rules stand by increasing id. -/
structure Sorted (s : Store) : Prop where
  increasing : s.rules.Pairwise fun a b => a.id < b.id

/-- A store in order: its rules by increasing id, up to the last id. -/
structure Ordered (s : Store) : Prop extends Sorted s where
  le_lastId : ∀ r ∈ s.rules, r.id ≤ s.lastId

/-- The empty store is in order. -/
theorem ordered_empty : empty.Ordered := ⟨⟨.nil⟩, by simp [empty]⟩

/-- A rule with an id above all others goes to the end. -/
theorem insertById_of_lt {r : Rule} {rs : List Rule} (h : ∀ a ∈ rs, a.id < r.id) :
    insertById r rs = rs ++ [r] := by
  induction rs with
  | nil => rfl
  | cons a rs ih =>
    have ha : a.id < r.id := h a List.mem_cons_self
    have hrest := ih fun b hb => h b (List.mem_cons_of_mem a hb)
    rw [insertById, if_neg (by omega), if_neg (by omega), hrest, List.cons_append]

/-- A rule that was put among others is one of them afterwards, in place of the one with its id. -/
theorem mem_insertById_iff {r a : Rule} {rs : List Rule} (h : ∀ b ∈ rs, b.id ≠ r.id) :
    a ∈ insertById r rs ↔ a = r ∨ a ∈ rs := by
  induction rs with
  | nil => simp [insertById]
  | cons b rs ih =>
    have hb : b.id ≠ r.id := h b List.mem_cons_self
    have hrest := ih fun c hc => h c (List.mem_cons_of_mem b hc)
    rw [insertById]
    split
    · rw [List.mem_cons]
    · rw [if_neg hb.symm, List.mem_cons, hrest, List.mem_cons, or_left_comm]

/-- Only a rule that was put among others, or one of these, is found there. -/
theorem mem_of_mem_insertById {r a : Rule} {rs : List Rule} (h : a ∈ insertById r rs) :
    a = r ∨ a ∈ rs := by
  induction rs with
  | nil => exact .inl (List.mem_singleton.mp h)
  | cons b rs ih =>
    rw [insertById] at h
    split at h
    · exact List.mem_cons.mp h
    · split at h
      · exact (List.mem_cons.mp h).imp_right (List.mem_cons_of_mem b)
      · rcases List.mem_cons.mp h with rfl | h
        · exact .inr List.mem_cons_self
        · exact (ih h).imp_right (List.mem_cons_of_mem b)

/-- What holds between any two rules of a list and between them and a further rule holds when this
is put among them. -/
theorem pairwise_insertById_of_forall {R : Rule → Rule → Prop} {r : Rule} {rs : List Rule}
    (hr : ∀ a ∈ rs, R a r ∧ R r a) (h : rs.Pairwise R) : (insertById r rs).Pairwise R := by
  induction rs with
  | nil => exact List.pairwise_singleton _ _
  | cons b rs ih =>
    obtain ⟨hb, hrs⟩ := List.pairwise_cons.mp h
    have hrest : ∀ a ∈ rs, R a r ∧ R r a := fun a ha => hr a (List.mem_cons_of_mem b ha)
    rw [insertById]
    split
    · exact List.pairwise_cons.mpr ⟨fun a ha => (hr a ha).2, h⟩
    · split
      · exact List.pairwise_cons.mpr ⟨fun a ha => (hrest a ha).2, hrs⟩
      · refine List.pairwise_cons.mpr ⟨fun a ha => ?_, ih hrest hrs⟩
        rcases mem_of_mem_insertById ha with rfl | ha
        · exact (hr b List.mem_cons_self).1
        · exact hb a ha

/-- Putting a rule among others keeps them in order.

**Proof sketch.** By induction on the rules. The new one stands before the first one with a larger
id or takes the place of the one with its own, and otherwise goes on behind a smaller one. -/
theorem pairwise_insertById (r : Rule) {rs : List Rule}
    (h : rs.Pairwise fun a b => a.id < b.id) :
    (insertById r rs).Pairwise fun a b => a.id < b.id := by
  induction rs with
  | nil => exact List.pairwise_singleton _ _
  | cons b rs ih =>
    obtain ⟨hb, hrs⟩ := List.pairwise_cons.mp h
    rw [insertById]
    split
    · rename_i hlt
      refine List.pairwise_cons.mpr ⟨List.forall_mem_cons.mpr ⟨hlt, fun c hc => ?_⟩, h⟩
      exact Nat.lt_trans hlt (hb c hc)
    · split
      · rename_i heq
        exact List.pairwise_cons.mpr ⟨fun c hc => heq ▸ hb c hc, hrs⟩
      · refine List.pairwise_cons.mpr ⟨fun c hc => ?_, ih hrs⟩
        rcases mem_of_mem_insertById hc with rfl | hc
        · omega
        · exact hb c hc

namespace Sorted

variable {s : Store}

/-- Taking a number changes no rule. -/
theorem takeNumber (hs : s.Sorted) (kind : RuleKind) : (s.takeNumber kind).2.Sorted := by
  refine ⟨?_⟩
  rw [takeNumber_rules]
  exact hs.increasing

/-- A rule is stored in its place. -/
theorem create (hs : s.Sorted) {s' : Store} {d : Draft} {r : Rule} (h : s.create d = .ok (r, s')) :
    s'.Sorted := by
  obtain ⟨-, rfl, -⟩ := create_ok h
  exact ⟨pairwise_insertById r hs.increasing⟩

/-- No id occurs twice. -/
theorem nodup_ids (hs : s.Sorted) : (s.rules.map (·.id)).Nodup := by
  rw [List.Nodup, List.pairwise_map]
  exact hs.increasing.imp fun hlt => Nat.ne_of_lt hlt

/-- Two rules with one id are the same. -/
theorem eq_of_id (hs : s.Sorted) {a b : Rule} (ha : a ∈ s.rules) (hb : b ∈ s.rules)
    (h : a.id = b.id) : a = b :=
  List.inj_on_of_nodup_map hs.nodup_ids ha hb h

/-- **The look-up by id finds the rule with the id.** -/
theorem find?_eq_some_iff (hs : s.Sorted) {id : Nat} {r : Rule} :
    s.find? id = some r ↔ r ∈ s.rules ∧ r.id = id := by
  constructor
  · intro h
    exact ⟨List.mem_of_find?_eq_some h, by simpa using List.find?_some h⟩
  · rintro ⟨hr, rfl⟩
    cases hfind : s.find? r.id with
    | none =>
      have hnone := List.find?_eq_none.mp hfind r hr
      simp at hnone
    | some a =>
      have ha : a.id = r.id := by simpa using List.find?_some hfind
      rw [hs.eq_of_id (List.mem_of_find?_eq_some hfind) hr ha]

end Sorted

namespace Ordered

variable {s : Store}

/-- Taking a number keeps the order. -/
theorem takeNumber (hs : s.Ordered) (kind : RuleKind) : (s.takeNumber kind).2.Ordered := by
  refine ⟨hs.toSorted.takeNumber kind, ?_⟩
  rw [takeNumber_rules, takeNumber_lastId]
  exact hs.le_lastId

/-- **In a store in order a new rule goes to the end**, unless the counter of ids wraps. -/
theorem create_rules (hs : s.Ordered) (hroom : s.lastId + 1 < 2 ^ 64) {s' : Store} {d : Draft}
    {r : Rule} (h : s.create d = .ok (r, s')) : s'.rules = s.rules ++ [r] := by
  obtain ⟨rfl, rfl, -⟩ := create_ok h
  apply insertById_of_lt
  intro a ha
  show a.id < next s.lastId
  rw [next_of_lt hroom]
  exact Nat.lt_succ_of_le (hs.le_lastId a ha)

/-- Storing a rule keeps the order, unless the counter of ids wraps. -/
theorem create (hs : s.Ordered) (hroom : s.lastId + 1 < 2 ^ 64) {s' : Store} {d : Draft} {r : Rule}
    (h : s.create d = .ok (r, s')) : s'.Ordered := by
  have hrules := hs.create_rules hroom h
  have honward := onward_create hroom h
  refine ⟨hs.toSorted.create h, ?_⟩
  rw [hrules]
  intro a ha
  rcases List.mem_append.mp ha with ha | ha
  · exact Nat.le_trans (hs.le_lastId a ha) honward.lastId
  · obtain ⟨rfl, rfl, -⟩ := create_ok h
    exact Nat.le_of_eq (congrArg Rule.id (List.mem_singleton.mp ha))

end Ordered

/-! ## Reading by ids -/

/-- A rule that a look-up finds is stored, and it was asked for. -/
theorem mem_of_mem_findByIds {s : Store} {ids : List Nat} {r : Rule} (h : r ∈ s.findByIds ids) :
    r ∈ s.rules ∧ r.id ∈ ids := by
  obtain ⟨id, hid, hfind⟩ := List.mem_filterMap.mp h
  have hr : r.id = id := by simpa using List.find?_some hfind
  exact ⟨List.mem_of_find?_eq_some hfind, hr ▸ hid⟩

/-- A look-up that finds a rule for every id finds the rules in the order of the ids. -/
theorem map_id_findByIds {s : Store} {ids : List Nat}
    (h : ∀ id ∈ ids, ∃ r ∈ s.rules, r.id = id) : (s.findByIds ids).map (·.id) = ids := by
  induction ids with
  | nil => rfl
  | cons id ids ih =>
    have hrest := ih fun id' hid' => h id' (List.mem_cons_of_mem id hid')
    obtain ⟨r, hr, rfl⟩ := h id List.mem_cons_self
    cases hfind : s.find? r.id with
    | none =>
      have hnone := List.find?_eq_none.mp hfind r hr
      simp at hnone
    | some a =>
      have ha : a.id = r.id := by simpa using List.find?_some hfind
      rw [findByIds, List.filterMap_cons_some hfind, List.map_cons, ha]
      exact congrArg _ hrest

/-! ## Numbers -/

/-- A store whose counters cover the numbers of its rules. -/
def Counted (s : Store) : Prop := ∀ r ∈ s.rules, ∀ n ∈ r.number, n ≤ s.lastNumber r.kind

namespace Counted

variable {s : Store}

/-- Taking a number leaves the counters above all numbers, unless the one of its kind wraps. -/
theorem takeNumber (hs : s.Counted) {kind : RuleKind} (hroom : s.lastNumber kind + 1 < 2 ^ 64) :
    (s.takeNumber kind).2.Counted := by
  intro r hr n hn
  rw [takeNumber_rules] at hr
  exact Nat.le_trans (hs r hr n hn) ((onward_takeNumber hroom).lastNumber r.kind)

/-- Storing a draft with a number that was taken leaves the counters above all numbers. -/
theorem create (hs : s.Counted) {s' : Store} {d : Draft} {r : Rule}
    (hd : ∀ n ∈ d.number, n ≤ s.lastNumber d.kind) (h : s.create d = .ok (r, s')) :
    s'.Counted := by
  obtain ⟨rfl, rfl, -⟩ := create_ok h
  intro r hr n hn
  -- storing a rule touches no counter of numbers
  show n ≤ s.lastNumber r.kind
  rcases mem_of_mem_insertById hr with rfl | hr
  · exact hd n hn
  · exact hs r hr n hn

/-- A number above the counter of its kind is free. -/
theorem hasNumber_eq_false (hs : s.Counted) {kind : RuleKind} {n : Nat}
    (h : s.lastNumber kind < n) : s.hasNumber kind n = false := by
  rw [hasNumber_eq_false_iff]
  rintro r hr rfl hn
  have hle := hs r hr n hn
  omega

/-- A number is free just after it was taken, unless the counter of its kind wraps. -/
theorem hasNumber_takeNumber (hs : s.Counted) {kind : RuleKind}
    (hroom : s.lastNumber kind + 1 < 2 ^ 64) :
    (s.takeNumber kind).2.hasNumber kind (s.takeNumber kind).1 = false := by
  have hfree : s.hasNumber kind (s.lastNumber kind + 1) = false :=
    hs.hasNumber_eq_false (Nat.lt_succ_self _)
  rw [hasNumber_eq_false_iff] at hfree ⊢
  rwa [takeNumber_rules, takeNumber_number, lastNumber_takeNumber, if_pos rfl, next_of_lt hroom]

end Counted

end Store

end Eligibility
