import Eligibility.Proofs.GroupedForm
import Eligibility.Proofs.StoreOrder
import Eligibility.Snapshot.Content

/-!
# The content of a payload

The checks of a payload find a fault unless all its parts agree, and a payload whose parts agree
describes a store. That store is in order, and its counters and sources cover its rules. The other
way round, a store in order whose counters and sources cover its rules is the store that its own
payload describes.

## Main definitions

* `Payload.Agrees` — a payload whose parts agree.
* `Store.Coherent` — a store whose counters and sources cover its rules, with no formula too deep.

## Main results

* `Payload.check_eq_ok_iff` — the checks accept the payloads whose parts agree.
* `Payload.store_ok` — the store that a payload describes is in order and coherent.
* `Store.Ordered.payload_store` — the payload of a store in order describes the store where it is
  coherent, and is refused where it is not.
-/

set_option relaxedAutoImplicit false
set_option autoImplicit false

namespace Eligibility

namespace Payload

/-! ## Checks -/

/-- A payload whose parts agree: it holds as many rules as it says, under different ids, all numbers
and ids were given out, and every rule has a formula that is not too deep and sources that are
there. -/
structure Agrees (p : Payload) : Prop where
  ruleCount : p.ruleCount = p.records.length
  nodup : (p.records.map (·.id)).Nodup
  id_le : ∀ r ∈ p.records, r.id ≤ p.lastId
  number_le : ∀ r ∈ p.records, ∀ n ∈ r.number, n ≤ p.lastNumber r.kind
  depth_le : ∀ r ∈ p.records, ∃ f, r.formula.formula? = some f ∧ f.depth ≤ Formula.maxDepth
  stored : ∀ r ∈ p.records, ∀ id ∈ r.sources, id ∈ p.records.map (·.id)

/-- A check goes on where it finds no fault. -/
theorem ite_error_eq_ok_iff {ε α : Type} {c : Prop} [Decidable c] {fault : ε} {next : Except ε α}
    {a : α} : (if c then .error fault else next) = .ok a ↔ ¬ c ∧ next = .ok a := by
  split <;> simp [*]

/-- One check after another. -/
theorem bind_eq_ok_iff {first next : Except Fault Unit} :
    (first >>= fun _ => next) = .ok () ↔ first = .ok () ∧ next = .ok () := by
  cases first <;> simp [bind, Except.bind]

/-- The number of a record may not be beyond the counter of its kind; a record may also have none.
-/
theorem checkNumber_eq_ok_iff {p : Payload} {r : Record} :
    p.checkNumber r = .ok () ↔ ∀ n ∈ r.number, n ≤ p.lastNumber r.kind := by
  unfold checkNumber
  cases r.number with
  | none => simp
  | some n => simp

/-- The formula of a record must be rebuilt and not be too deep. -/
theorem checkFormula_eq_ok_iff {r : Record} :
    checkFormula r = .ok () ↔ ∃ f, r.formula.formula? = some f ∧ f.depth ≤ Formula.maxDepth := by
  unfold checkFormula
  rw [Grouped.depth?_eq_map]
  cases r.formula.formula? with
  | none => simp
  | some f => simp

/-- What is checked of a record after the ids of the records before it. -/
theorem checkRecord_eq_ok_iff {p : Payload} {ids : List Nat} {r : Record} :
    p.checkRecord ids r = .ok () ↔ r.id ∉ ids ∧ r.id ≤ p.lastId ∧
      (∀ n ∈ r.number, n ≤ p.lastNumber r.kind) ∧
      ∃ f, r.formula.formula? = some f ∧ f.depth ≤ Formula.maxDepth := by
  rw [checkRecord, ite_error_eq_ok_iff, ite_error_eq_ok_iff, bind_eq_ok_iff, checkNumber_eq_ok_iff,
    checkFormula_eq_ok_iff, List.contains_iff_mem, Nat.not_lt]

/-- The walk through the rules accepts those that agree with the counters and have ids of their
own.

**Proof sketch.** By induction on the records, with the ids of those before. That ids differ from
those before and are met once is that they are met once in the whole. -/
theorem checkRecords_eq_ok_iff {p : Payload} {ids : List Nat} {rs : List Record} :
    p.checkRecords ids rs = .ok () ↔
      (rs.map (·.id)).Nodup ∧ ∀ r ∈ rs, r.id ∉ ids ∧ r.id ≤ p.lastId ∧
        (∀ n ∈ r.number, n ≤ p.lastNumber r.kind) ∧
        ∃ f, r.formula.formula? = some f ∧ f.depth ≤ Formula.maxDepth := by
  induction rs generalizing ids with
  | nil => simp [checkRecords]
  | cons r rs ih =>
    rw [checkRecords, bind_eq_ok_iff, checkRecord_eq_ok_iff, ih, List.map_cons, List.nodup_cons,
      List.forall_mem_cons]
    constructor
    · rintro ⟨hr, hnodup, hrs⟩
      refine ⟨⟨?_, hnodup⟩, hr, fun a ha => ⟨?_, (hrs a ha).2⟩⟩
      · intro hmem
        obtain ⟨a, ha, hid⟩ := List.mem_map.mp hmem
        exact (hrs a ha).1 (hid ▸ List.mem_cons_self)
      · exact fun hmem => (hrs a ha).1 (List.mem_cons_of_mem r.id hmem)
    · rintro ⟨⟨hid, hnodup⟩, hr, hrs⟩
      refine ⟨hr, hnodup, fun a ha => ⟨?_, (hrs a ha).2⟩⟩
      intro hmem
      rcases List.mem_cons.mp hmem with heq | hmem
      · exact hid (heq ▸ List.mem_map_of_mem ha)
      · exact (hrs a ha).1 hmem

/-- The sources of a record must be among the ids of all records. -/
theorem checkSources_eq_ok_iff {ids : List Nat} {r : Record} :
    checkSources ids r = .ok () ↔ ∀ id ∈ r.sources, id ∈ ids := by
  unfold checkSources
  cases hfind : r.sources.find? fun id => !ids.contains id with
  | none => simpa using List.find?_eq_none.mp hfind
  | some id =>
    have hid := List.find?_some hfind
    have hmem := List.mem_of_find?_eq_some hfind
    simp only [reduceCtorEq, false_iff, not_forall]
    exact ⟨id, hmem, by simpa using hid⟩

/-- A check of every rule. -/
theorem forM_eq_ok_iff {check : Record → Except Fault Unit} {rs : List Record} :
    rs.forM check = .ok () ↔ ∀ r ∈ rs, check r = .ok () := by
  induction rs with
  | nil => simp [List.forM, pure, Except.pure]
  | cons r rs ih => rw [List.forM, bind_eq_ok_iff, ih, List.forall_mem_cons]

/-- **The checks accept the payloads whose parts agree**, and no others. -/
theorem check_eq_ok_iff {p : Payload} : p.check = .ok () ↔ p.Agrees := by
  rw [check, ite_error_eq_ok_iff, bind_eq_ok_iff, checkRecords_eq_ok_iff, forM_eq_ok_iff, not_not]
  simp only [checkSources_eq_ok_iff]
  constructor
  · rintro ⟨hcount, ⟨hnodup, hrecords⟩, hsources⟩
    exact ⟨hcount, hnodup, fun r hr => (hrecords r hr).2.1, fun r hr => (hrecords r hr).2.2.1,
      fun r hr => (hrecords r hr).2.2.2, hsources⟩
  · intro h
    refine ⟨h.ruleCount, ⟨h.nodup, fun r hr => ?_⟩, h.stored⟩
    exact ⟨List.not_mem_nil, h.id_le r hr, h.number_le r hr, h.depth_le r hr⟩

/-! ## Rules -/

/-- Rules in order of their ids, whatever order they are given in. -/
theorem pairwise_foldl_insertById (rs : List Rule) {start : List Rule}
    (h : start.Pairwise fun a b => a.id < b.id) :
    (rs.foldl (fun rs r => Store.insertById r rs) start).Pairwise fun a b => a.id < b.id := by
  induction rs generalizing start with
  | nil => exact h
  | cons r rs ih => exact ih (Store.pairwise_insertById r h)

/-- Rules with different ids are all there when they are put in order. -/
theorem mem_foldl_insertById_iff {rs start : List Rule} {a : Rule} (hrs : (rs.map (·.id)).Nodup)
    (hstart : ∀ r ∈ rs, ∀ b ∈ start, b.id ≠ r.id) :
    a ∈ rs.foldl (fun rs r => Store.insertById r rs) start ↔ a ∈ rs ∨ a ∈ start := by
  induction rs generalizing start with
  | nil => simp
  | cons r rs ih =>
    obtain ⟨hid, hrs⟩ := List.nodup_cons.mp hrs
    have hr := hstart r List.mem_cons_self
    rw [List.foldl_cons, ih hrs, Store.mem_insertById_iff hr, List.mem_cons, or_assoc, or_left_comm]
    intro c hc b hb
    rcases (Store.mem_insertById_iff hr).mp hb with rfl | hb
    · exact fun heq => hid (List.mem_map.mpr ⟨c, hc, heq.symm⟩)
    · exact hstart c (List.mem_cons_of_mem r hc) b hb

/-- Rules with different ids are the same rules when they are put in order. -/
theorem perm_foldl_insertById {rs : List Rule} (h : (rs.map (·.id)).Nodup) :
    (rs.foldl (fun rs r => Store.insertById r rs) []).Perm rs := by
  have hordered := pairwise_foldl_insertById rs .nil
  have hnodup : (rs.foldl (fun rs r => Store.insertById r rs) []).Nodup :=
    hordered.imp fun hlt heq => Nat.ne_of_lt hlt (congrArg Rule.id heq)
  refine (List.perm_ext_iff_of_nodup hnodup h.of_map).mpr fun r => ?_
  rw [mem_foldl_insertById_iff h fun _ _ b hb => absurd hb List.not_mem_nil]
  simp

/-- Rules in order stay as they are. -/
theorem foldl_insertById_of_pairwise {rs start : List Rule}
    (h : (start ++ rs).Pairwise fun a b => a.id < b.id) :
    rs.foldl (fun rs r => Store.insertById r rs) start = start ++ rs := by
  induction rs generalizing start with
  | nil => exact (List.append_nil start).symm
  | cons r rs ih =>
    have hr : ∀ a ∈ start, a.id < r.id := fun a ha =>
      (List.pairwise_append.mp h).2.2 a ha r List.mem_cons_self
    rw [List.foldl_cons, Store.insertById_of_lt hr, ih]
    · rw [List.append_assoc, List.singleton_append]
    · rwa [List.append_assoc, List.singleton_append]

/-- A rule is what a record says: the formula is the one that its grouped form stands for. -/
theorem Record.rule_eq_ok_iff {record : Record} {r : Rule} :
    record.rule = .ok r ↔ record.formula.formula? = some r.formula ∧ record.id = r.id ∧
      record.text = r.text ∧ record.kind = r.kind ∧ record.number = r.number ∧
      record.sources = r.sources := by
  obtain ⟨⟨text, formula, kind, number, sources⟩, id⟩ := r
  unfold Record.rule
  cases record.formula.formula? with
  | none => simp
  | some f =>
    simp only [Except.ok.injEq, Rule.mk.injEq, Draft.mk.injEq, Option.some.injEq]
    constructor
    · rintro ⟨⟨htext, hf, hkind, hnumber, hsources⟩, hid⟩
      exact ⟨hf, hid, htext, hkind, hnumber, hsources⟩
    · rintro ⟨hf, hid, htext, hkind, hnumber, hsources⟩
      exact ⟨⟨htext, hf, hkind, hnumber, hsources⟩, hid⟩

/-- Every record that has a formula gives a rule. -/
theorem mapM_rule {records : List Record}
    (h : ∀ r ∈ records, ∃ f, r.formula.formula? = some f) :
    ∃ rules, records.mapM Record.rule = .ok rules := by
  induction records with
  | nil => exact ⟨[], rfl⟩
  | cons r records ih =>
    obtain ⟨f, hf⟩ := h r List.mem_cons_self
    obtain ⟨rules, hrules⟩ := ih fun a ha => h a (List.mem_cons_of_mem r ha)
    have hr : r.rule = .ok ⟨⟨r.text, f, r.kind, r.number, r.sources⟩, r.id⟩ :=
      Record.rule_eq_ok_iff.mpr ⟨hf, rfl, rfl, rfl, rfl, rfl⟩
    exact ⟨_ :: rules, by rw [List.mapM_cons, hr, hrules]; rfl⟩

/-- The rules that records give are those of the records, one by one.

**Proof sketch.** By induction on the records in one direction, and on the relation in the other. -/
theorem mapM_rule_eq_ok_iff {records : List Record} {rules : List Rule} :
    records.mapM Record.rule = .ok rules ↔
      List.Forall₂ (fun record r => record.rule = .ok r) records rules := by
  constructor
  · intro h
    induction records generalizing rules with
    | nil =>
      cases h
      exact .nil
    | cons record records ih =>
      rw [List.mapM_cons] at h
      cases hr : record.rule with
      | error e => simp [hr, bind, Except.bind] at h
      | ok r =>
        cases hrs : records.mapM Record.rule with
        | error e => simp [hr, hrs, bind, Except.bind] at h
        | ok rs =>
          simp only [hr, hrs, bind, Except.bind, pure, Except.pure, Except.ok.injEq] at h
          rw [← h]
          exact .cons hr (ih hrs)
  · intro h
    induction h with
    | nil => rfl
    | cons hr _ ih => rw [List.mapM_cons, hr, ih]; rfl

/-- Rebuilt rules have the ids of their records. -/
theorem map_id_of_forall₂_rule {records : List Record} {rules : List Rule}
    (h : List.Forall₂ (fun record r => record.rule = .ok r) records rules) :
    rules.map (·.id) = records.map (·.id) := by
  induction h with
  | nil => rfl
  | cons hr _ ih => rw [List.map_cons, List.map_cons, ih, (Record.rule_eq_ok_iff.mp hr).2.1]

/-- Every rebuilt rule comes from a record. -/
theorem exists_record_of_forall₂_rule {records : List Record} {rules : List Rule}
    (h : List.Forall₂ (fun record r => record.rule = .ok r) records rules) {r : Rule}
    (hr : r ∈ rules) : ∃ record ∈ records, record.rule = .ok r := by
  induction h with
  | nil => cases hr
  | cons ha _ ih =>
    rcases List.mem_cons.mp hr with rfl | hr
    · exact ⟨_, List.mem_cons_self, ha⟩
    · obtain ⟨record, hrecord, hrule⟩ := ih hr
      exact ⟨record, List.mem_cons_of_mem _ hrecord, hrule⟩

/-- The store of a payload whose parts agree. -/
theorem store_eq_ok_iff {p : Payload} {s : Store} :
    p.store = .ok s ↔ p.Agrees ∧ ∃ rules,
      List.Forall₂ (fun record r => record.rule = .ok r) p.records rules ∧
      s = ⟨rules.foldl (fun rs r => Store.insertById r rs) [], p.lastId, p.lastBase,
        p.lastCombined⟩ := by
  rw [← check_eq_ok_iff, store]
  simp only [← mapM_rule_eq_ok_iff]
  cases p.check with
  | error fault => simp [bind, Except.bind]
  | ok checked =>
    cases p.records.mapM Record.rule with
    | error fault => simp [bind, Except.bind]
    | ok rules => simp [bind, Except.bind, pure, Except.pure, eq_comm]

/-- A payload describes no store only where its parts do not agree. -/
theorem agrees_iff_exists_store {p : Payload} : p.Agrees ↔ ∃ s, p.store = .ok s := by
  simp only [store_eq_ok_iff]
  constructor
  · intro h
    obtain ⟨rules, hrules⟩ := mapM_rule fun r hr => (h.depth_le r hr).imp fun f hf => hf.1
    exact ⟨_, h, rules, mapM_rule_eq_ok_iff.mp hrules, rfl⟩
  · rintro ⟨s, h, -⟩
    exact h

end Payload

namespace Store

/-! ## Stores -/

/-- A store whose counters and sources cover its rules, with no formula too deep. -/
structure Coherent (s : Store) : Prop where
  number_le : ∀ r ∈ s.rules, ∀ n ∈ r.number, n ≤ s.lastNumber r.kind
  stored : ∀ r ∈ s.rules, ∀ id ∈ r.sources, ∃ b ∈ s.rules, b.id = id
  depth_le : ∀ r ∈ s.rules, r.formula.depth ≤ Formula.maxDepth

/-- Whether a store is coherent can be told from its rules. -/
instance (s : Store) : Decidable s.Coherent :=
  decidable_of_iff ((∀ r ∈ s.rules, ∀ n ∈ r.number, n ≤ s.lastNumber r.kind) ∧
      (∀ r ∈ s.rules, ∀ id ∈ r.sources, ∃ b ∈ s.rules, b.id = id) ∧
      ∀ r ∈ s.rules, r.formula.depth ≤ Formula.maxDepth)
    ⟨fun ⟨number_le, stored, depth_le⟩ => ⟨number_le, stored, depth_le⟩,
      fun h => ⟨h.number_le, h.stored, h.depth_le⟩⟩

/-- The record of a rule gives the rule. -/
theorem rule_record (r : Rule) : r.record.rule = .ok r :=
  Payload.Record.rule_eq_ok_iff.mpr ⟨r.formula.formula?_group, rfl, rfl, rfl, rfl, rfl⟩

/-- The records of a payload are rebuilt as the rules that they were made from. -/
theorem forall₂_rule_records (s : Store) :
    List.Forall₂ (fun record r => record.rule = .ok r) s.payload.records s.rules :=
  List.forall₂_map_left_iff.mpr (List.forall₂_same.mpr fun r _ => rule_record r)

/-- The parts of the payload of a store in order agree when the store is coherent.

**Proof sketch.** The records are those of the rules, one for one, and a formula is rebuilt from its
own groups. -/
theorem Ordered.payload_agrees_iff {s : Store} (hs : s.Ordered) :
    s.payload.Agrees ↔ s.Coherent := by
  have hids : s.payload.records.map (·.id) = s.rules.map (·.id) :=
    (Payload.map_id_of_forall₂_rule s.forall₂_rule_records).symm
  have hnumber (kind : RuleKind) : s.payload.lastNumber kind = s.lastNumber kind := by
    cases kind <;> rfl
  constructor
  · intro h
    refine ⟨fun r hr n hn => ?_, fun r hr id hid => ?_, fun r hr => ?_⟩
    · rw [← hnumber]
      exact h.number_le r.record (List.mem_map_of_mem hr) n hn
    · have hmem := h.stored r.record (List.mem_map_of_mem hr) id hid
      rw [hids] at hmem
      exact List.mem_map.mp hmem
    · obtain ⟨f, hf, hdepth⟩ := h.depth_le r.record (List.mem_map_of_mem hr)
      rw [Rule.record, Formula.formula?_group] at hf
      rwa [Option.some.inj hf]
  · intro h
    refine ⟨(List.length_map Rule.record).symm, hids ▸ hs.nodup_ids, ?_, ?_, ?_, ?_⟩
      <;> refine List.forall_mem_map.mpr fun r hr => ?_
    · exact hs.le_lastId r hr
    · rw [show s.payload.lastNumber r.record.kind = s.lastNumber r.kind from hnumber r.kind]
      exact h.number_le r hr
    · exact ⟨r.formula, r.formula.formula?_group, h.depth_le r hr⟩
    · intro id hid
      rw [hids]
      exact List.mem_map.mpr (h.stored r hr id hid)

/-- **The payload of a store in order describes the store** where it is coherent, and describes none
where it is not. -/
theorem Ordered.payload_store {s : Store} (hs : s.Ordered) :
    (s.Coherent → s.payload.store = .ok s) ∧
      (¬ s.Coherent → ∃ fault, s.payload.store = .error fault) := by
  rw [← hs.payload_agrees_iff]
  constructor
  · intro h
    refine Payload.store_eq_ok_iff.mpr ⟨h, s.rules, s.forall₂_rule_records, ?_⟩
    rw [Payload.foldl_insertById_of_pairwise (by simpa using hs.increasing), List.nil_append]
    rfl
  · intro h
    cases hstore : s.payload.store with
    | error fault => exact ⟨fault, rfl⟩
    | ok s' => exact absurd (Payload.agrees_iff_exists_store.mpr ⟨s', hstore⟩) h

end Store

/-- **A store that a payload describes is in order and coherent**, and has the counters of the
payload.

**Proof sketch.** Putting the rules in order only permutes them, since their ids differ. So every
rule comes from a record, and what was checked of the record holds of the rule. -/
theorem Payload.store_ok {p : Payload} {s : Store} (h : p.store = .ok s) :
    s.Ordered ∧ s.Coherent ∧ s.lastId = p.lastId ∧ ∀ kind,
    s.lastNumber kind = p.lastNumber kind := by
  obtain ⟨hp, rules, hrules, rfl⟩ := store_eq_ok_iff.mp h
  have hids := map_id_of_forall₂_rule hrules
  have hnodup : (rules.map (·.id)).Nodup := hids ▸ hp.nodup
  have hmem (r : Rule) :
      r ∈ rules.foldl (fun rs r => Store.insertById r rs) [] ↔ r ∈ rules :=
    (perm_foldl_insertById hnodup).mem_iff
  -- Every rule of the store comes from a record, with the id, kind, number and sources of it.
  have hrecord {r : Rule} (hr : r ∈ rules.foldl (fun rs r => Store.insertById r rs) []) :=
    exists_record_of_forall₂_rule hrules ((hmem r).mp hr)
  have hnumber (kind : RuleKind) :
      (⟨[], p.lastId, p.lastBase, p.lastCombined⟩ : Store).lastNumber kind = p.lastNumber kind := by
    cases kind <;> rfl
  refine ⟨⟨⟨pairwise_foldl_insertById rules .nil⟩, fun r hr => ?_⟩, ⟨fun r hr n hn => ?_,
    fun r hr id hid => ?_, fun r hr => ?_⟩, rfl, hnumber⟩ <;>
    obtain ⟨record, hmemRecord, hrule⟩ := hrecord hr <;>
    obtain ⟨hformula, hid', -, hkind, hnum, hsources⟩ := Record.rule_eq_ok_iff.mp hrule
  · exact hid' ▸ hp.id_le record hmemRecord
  · have hle := hp.number_le record hmemRecord n (hnum ▸ hn)
    rw [hkind, ← hnumber] at hle
    exact hle
  · have hstored := hp.stored record hmemRecord id (hsources ▸ hid)
    rw [← hids] at hstored
    obtain ⟨b, hb, hbid⟩ := List.mem_map.mp hstored
    exact ⟨b, (hmem b).mpr hb, hbid⟩
  · obtain ⟨f, hf, hdepth⟩ := hp.depth_le record hmemRecord
    rw [hformula] at hf
    rwa [Option.some.inj hf]

end Eligibility
