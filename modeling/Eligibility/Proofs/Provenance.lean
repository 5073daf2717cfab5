import Eligibility.Proofs.Conjunction
import Eligibility.Proofs.Run
import Mathlib.Data.Nat.Init

/-!
# What a combined rule rests on

A combined rule names the rules that it was made of. These are stored before it and never change, so
following the names downwards ends at base rules. The combined rule holds exactly where all the base
rules hold that are reached in this way, however many combinations lie between.

## Main definitions

* `Rule.MadeOf` — a combined rule and the rules that it was made of.
* `Rule.Traced` — a base rule, or a rule made of older stored ones.
* `Store.Source`, `Store.RestsOn` — one step from a rule to a rule it names, and the base rules that
  such steps reach.

## Main results

* `Draft.Made.traced` — the engine makes such rules.
* `Store.Reachable.traced` — every stored rule is a base rule or made of older stored rules.
* `Store.Reachable.eval_iff_restsOn` — a stored rule holds where the base rules do that it rests on.
* `Host.evaluate_iff_base_rules` — the sources and the meaning of combined rules after every run.
-/

set_option relaxedAutoImplicit false
set_option autoImplicit false

namespace Eligibility

/-- No element stands twice in a list without its repetitions. -/
theorem nodup_eraseDups {α : Type} [BEq α] [LawfulBEq α] (as : List α) : as.eraseDups.Nodup := by
  match as with
  | [] => simp
  | a :: as =>
    have hlength : (as.filter fun b => !b == a).length < as.length + 1 :=
      Nat.lt_succ_of_le (List.length_filter_le _ as)
    rw [List.eraseDups_cons, List.nodup_cons]
    refine ⟨?_, nodup_eraseDups (as.filter fun b => !b == a)⟩
    rw [List.mem_eraseDups]
    simp
termination_by as.length

/-! ## How a combined rule is made -/

/-- A combined rule that is the conjunction of the given rules, in the order in which it names
them. -/
structure Rule.MadeOf (limits : Limits) (r : Rule) (found : List Rule) : Prop where
  ids : found.map (·.id) = r.sources
  nodup : r.sources.Nodup
  older : ∀ b ∈ found, b.id < r.id
  combine : Formula.combine limits.minCombined (found.map (·.formula)) = .ok r.formula

/-- A rule among the stored ones that is a base rule without sources, or made of older stored
rules. -/
inductive Rule.Traced (limits : Limits) (rs : List Rule) (r : Rule) : Prop where
  | base (kind : r.kind = .base) (sources : r.sources = [])
  | combined (found : List Rule) (kind : r.kind = .combined) (stored : ∀ b ∈ found, b ∈ rs)
      (made : r.MadeOf limits found)

namespace Rule

variable {limits : Limits} {r : Rule} {found : List Rule}

/-- A combined rule names as many rules as a combination needs. -/
theorem MadeOf.le_length (h : r.MadeOf limits found) :
    max limits.minCombined Formula.minCombined ≤ r.sources.length := by
  have hlength := (Formula.combine_ok h.combine).1
  rw [List.length_map] at hlength
  rw [← h.ids, List.length_map]
  exact hlength

/-- **A combined rule holds where the rules hold that it was made of.** -/
theorem MadeOf.eval_iff (h : r.MadeOf limits found) (ctx : Context) :
    r.formula.eval ctx = true ↔ ∀ b ∈ found, b.formula.eval ctx = true := by
  obtain ⟨_, _, first, rest, hformulas, hr⟩ := Formula.combine_ok h.combine
  rw [hr, Formula.eval_conjunction, ← hformulas, List.forall_mem_map]

/-- A rule stays traced as further rules are stored. -/
theorem Traced.append {rs : List Rule} (h : r.Traced limits rs) (new : Rule) :
    r.Traced limits (rs ++ [new]) := by
  cases h with
  | base hkind hsources => exact .base hkind hsources
  | combined found hkind hstored hmade =>
    exact .combined found hkind (fun b hb => List.mem_append_left _ (hstored b hb)) hmade

end Rule

/-- **The engine makes rules that are traced.**

**Proof sketch.** An authored rule rests on nothing. The sources of a combination are the ids of
rules that were found, so that they are stored and older, and no id is asked for twice. -/
theorem Draft.Made.traced {limits : Limits} {s : Store} {d : Draft} (hs : s.Ordered)
    (made : d.Made limits s) : Rule.Traced limits s.rules ⟨d, s.lastId + 1⟩ := by
  cases made with
  | base short parsed => exact .base rfl rfl
  | @combined ids formula accepted =>
    obtain ⟨hfound, hcombine, _⟩ := Engine.conjunctionOf_ok accepted
    have hids : (s.findByIds ids.eraseDups).map (·.id) = ids.eraseDups := by
      apply Store.map_id_findByIds
      intro id hid
      obtain ⟨r, hr, hrid⟩ := hfound id hid
      exact ⟨r, (Store.mem_of_mem_findByIds hr).1, hrid⟩
    have hstored : ∀ b ∈ s.findByIds ids.eraseDups, b ∈ s.rules :=
      fun b hb => (Store.mem_of_mem_findByIds hb).1
    refine .combined (s.findByIds ids.eraseDups) rfl hstored ⟨rfl, ?_, ?_, hcombine⟩
    · show ((s.findByIds ids.eraseDups).map (·.id)).Nodup
      rw [hids]
      exact nodup_eraseDups ids
    · intro b hb
      exact Nat.lt_succ_of_le (hs.le_lastId b (hstored b hb))

namespace Store

variable {limits : Limits} {s : Store}

/-- **Every stored rule is a base rule or made of older stored rules.** -/
theorem Reachable.traced (h : Reachable limits s) : ∀ r ∈ s.rules, r.Traced limits s.rules := by
  refine h.forall_rules (P := fun rs r => r.Traced limits rs) ?_ ?_
  · intro _ _ new hr
    exact hr.append new
  · intro s d hs _ hmade
    exact hmade.traced hs

/-! ## Following the sources -/

/-- A stored rule that another rule names as a source. -/
def Source (s : Store) (r b : Rule) : Prop := b ∈ s.rules ∧ b.id ∈ r.sources

/-- A base rule that is reached from a rule by following the sources, any number of times. -/
def RestsOn (s : Store) (r b : Rule) : Prop := b.kind = .base ∧ Relation.ReflTransGen s.Source r b

/-- A rule without sources rests on itself at most. -/
theorem restsOn_of_base {r b : Rule} (hsources : r.sources = []) (h : s.RestsOn r b) : b = r := by
  rcases Relation.ReflTransGen.cases_head h.2 with hrb | ⟨c, hrc, _⟩
  · exact hrb.symm
  · have hc : c.id ∈ r.sources := hrc.2
    rw [hsources] at hc
    cases hc

/-- A combined rule rests on what its sources rest on. -/
theorem restsOn_iff_of_combined {r b : Rule} (hkind : r.kind = .combined) :
    s.RestsOn r b ↔ ∃ c, s.Source r c ∧ s.RestsOn c b := by
  constructor
  · rintro ⟨hb, hreach⟩
    rcases Relation.ReflTransGen.cases_head hreach with hrb | ⟨c, hrc, hcb⟩
    · rw [← hrb, hkind] at hb
      cases hb
    · exact ⟨c, hrc, hb, hcb⟩
  · rintro ⟨c, hrc, hb, hcb⟩
    exact ⟨hb, .head hrc hcb⟩

/-- In a store in order, a combined rule names the rules that it was made of. -/
theorem Ordered.source_iff (hs : s.Ordered) {r : Rule} {found : List Rule}
    (hstored : ∀ b ∈ found, b ∈ s.rules) (hmade : r.MadeOf limits found) {b : Rule} :
    s.Source r b ↔ b ∈ found := by
  constructor
  · rintro ⟨hb, hid⟩
    rw [← hmade.ids, List.mem_map] at hid
    obtain ⟨c, hc, hcb⟩ := hid
    rwa [← hs.eq_of_id (hstored c hc) hb hcb]
  · intro hb
    refine ⟨hstored b hb, ?_⟩
    rw [← hmade.ids]
    exact List.mem_map_of_mem hb

/-- **A stored rule holds where the base rules hold that it rests on.**

**Proof sketch.** By strong induction on the id, which falls from a rule to its sources. A base rule
rests on itself alone. A combined rule holds where its sources hold, and rests on what they rest
on. -/
theorem Reachable.eval_iff_restsOn (h : Reachable limits s) (ctx : Context) {r : Rule}
    (hr : r ∈ s.rules) :
    r.formula.eval ctx = true ↔ ∀ b, s.RestsOn r b → b.formula.eval ctx = true := by
  induction hid : r.id using Nat.strong_induction_on generalizing r with
  | _ n ih =>
    cases h.traced r hr with
    | base hkind hsources =>
      constructor
      · intro heval b hb
        rw [restsOn_of_base hsources hb]
        exact heval
      · intro hall
        exact hall r ⟨hkind, .refl⟩
    | combined found hkind hstored hmade =>
      have hsources : ∀ c ∈ found,
          (c.formula.eval ctx = true ↔ ∀ b, s.RestsOn c b → b.formula.eval ctx = true) :=
        fun c hc => ih c.id (hid ▸ hmade.older c hc) (hstored c hc) rfl
      rw [hmade.eval_iff]
      constructor
      · intro hall b hb
        obtain ⟨c, hrc, hcb⟩ := (restsOn_iff_of_combined hkind).mp hb
        have hc : c ∈ found := (h.ordered.source_iff hstored hmade).mp hrc
        exact (hsources c hc).mp (hall c hc) b hcb
      · intro hall c hc
        rw [hsources c hc]
        intro b hcb
        have hrc : s.Source r c := (h.ordered.source_iff hstored hmade).mpr hc
        exact hall b ((restsOn_iff_of_combined hkind).mpr ⟨c, hrc, hcb⟩)

/-- The sources of a stored combined rule: distinct, enough, older than the rule and stored. -/
theorem Reachable.sources (h : Reachable limits s) {r : Rule} (hr : r ∈ s.rules)
    (hkind : r.kind = .combined) :
    r.sources.Nodup ∧ max Formula.minCombined limits.minCombined ≤ r.sources.length ∧
      ∀ id ∈ r.sources, id < r.id ∧ ∃ b ∈ s.rules, b.id = id := by
  cases h.traced r hr with
  | base hbase => simp [hkind] at hbase
  | combined found _ hstored hmade =>
    refine ⟨hmade.nodup, ?_, ?_⟩
    · rw [Nat.max_comm]
      exact hmade.le_length
    · intro id hid
      rw [← hmade.ids, List.mem_map] at hid
      obtain ⟨b, hb, rfl⟩ := hid
      exact ⟨hmade.older b hb, b, hstored b hb, rfl⟩

end Store

/-- Evaluation answers `true` when the store can be listed and some combined rule holds. -/
theorem Engine.evaluate_eq_true_iff (ctx : Context) (host : Host) :
    ((evaluate ctx).outcome host).1 = .ok true ↔
      host.failure .findAll = none ∧
        ∃ r ∈ host.store.rules, r.kind = .combined ∧ r.formula.eval ctx = true := by
  rw [evaluate_outcome]
  cases host.failure .findAll with
  | some e => simp
  | none =>
    simp only [Store.findAll, Except.ok.injEq, List.any_eq_true, List.mem_filter,
      RuleFilter.shows_some, beq_iff_eq, true_and, and_assoc]

namespace Host

/-- **A combined rule means the conjunction of the base rules it rests on.** After every run of an
engine that wraps no counter, whatever failed on the way, every stored combined rule names at least
two distinct older stored rules, and as many as the limits ask for; it holds exactly where all base
rules hold that are reached from it; and so evaluation answers `true` exactly when this is so for
some combined rule.

**Proof sketch.** In a store that is reached, every rule is traced to older rules. The meaning
follows by induction on ids: a base rule rests on itself, and a combined rule is the conjunction of
its sources, which are older. Evaluation looks for a combined rule that holds. -/
theorem evaluate_iff_base_rules (limits : Limits) (run : List Event)
    (hroom : (ofStore .empty).HasRoomFor limits run) :
    let host := (ofStore .empty).after limits run
    (∀ r ∈ host.store.rules, r.kind = .combined →
      (r.sources.Nodup ∧ max 2 limits.minCombined ≤ r.sources.length ∧
        ∀ id ∈ r.sources, id < r.id ∧ ∃ b ∈ host.store.rules, b.id = id) ∧
      ∀ ctx, r.formula.eval ctx = true ↔
        ∀ b, host.store.RestsOn r b → b.formula.eval ctx = true) ∧
    ∀ ctx, ((Engine.evaluate ctx).outcome host).1 = .ok true ↔
      host.failure .findAll = none ∧ ∃ r ∈ host.store.rules, r.kind = .combined ∧
        ∀ b, host.store.RestsOn r b → b.formula.eval ctx = true := by
  intro host
  have hreach : Store.Reachable limits host.store := acts_after hroom
  refine ⟨fun r hr hkind =>
    ⟨hreach.sources hr hkind, fun ctx => hreach.eval_iff_restsOn ctx hr⟩, ?_⟩
  intro ctx
  rw [Engine.evaluate_eq_true_iff]
  refine and_congr_right fun _ => exists_congr fun r => and_congr_right fun hr => ?_
  rw [hreach.eval_iff_restsOn ctx hr]

/-- A combination of a combination, after a request that the store refused. -/
theorem evaluate_iff_base_rules_twice :
    let run : List Event := [.request (.createRule "a = 'x'"), .request (.createRule "b = 'y'"),
      .request (.createRule "c = 'z'"), .request (.combineRules [2, 1, 2]),
      .failures fun c => if c = .create then some (.unavailable "full") else none,
      .request (.combineRules [4, 3]), .failures fun _ => none, .request (.combineRules [4, 3])]
    let host := (ofStore .empty).after .standard run
    (ofStore .empty).HasRoomFor .standard run ∧
      ∃ r ∈ host.store.rules, r.kind = .combined ∧ r.sources = [4, 3] ∧
      (∀ id ∈ r.sources, id < r.id ∧ ∃ b ∈ host.store.rules, b.id = id) ∧
      ∀ ctx, r.formula.eval ctx = true ↔
        ∀ b, host.store.RestsOn r b → b.formula.eval ctx = true := by
  intro run host
  have hroom : (ofStore .empty).HasRoomFor .standard run :=
    hasRoomFor_of_hasRoom (Store.hasRoom_empty (by decide))
  have hstored : ∃ r ∈ host.store.rules, r.kind = .combined ∧ r.sources = [4, 3] := by
    decide +kernel
  obtain ⟨r, hr, hkind, hsources⟩ := hstored
  obtain ⟨⟨-, -, holder⟩, hmeans⟩ := (evaluate_iff_base_rules .standard run hroom).1 r hr hkind
  exact ⟨hroom, r, hr, hkind, hsources, holder, hmeans⟩

end Host

end Eligibility
