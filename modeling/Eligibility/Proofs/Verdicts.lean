import Eligibility.Proofs.Provenance
import Eligibility.Proofs.Restoring

/-!
# Verdicts in a run

Evaluation asks whether some combined rule holds. As long as no counter wraps, rules never change
and are never removed, so a verdict that was positive stays positive whatever happens after it, and
it can only become positive when rules are combined: then exactly by the data for which all the
combined rules hold. When the counter of ids wraps, new rules take the places of old ones, and a
verdict can retreat.

## Main definitions

* `Host.verdict`, `Host.verdictOf` — the answers of an evaluation, and of an evaluation of one rule.
* `Store.accepts` — whether some combined rule of a store holds.
* `Store.Grown` — a store that has further rules, of some kinds, after the rules of another.

## Main results

* `Host.grown_step`, `Host.grown_after` — what an event and a run add.
* `Engine.combineRules_ok` — a combination that succeeds adds the conjunction of what was asked for.
* `Host.verdicts_never_retreat` — how the verdicts at two moments of a run compare.
* `Host.verdict_retreats` — a run that wraps the counter of ids, and a verdict that it takes back.

## Implementation notes

The store in which a run begins need not be empty, and need not be one that an engine made. All that
is used of it is that it is in order, which every store is that was restored (`Store.ofSnapshot_ok`)
or made without a wrap of the ids (`Store.sound_after`).
-/

set_option relaxedAutoImplicit false
set_option autoImplicit false

namespace Eligibility

/-! ## Stores that grow -/

namespace Store

/-- Whether some combined rule holds. -/
def accepts (s : Store) (ctx : Context) : Bool :=
  s.rules.any fun r => r.kind == .combined && r.formula.eval ctx

/-- The second store has the rules of the first and, after them, rules of the given kinds. -/
def Grown (kinds : RuleKind → Prop) (s s' : Store) : Prop :=
  ∃ new : List Rule, s'.rules = s.rules ++ new ∧ ∀ r ∈ new, kinds r.kind

namespace Grown

variable {kinds more : RuleKind → Prop} {s s' s'' : Store}

/-- A store grows by nothing as long as its rules stay. -/
theorem of_rules_eq (h : s'.rules = s.rules) : Grown kinds s s' :=
  ⟨[], by rw [h, List.append_nil], by simp⟩

/-- A store that has grown by rules of some kinds has grown by rules of more kinds. -/
theorem mono (h : Grown kinds s s') (hkinds : ∀ kind, kinds kind → more kind) :
    Grown more s s' := by
  obtain ⟨new, hrules, hnew⟩ := h
  exact ⟨new, hrules, fun r hr => hkinds r.kind (hnew r hr)⟩

/-- A store that has grown twice has grown. -/
theorem trans (h : Grown kinds s s') (h' : Grown kinds s' s'') : Grown kinds s s'' := by
  obtain ⟨new, hrules, hnew⟩ := h
  obtain ⟨new', hrules', hnew'⟩ := h'
  refine ⟨new ++ new', by rw [hrules', hrules, List.append_assoc], fun r hr => ?_⟩
  exact (List.mem_append.mp hr).elim (hnew r) (hnew' r)

/-- **A store that grows accepts what it accepted.** -/
theorem accepts_of_accepts (h : Grown kinds s s') {ctx : Context}
    (haccepts : s.accepts ctx = true) :
    s'.accepts ctx = true := by
  obtain ⟨new, hrules, -⟩ := h
  rw [accepts] at haccepts
  rw [accepts, hrules, List.any_append, haccepts, Bool.true_or]

/-- **A store that grows by base rules only accepts nothing else.** -/
theorem accepts_eq (h : Grown kinds s s') (hbase : ¬ kinds .combined) (ctx : Context) :
    s'.accepts ctx = s.accepts ctx := by
  obtain ⟨new, hrules, hnew⟩ := h
  have hnone : (new.any fun r => r.kind == .combined && r.formula.eval ctx) = false := by
    refine List.any_eq_false.mpr fun r hr => ?_
    have hkind : r.kind ≠ .combined := fun hcombined => hbase (hcombined ▸ hnew r hr)
    simp [hkind]
  rw [accepts, hrules, List.any_append, hnone, Bool.or_false, accepts]

/-- A rule that is found by its id is found in a store that has grown. -/
theorem find?_eq_some (h : Grown kinds s s') {id : Nat} {r : Rule} (hfind : s.find? id = some r) :
    s'.find? id = some r := by
  obtain ⟨new, hrules, -⟩ := h
  rw [find?] at hfind
  rw [find?, hrules, List.find?_append, hfind, Option.some_or]

end Grown

end Store

/-! ## What a run adds -/

namespace Host

variable {host : Host}

/-- What an event adds, unless the counter of ids wraps. -/
theorem grown_step (limits : Limits) (hs : host.store.Ordered)
    (hroom : host.store.lastId + 1 < 2 ^ 64) (event : Event) :
    Store.Grown (event.makes? = some ·) host.store (host.step limits event).store := by
  rcases host.step_cases limits event with
    hsame | ⟨kind, htaken | ⟨hmakes, d, r, hkind, -, hcreate⟩⟩
  · exact .of_rules_eq (congrArg Store.rules hsame)
  · exact .of_rules_eq ((congrArg Store.rules htaken).trans (Store.takeNumber_rules _ _))
  · rw [← Store.takeNumber_lastId host.store kind] at hroom
    have hrules := (hs.takeNumber kind).create_rules hroom hcreate
    rw [Store.takeNumber_rules] at hrules
    refine ⟨[r], hrules, List.forall_mem_singleton.mpr ?_⟩
    rw [hmakes, (Store.create_ok hcreate).1, hkind]

/-- **What a run adds**: rules of the kinds that its events make. -/
theorem grown_after (limits : Limits) (hs : host.store.Ordered) {run : List Event}
    (hroom : host.HasRoomFor limits run) :
    Store.Grown (fun kind => ∃ event ∈ run, event.makes? = some kind) host.store
      (host.after limits run).store := by
  induction run generalizing host with
  | nil => exact .of_rules_eq rfl
  | cons event run ih =>
    obtain ⟨hnow, hlater⟩ := hroom
    have hstep := (grown_step limits hs hnow.lastId event).mono fun kind hkind =>
      (⟨event, List.mem_cons_self, hkind⟩ : ∃ e ∈ event :: run, e.makes? = some kind)
    have hrun := (ih (hs.acts (acts_step hnow event)) hlater).mono fun kind ⟨e, he, hkind⟩ =>
      (⟨e, List.mem_cons_of_mem event he, hkind⟩ : ∃ e ∈ event :: run, e.makes? = some kind)
    exact hstep.trans hrun

end Host

/-! ## Verdicts -/

namespace Host

/-- What a host answers when attribute data is evaluated. -/
def verdict (host : Host) (ctx : Context) : Except EngineError Bool :=
  ((Engine.evaluate ctx).outcome host).1

/-- What a host answers when attribute data is evaluated by one rule. -/
def verdictOf (host : Host) (id : Nat) (ctx : Context) : Except EngineError Bool :=
  ((Engine.evaluateRule id ctx).outcome host).1

variable {host : Host} {ctx : Context}

/-- The verdict when the store can be listed. -/
theorem verdict_eq (h : host.failure .findAll = none) :
    host.verdict ctx = .ok (host.store.accepts ctx) := by
  rw [verdict, Engine.evaluate_outcome, h]
  simp only [Store.findAll, Store.accepts, List.any_filter, RuleFilter.shows_some]

/-- There is no verdict when the store cannot be listed. -/
theorem findAll_of_verdict {holds : Bool} (h : host.verdict ctx = .ok holds) :
    host.failure .findAll = none := by
  rw [verdict, Engine.evaluate_outcome] at h
  cases hfail : host.failure .findAll with
  | some e => simp [hfail] at h
  | none => rfl

/-- The verdict by a stored rule when the store can be asked for it. -/
theorem verdictOf_eq (h : host.failure .findByIds = none) {id : Nat} {r : Rule}
    (hr : host.store.find? id = some r) : host.verdictOf id ctx = .ok (r.formula.eval ctx) := by
  rw [verdictOf, Engine.evaluateRule_outcome, h, hr]

end Host

/-! ## Combinations -/

/-- A look-up of stored rules finds what holds exactly where all of them are found to hold. -/
theorem Store.Sorted.forall_findByIds {s : Store} (hs : s.Sorted) {ids : List Nat}
    (hfound : ∀ id ∈ ids, ∃ r ∈ s.findByIds ids, r.id = id) {p : Rule → Prop} :
    (∀ r ∈ s.findByIds ids, p r) ↔ ∀ id ∈ ids, ∃ r, s.find? id = some r ∧ p r := by
  constructor
  · intro hall id hid
    obtain ⟨r, hr, hrid⟩ := hfound id hid
    exact ⟨r, hs.find?_eq_some_iff.mpr ⟨(mem_of_mem_findByIds hr).1, hrid⟩, hall r hr⟩
  · intro hall r hr
    obtain ⟨id, hid, hfind⟩ := List.mem_filterMap.mp hr
    obtain ⟨a, ha, hp⟩ := hall id hid
    rwa [Option.some.inj (hfind.symm.trans ha)]

/-- **What combining rules did when it succeeded**: a combined rule stands at the end of the rules,
unless the counter of ids has wrapped, and it holds where all the rules hold that were asked for.

**Proof sketch.** The formula that was stored is the conjunction of the formulas found, and these
are the formulas of the ids asked for, repetitions aside. -/
theorem Engine.combineRules_ok {limits : Limits} {ids : List Nat} {host after : Host} {r : Rule}
    (hs : host.store.Ordered) (hroom : host.store.lastId + 1 < 2 ^ 64)
    (h : (combineRules limits ids).outcome host = (.ok r, after)) :
    after.failure = host.failure ∧ after.store.rules = host.store.rules ++ [r] ∧
    r.kind = .combined ∧
      ∀ ctx, r.formula.eval ctx = true ↔ ∀ id ∈ ids, host.verdictOf id ctx = .ok true := by
  rw [combineRules_outcome] at h
  cases hfail : host.failure .findByIds with
  | some e => simp [hfail] at h
  | none =>
    rw [hfail] at h
    dsimp only at h
    cases haccepted : conjunctionOf limits ids.eraseDups (host.store.findByIds ids.eraseDups) with
    | error e => simp [haccepted] at h
    | ok formula =>
      rw [haccepted] at h
      obtain ⟨hafter, hrules, n, hdraft⟩ := storeNumbered_ok hs hroom h
      refine ⟨hafter, hrules, congrArg Draft.kind hdraft, fun ctx => ?_⟩
      obtain ⟨hfound, hcombine, -⟩ := conjunctionOf_ok haccepted
      obtain ⟨-, -, first, rest, hformulas, hformula⟩ := Formula.combine_ok hcombine
      have hverdict {id : Nat} (hid : id ∈ ids.eraseDups) : host.verdictOf id ctx = .ok true ↔
          ∃ b, host.store.find? id = some b ∧ b.formula.eval ctx = true := by
        obtain ⟨b, hb, hbid⟩ := hfound id hid
        have hfind : host.store.find? id = some b :=
          hs.find?_eq_some_iff.mpr ⟨(Store.mem_of_mem_findByIds hb).1, hbid⟩
        simp [Host.verdictOf_eq hfail hfind, hfind]
      calc r.formula.eval ctx = true
        _ ↔ (Formula.conjunction first rest).eval ctx = true := by
          rw [show r.formula = formula from congrArg Draft.formula hdraft, hformula]
        _ ↔ ∀ b ∈ host.store.findByIds ids.eraseDups, b.formula.eval ctx = true := by
          rw [Formula.eval_conjunction, ← hformulas, List.forall_mem_map]
        _ ↔ ∀ id ∈ ids.eraseDups, host.verdictOf id ctx = .ok true := by
          rw [hs.forall_findByIds hfound]
          exact forall₂_congr fun id hid => (hverdict hid).symm
        _ ↔ ∀ id ∈ ids, host.verdictOf id ctx = .ok true := by
          simp only [List.mem_eraseDups]

/-- A store accepts by a further rule what it accepted, and where the rule is combined and holds. -/
theorem Store.accepts_concat {s s' : Store} {r : Rule} (hrules : s'.rules = s.rules ++ [r])
    (hkind : r.kind = .combined) (ctx : Context) :
    s'.accepts ctx = (s.accepts ctx || r.formula.eval ctx) := by
  rw [accepts, hrules, List.any_append, accepts]
  simp [hkind]

namespace Host

/-- **Verdicts never retreat** as long as no counter is at its end. Take a store in order, a run at
it, and two moments of the run at which the store can be read. What was accepted at the earlier one
is accepted at the later one; without a combination in between, nothing else is; and a stored rule
gives the same verdict at both. Just after a combination that succeeded, the data is accepted that
was accepted just before or for which all the rules hold that were combined.

**Proof sketch.** Between the two moments rules are only added at the end, so that a rule that held
still does; without a combination none of the added ones is combined. A combination that succeeds
adds one rule, which holds where all its sources hold. -/
theorem verdicts_never_retreat (limits : Limits) {host : Host} (hs : host.store.Ordered)
    (before between : List Event) (hroom : host.HasRoomFor limits (before ++ between))
    (ctx : Context) :
    let earlier := host.after limits before
    let later := earlier.after limits between
    (later.failure .findAll = none → earlier.verdict ctx = .ok true →
      later.verdict ctx = .ok true) ∧
    ((∀ ids, .request (.combineRules ids) ∉ between) →
      earlier.failure .findAll = none → later.failure .findAll = none →
      ∃ holds, earlier.verdict ctx = .ok holds ∧ later.verdict ctx = .ok holds) ∧
    (∀ ids r combined, earlier.store.lastId + 1 < 2 ^ 64 →
      (Engine.combineRules limits ids).outcome earlier = (.ok r, combined) →
      earlier.failure .findAll = none →
      ∃ holds, combined.verdict ctx = .ok holds ∧
        (holds = true ↔ earlier.verdict ctx = .ok true ∨
          ∀ id ∈ ids, earlier.verdictOf id ctx = .ok true)) ∧
    ∀ r ∈ earlier.store.rules, earlier.failure .findByIds = none → later.failure .findByIds = none →
      ∃ holds, earlier.verdictOf r.id ctx = .ok holds ∧ later.verdictOf r.id ctx = .ok holds := by
  intro earlier later
  obtain ⟨hroomBefore, hroomBetween⟩ := hasRoomFor_append.mp hroom
  have hs : earlier.store.Ordered := hs.acts (acts_after hroomBefore)
  have hgrown := earlier.grown_after limits hs hroomBetween
  refine ⟨fun hlater hverdict => ?_, fun hno hearlier hlater => ?_,
    fun ids r combined hid h hearlier => ?_, fun r hr hearlier hlater => ?_⟩
  · rw [verdict_eq (findAll_of_verdict hverdict), Except.ok.injEq] at hverdict
    rw [verdict_eq hlater, hgrown.accepts_of_accepts hverdict]
  · have hbase : ¬ ∃ event ∈ between, event.makes? = some .combined := by
      rintro ⟨event, hevent, hmakes⟩
      cases event with
      | request request =>
        cases request with
        | combineRules ids => exact hno ids hevent
        | createRule | rules | evaluate | evaluateJson | evaluateRule => cases hmakes
      | allocate | failures => cases hmakes
    exact ⟨_, verdict_eq hearlier, by rw [verdict_eq hlater, hgrown.accepts_eq hbase]⟩
  · obtain ⟨hfailure, hrules, hkind, heval⟩ := Engine.combineRules_ok hs hid h
    refine ⟨_, verdict_eq (hfailure ▸ hearlier), ?_⟩
    rw [Store.accepts_concat hrules hkind, Bool.or_eq_true, heval, verdict_eq hearlier,
      Except.ok.injEq]
  · have hfind : earlier.store.find? r.id = some r := hs.find?_eq_some_iff.mpr ⟨hr, rfl⟩
    exact ⟨_, verdictOf_eq hearlier hfind, verdictOf_eq hlater (hgrown.find?_eq_some hfind)⟩

/-- A combination that lets the data in, then a rule that the store refuses and a second combination
that the data does not satisfy. -/
theorem verdicts_never_retreat_refused :
    let ctx := Context.ofList [("a", .text "x"), ("b", .text "y")]
    let before : List Event := [.request (.createRule "a = 'x'"), .request (.createRule "b = 'y'")]
    let combination : Event := .request (.combineRules [2, 1, 2])
    let between : List Event :=
      [.failures fun c => if c = .create then some (.unavailable "full") else none,
        .request (.createRule "a = 'z'"), .failures fun _ => none,
        .request (.createRule "c = 'z'"), .request (.combineRules [1, 3])]
    let authored := (ofStore .empty).after .standard before
    let combined := (ofStore .empty).after .standard (before ++ [combination])
    let last := combined.after .standard between
    authored.verdict ctx = .ok false ∧ combined.verdict ctx = .ok true ∧
    last.verdict ctx = .ok true ∧
      (last.store.rules.map (·.id) = [1, 2, 3, 4, 5]) ∧
      ∃ holds, combined.verdictOf 3 ctx = .ok holds ∧ last.verdictOf 3 ctx = .ok holds := by
  intro ctx before combination between authored combined last
  have hauthored : authored.verdict ctx = .ok false := by decide +kernel
  have hcombined : combined.verdict ctx = .ok true := by decide +kernel
  have hlast : last.store.rules.map (·.id) = [1, 2, 3, 4, 5] := by decide +kernel
  have hread : combined.failure .findByIds = none ∧ last.failure .findByIds = none ∧
      last.failure .findAll = none := by decide +kernel
  have hrule : ∃ r ∈ combined.store.rules, r.id = 3 := by decide +kernel
  have hroom : (ofStore .empty).HasRoomFor .standard ((before ++ [combination]) ++ between) :=
    hasRoomFor_of_hasRoom (Store.hasRoom_empty (by decide))
  obtain ⟨r, hr, hid⟩ := hrule
  obtain ⟨hkept, -, -, hsame⟩ := verdicts_never_retreat .standard Store.ordered_empty
    (before ++ [combination]) between hroom ctx
  exact ⟨hauthored, hcombined, hkept hread.2.2 hcombined, hlast, hid ▸ hsame r hr hread.1 hread.2.1⟩

/-- **A verdict can retreat once the ids wrap**: a snapshot with the counter of ids at its end is
restored, and the fourth rule that is then stored takes the place of the combined rule that let the
data in. -/
theorem verdict_retreats :
    ¬ ∀ (bytes : Bytes) (s : Store), Store.ofSnapshot bytes = .ok s →
      ∀ (run : List Event) (ctx : Context), (ofStore s).verdict ctx = .ok true →
        ((ofStore s).after .standard run).verdict ctx = .ok true := by
  intro hall
  let a : Formula := .condition ⟨"a", .equal, .text "x"⟩
  let b : Formula := .condition ⟨"b", .equal, .text "y"⟩
  let full : Store := ⟨[⟨.base "a = 'x'" a 1, 1⟩, ⟨.base "b = 'y'" b 2, 2⟩,
    ⟨.combined "a = 'x' AND b = 'y'" (.join .and a b) (some 1) [1, 2], 3⟩], 2 ^ 64 - 1, 2, 1⟩
  let ctx := Context.ofList [("a", .text "x"), ("b", .text "y")]
  let run : List Event := List.replicate 4 (.request (.createRule "c = 'z'"))
  have hread : Store.ofSnapshot full.snapshot = .ok full := by decide +kernel
  have hearlier : (ofStore full).verdict ctx = .ok true := by decide +kernel
  have hlater : ((ofStore full).after .standard run).verdict ctx = .ok false := by decide +kernel
  have hkept := hall full.snapshot full hread run ctx hearlier
  cases hlater.symm.trans hkept

end Host

end Eligibility
