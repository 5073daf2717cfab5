import Eligibility.Proofs.Outcome
import Mathlib.Logic.Relation

/-!
# Runs of an engine

A run is a sequence of requests to an engine, between which calls of the store can begin and cease
to fail and a host can take numbers of its own. Whatever a request answers, its effect on the store
is a sequence of acts: a number is taken, or a rule is stored that the engine made from what the
store holds. So what every act preserves holds after every run, and what it preserves as long as no
counter wraps holds after every run that begins with room on its counters.

## Main definitions

* `Request`, `Answer`, `Event`, `Host.after` — runs.
* `Host.HasRoomFor` — a host at which a run wraps no counter.
* `Draft.Made`, `Store.Act`, `Store.Acts`, `Store.Reachable` — what a run does to a store.

## Main results

* `Request.perform_cases` — a request changes nothing, or takes a number and stores a draft with it.
* `Host.step_cases` — what an event does to the store, also when it fails.
* `Host.invariant_after` — what every act preserves holds after every run.
* `Host.acts_after` — the store of a run is reached by acts.
* `Store.Reachable.invariant` — what every act preserves holds in every store that is reached.
* `Store.Reachable.forall_rules` — what the rules have that the engine makes, all stored rules have.

## Implementation notes

The acts forget which request they belong to and in which order the calls of one request stand, as
far as no invariant needs it: a rule that is stored carries the last number of its kind. A single
act can wrap a counter, and one is enough in a store that was restored with a counter at its end; a
sequence of acts (`Store.Acts`) is one in which this does not happen. In a run from the empty store
it takes `2 ^ 64` events (`Host.hasRoomFor_of_hasRoom`).
-/

set_option relaxedAutoImplicit false
set_option autoImplicit false

namespace Eligibility

/-! ## Runs -/

/-- What a host asks of an engine. -/
inductive Request where
  | createRule (text : String)
  | combineRules (ids : List Nat)
  | rules (kind : RuleKind)
  | evaluate (ctx : Context)
  | evaluateJson (text : String)
  | evaluateRule (id : Nat) (ctx : Context)

/-- What an engine answers to a request that succeeds. -/
inductive Answer where
  | stored (r : Rule)
  | listed (rs : List Rule)
  | verdict (holds : Bool)

/-- Makes a request to the engine with the given limits. -/
def Request.perform (limits : Limits) : Request → Access EngineError Answer
  | createRule text => .stored <$> Engine.createRule limits text
  | combineRules ids => .stored <$> Engine.combineRules limits ids
  | rules kind => .listed <$> Engine.rules kind
  | evaluate ctx => .verdict <$> Engine.evaluate ctx
  | evaluateJson text => .verdict <$> Engine.evaluateJson text
  | evaluateRule id ctx => .verdict <$> Engine.evaluateRule id ctx

/-- What happens at a host: a request, a number taken outside of any request, or a change of the
calls that fail. -/
inductive Event where
  | request (r : Request)
  | allocate (kind : RuleKind)
  | failures (failure : StoreCall → Option StoreError)

/-- The kind of rule that a request makes, if it makes one. -/
def Request.makes? : Request → Option RuleKind
  | createRule _ => some .base
  | combineRules _ => some .combined
  | _ => none

/-- The kind of rule that an event makes, if it makes one. -/
def Event.makes? : Event → Option RuleKind
  | request r => r.makes?
  | _ => none

namespace Host

/-- The host after an event. -/
def step (limits : Limits) (host : Host) : Event → Host
  | .request r => ((r.perform limits).outcome host).2
  | .allocate kind => ((Access.takeNumber kind).outcome host).2
  | .failures failure => { host with failure := failure }

/-- The host after a run, which is a list of events. -/
def after (limits : Limits) (host : Host) (run : List Event) : Host :=
  run.foldl (step limits) host

/-- A host at which a run wraps no counter: before every event all counters can go on. -/
def HasRoomFor (limits : Limits) : Host → List Event → Prop
  | _, [] => True
  | host, event :: run => host.store.HasRoom 1 ∧ HasRoomFor limits (host.step limits event) run

/-- Whether the counters have room for a run can be told by following it. -/
instance decidableHasRoomFor (limits : Limits) :
    (host : Host) → (run : List Event) → Decidable (host.HasRoomFor limits run)
  | _, [] => .isTrue trivial
  | host, event :: run =>
    have := decidableHasRoomFor limits (host.step limits event) run
    inferInstanceAs (Decidable (host.store.HasRoom 1 ∧ _))

end Host

/-! ## Acts -/

/-- The drafts that the engine stores in a store: parsed from a text, or combined from stored rules,
and with the last number of their kind. -/
inductive Draft.Made (limits : Limits) (s : Store) : Draft → Prop where
  | base {text : String} {formula : Formula} (short : text.utf8ByteSize ≤ limits.maxLength)
      (parsed : Formula.parse limits.maxNesting text = .ok formula) :
      Made limits s (.base text formula (s.lastNumber .base))
  | combined {ids : List Nat} {formula : Formula}
      (accepted : Engine.conjunctionOf limits ids.eraseDups (s.findByIds ids.eraseDups) =
        .ok formula) :
      Made limits s (.combined formula.text formula (some (s.lastNumber .combined))
        ((s.findByIds ids.eraseDups).map (·.id)))

namespace Store

/-- What an engine does to a store: it takes a number, or stores a rule that it made. -/
inductive Act (limits : Limits) (s : Store) : Store → Prop where
  | takeNumber (kind : RuleKind) : Act limits s (s.takeNumber kind).2
  | create {d : Draft} {r : Rule} {s' : Store} (made : d.Made limits s)
      (h : s.create d = .ok (r, s')) : Act limits s s'

/-- A sequence of acts none of which wraps a counter. -/
def Acts (limits : Limits) : Store → Store → Prop :=
  Relation.ReflTransGen fun s s' => Act limits s s' ∧ s.Onward s'

/-- A store that acts reach from the empty one. -/
def Reachable (limits : Limits) (s : Store) : Prop := Acts limits empty s

/-- **What every act preserves holds in every store that is reached.** -/
theorem Reachable.invariant {limits : Limits} {P : Store → Prop} (start : P empty)
    (preserved : ∀ {s s' : Store}, P s → Act limits s s' → s.Onward s' → P s') {s : Store}
    (h : Reachable limits s) : P s := by
  induction h with
  | refl => exact start
  | tail _ act ih => exact preserved ih act.1 act.2

/-- Every act that wraps no counter keeps a store in order. -/
theorem Ordered.act {limits : Limits} {s s' : Store} (hs : s.Ordered) (act : Act limits s s')
    (honward : s.Onward s') : s'.Ordered := by
  cases act with
  | takeNumber kind => exact hs.takeNumber kind
  | create _ h => exact hs.create (honward.lt_of_create h) h

/-- Acts keep the order of a store. -/
theorem Ordered.acts {limits : Limits} {s s' : Store} (hs : s.Ordered) (h : Acts limits s s') :
    s'.Ordered := by
  induction h with
  | refl => exact hs
  | tail _ act ih => exact ih.act act.1 act.2

/-- A store that is reached is in order. -/
theorem Reachable.ordered {limits : Limits} {s : Store} (h : Reachable limits s) : s.Ordered :=
  ordered_empty.acts h

/-- **What the rules have that the engine makes, all stored rules have**, as long as further rules
take it from none of them.

**Proof sketch.** Taking a number changes no rule, and a rule that is stored goes to the end: the
ones before it keep the property, and it has the property itself because the engine made it of
them. -/
theorem Reachable.forall_rules {limits : Limits} {P : List Rule → Rule → Prop}
    (kept : ∀ {rs : List Rule} {r new : Rule}, P rs r → P (rs ++ [new]) r)
    (made : ∀ {s : Store} {d : Draft}, s.Ordered → (∀ r ∈ s.rules, P s.rules r) →
      d.Made limits s → P s.rules ⟨d, s.lastId + 1⟩)
    {s : Store} (h : Reachable limits s) : ∀ r ∈ s.rules, P s.rules r := by
  have hinvariant : s.Ordered ∧ ∀ r ∈ s.rules, P s.rules r := by
    refine h.invariant (P := fun s => s.Ordered ∧ ∀ r ∈ s.rules, P s.rules r)
      ⟨ordered_empty, by simp [empty]⟩ ?_
    rintro s s' ⟨hordered, hrules⟩ act honward
    refine ⟨hordered.act act honward, ?_⟩
    cases act with
    | takeNumber kind =>
      rw [takeNumber_rules]
      exact hrules
    | @create d r _ hmade hcreate =>
      have hroom := honward.lt_of_create hcreate
      rw [hordered.create_rules hroom hcreate]
      intro a ha
      apply kept
      rcases List.mem_append.mp ha with ha | ha
      · exact hrules a ha
      · rw [List.mem_singleton.mp ha, (create_ok hcreate).1, next_of_lt hroom]
        exact made hordered hrules hmade
  exact hinvariant.2

end Store

/-! ## Requests -/

/-- **What a request does**: it leaves the host as it is, and its answer is not a rule that was
stored; or it takes a number of the kind that it makes and stores a draft of the engine that carries
it.

**Proof sketch.** By cases on the request. A request that only reads is a single call, and its
answer is no rule that was stored. One that makes a rule comes to the second case once everything
that can refuse it has accepted; the rules that a combination found are still stored then, because
taking a number changes none. -/
theorem Request.perform_cases (limits : Limits) (request : Request) (host : Host) :
    (∃ answer, (request.perform limits).outcome host = (answer, host) ∧
      (∀ r, answer ≠ .ok (.stored r)) ∧
      ∀ e, answer = .error (.store e) → ∃ c, host.failure c = some e) ∨
    ∃ kind draft, request.makes? = some kind ∧
      (∀ n, Draft.kind (draft n) = kind ∧ Draft.number (draft n) = some n) ∧
      (∀ taken : Store, taken.rules = host.store.rules →
        (draft (taken.lastNumber kind)).Made limits taken) ∧
      (request.perform limits).outcome host =
        (Answer.stored <$> Engine.storeNumbered kind draft).outcome host := by
  have hevaluate (ctx : Context) :
      ∃ answer, (Answer.verdict <$> Engine.evaluate ctx).outcome host = (answer, host) ∧
        (∀ r, answer ≠ .ok (.stored r)) ∧
        ∀ e, answer = .error (.store e) → ∃ c, host.failure c = some e := by
    rw [Access.outcome_map, Engine.evaluate_outcome]
    cases hfail : host.failure .findAll with
    | some e => exact ⟨_, rfl, nofun, fun x hx => ⟨.findAll, by cases hx; exact hfail⟩⟩
    | none => exact ⟨_, rfl, nofun, nofun⟩
  cases request with
  | createRule text =>
    rw [perform, Access.outcome_map, Engine.createRule_outcome]
    split
    · exact .inl ⟨_, rfl, nofun, nofun⟩
    · rename_i hlong
      cases hparse : Formula.parse limits.maxNesting text with
      | error e => exact .inl ⟨_, rfl, nofun, nofun⟩
      | ok formula =>
        refine .inr ⟨.base, .base text formula, rfl, fun _ => ⟨rfl, rfl⟩, fun taken _ => ?_, ?_⟩
        · exact .base (Nat.le_of_not_lt hlong) hparse
        · rw [Access.outcome_map]
  | combineRules ids =>
    rw [perform, Access.outcome_map, Engine.combineRules_outcome]
    cases hfail : host.failure .findByIds with
    | some e => exact .inl ⟨_, rfl, nofun, fun x hx => ⟨.findByIds, by cases hx; exact hfail⟩⟩
    | none =>
      dsimp only
      cases haccepted : Engine.conjunctionOf limits ids.eraseDups
          (host.store.findByIds ids.eraseDups) with
      | error e =>
        refine .inl ⟨_, rfl, nofun, fun x hx => ?_⟩
        obtain rfl : e = .store x := Except.error.inj hx
        exact Bool.noConfusion (Engine.conjunctionOf_error haccepted)
      | ok formula =>
        refine .inr ⟨.combined, _, rfl, fun _ => ⟨rfl, rfl⟩, fun taken htaken => ?_,
          (Access.outcome_map _ _ _).symm⟩
        -- taking the number has not changed the rules that were found
        rw [← Store.findByIds_congr htaken] at haccepted ⊢
        exact .combined haccepted
  | rules kind =>
    rw [perform, Access.outcome_map, Engine.rules_outcome]
    cases hfail : host.failure .findAll with
    | some e => exact .inl ⟨_, rfl, nofun, fun x hx => ⟨.findAll, by cases hx; exact hfail⟩⟩
    | none => exact .inl ⟨_, rfl, nofun, nofun⟩
  | evaluate ctx => exact .inl (hevaluate ctx)
  | evaluateJson text =>
    rw [perform, Engine.evaluateJson]
    cases Context.ofJsonText text with
    | error e => exact .inl ⟨_, rfl, nofun, nofun⟩
    | ok ctx => exact .inl (hevaluate ctx)
  | evaluateRule id ctx =>
    rw [perform, Access.outcome_map, Engine.evaluateRule_outcome]
    cases hfail : host.failure .findByIds with
    | some e => exact .inl ⟨_, rfl, nofun, fun x hx => ⟨.findByIds, by cases hx; exact hfail⟩⟩
    | none =>
      cases host.store.find? id with
      | none => exact .inl ⟨_, rfl, nofun, nofun⟩
      | some r => exact .inl ⟨_, rfl, nofun, nofun⟩

namespace Host

/-- **What an event does to the store**, also when it fails: nothing; or a number is taken; or a
number is taken of the kind that the event makes, and then a rule of this kind is stored that the
engine made.

**Proof sketch.** A request is taken apart by `Request.perform_cases`, and what it stores by
`Engine.storeNumbered_cases`. The other events take a number or change nothing. -/
theorem step_cases (limits : Limits) (host : Host) (event : Event) :
    (host.step limits event).store = host.store ∨
    ∃ kind, (host.step limits event).store = (host.store.takeNumber kind).2 ∨
      event.makes? = some kind ∧ ∃ d r, Draft.kind d = kind ∧
        d.Made limits (host.store.takeNumber kind).2 ∧
        (host.store.takeNumber kind).2.create d = .ok (r, (host.step limits event).store) := by
  cases event with
  | request request =>
    rw [step]
    rcases request.perform_cases limits host with
      ⟨answer, houtcome, -⟩ | ⟨kind, draft, hmakes, hdraft, made, houtcome⟩
    · rw [houtcome]
      exact .inl rfl
    · rw [houtcome, Access.outcome_map]
      rcases Engine.storeNumbered_cases kind draft host with
        ⟨x, after, hstored, rfl | rfl⟩ | ⟨r, store, hcreate, hstored⟩
      · rw [hstored]
        exact .inl rfl
      · rw [hstored]
        exact .inr ⟨kind, .inl rfl⟩
      · rw [hstored]
        exact .inr ⟨kind, .inr ⟨hmakes, _, r, (hdraft _).1,
          made _ (Store.takeNumber_rules host.store kind), hcreate⟩⟩
  | allocate kind =>
    rw [step, Access.outcome_takeNumber]
    cases host.failure (.takeNumber kind) with
    | some e => exact .inl rfl
    | none => exact .inr ⟨kind, .inl rfl⟩
  | failures failure => exact .inl rfl

/-! ## Invariants of runs -/

section

variable {limits : Limits} {host : Host}

/-- What every act preserves is preserved by every event. -/
theorem invariant_step {P : Store → Prop}
    (preserved : ∀ {s s' : Store}, P s → Store.Act limits s s' → P s') (h : P host.store)
    (event : Event) : P (host.step limits event).store := by
  rcases host.step_cases limits event with
    hsame | ⟨kind, htaken | ⟨-, d, r, -, hmade, hcreate⟩⟩
  · rwa [hsame]
  · rw [htaken]
    exact preserved h (.takeNumber kind)
  · exact preserved (preserved h (.takeNumber kind)) (.create hmade hcreate)

/-- **What every act preserves holds after every run**, also where counters wrap. -/
theorem invariant_after {P : Store → Prop}
    (preserved : ∀ {s s' : Store}, P s → Store.Act limits s s' → P s') (h : P host.store)
    (run : List Event) : P (host.after limits run).store := by
  induction run generalizing host with
  | nil => exact h
  | cons event run ih => exact ih (invariant_step preserved h event)

/-- An event changes the store by acts only, which wrap no counter where there is room. -/
theorem acts_step (hroom : host.store.HasRoom 1) (event : Event) :
    Store.Acts limits host.store (host.step limits event).store := by
  rcases host.step_cases limits event with
    hsame | ⟨kind, htaken | ⟨-, d, r, -, hmade, hcreate⟩⟩
  · rw [hsame]
    exact .refl
  · rw [htaken]
    exact .single ⟨.takeNumber kind, Store.onward_takeNumber (hroom.lastNumber kind)⟩
  · have hid : (host.store.takeNumber kind).2.lastId + 1 < 2 ^ 64 := by
      rw [Store.takeNumber_lastId]
      exact hroom.lastId
    exact .tail (.single ⟨.takeNumber kind, Store.onward_takeNumber (hroom.lastNumber kind)⟩)
      ⟨.create hmade hcreate, Store.onward_create hid hcreate⟩

/-- **A run changes the store by acts only**, which wrap no counter where there is room for it. -/
theorem acts_after {run : List Event} (hroom : host.HasRoomFor limits run) :
    Store.Acts limits host.store (host.after limits run).store := by
  induction run generalizing host with
  | nil => exact .refl
  | cons event run ih => exact (acts_step hroom.1 event).trans (ih hroom.2)

/-! ## Room for runs -/

/-- An event uses up room for one event. -/
theorem hasRoom_step {n : Nat} (h : host.store.HasRoom (n + 1)) (event : Event) :
    (host.step limits event).store.HasRoom n := by
  rcases host.step_cases limits event with
    hsame | ⟨kind, htaken | ⟨-, d, r, -, -, hcreate⟩⟩
  · rw [hsame]
    exact h.mono (Nat.le_succ n)
  · rw [htaken]
    exact h.takeNumber kind
  · -- the number and the id that are taken belong to two counters
    have hid := h.lastId
    have hle := Store.next_le host.store.lastId
    rw [(Store.create_ok hcreate).2.1]
    refine ⟨?_, (h.takeNumber kind).lastNumber⟩
    show Store.next (host.store.takeNumber kind).2.lastId + n < 2 ^ 64
    rw [Store.takeNumber_lastId]
    omega

/-- A host has room for a run where its counters are as far from their ends as the run is long. -/
theorem hasRoomFor_of_hasRoom {run : List Event} (h : host.store.HasRoom run.length) :
    host.HasRoomFor limits run := by
  induction run generalizing host with
  | nil => trivial
  | cons event run ih => exact ⟨h.mono (Nat.le_add_left 1 run.length), ih (hasRoom_step h event)⟩

/-- There is room for a run exactly where there is for its parts, one after the other. -/
theorem hasRoomFor_append {run more : List Event} :
    host.HasRoomFor limits (run ++ more) ↔
      host.HasRoomFor limits run ∧ (host.after limits run).HasRoomFor limits more := by
  induction run generalizing host with
  | nil => exact (true_and _).to_iff.symm
  | cons event run ih => exact (and_congr_right fun _ => ih).trans and_assoc.symm

end

end Host

end Eligibility
