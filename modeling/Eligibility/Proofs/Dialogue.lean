import Eligibility.Proofs.Run

/-!
# Requests as dialogues

A request to an engine asks its store one thing after another, each in view of what was answered
before, and ends with an answer of its own. Written down as such a dialogue, a request shows which
calls it makes, in which order, and what each of them answers on a given host.

## Main definitions

* `Query`, `Exchange` — what a store can be asked, and a query with its answer.
* `Dialogue`, `Dialogue.access`, `Dialogue.exchanges` — dialogues, the computation that holds one,
  and what is exchanged in it.
* `Request.dialogue` — the dialogue of a request.
* `Dialogue.Candid` — a dialogue that ends at the first failure of the store, with this failure.

## Main results

* `Request.access_dialogue` — holding the dialogue of a request is making the request.
* `Dialogue.Candid.store_error_iff` — an answer is a failure of the store exactly where a call
  failed, and it is then the first failure.
* `Request.after_of_error` — what a request that fails has done to the store.
* `Request.error_leaves_store` — errors leave the store intact.

## Implementation notes

A dialogue is told also of failures and could go on after one. That those of an engine never do is a
theorem (`Request.candid_dialogue`) and not part of what a dialogue is.
-/

set_option relaxedAutoImplicit false
set_option autoImplicit false

namespace Eligibility

/-! ## Queries -/

/-- What a store can be asked, by the type of the answer. -/
inductive Query : Type → Type where
  | create (d : Draft) : Query Rule
  | findAll (filter : RuleFilter) : Query (List Rule)
  | findByIds (ids : List Nat) : Query (List Rule)
  | takeNumber (kind : RuleKind) : Query Nat

namespace Query

/-- The computation that asks a query. -/
def access : {β : Type} → Query β → Access StoreError β
  | _, create d => Access.create d
  | _, findAll filter => Access.findAll filter
  | _, findByIds ids => Access.findByIds ids
  | _, takeNumber kind => Access.takeNumber kind

/-- The call that asks a query. -/
def call : {β : Type} → Query β → StoreCall
  | _, create _ => .create
  | _, findAll _ => .findAll
  | _, findByIds _ => .findByIds
  | _, takeNumber kind => .takeNumber kind

/-- What a store answers to a query when the call does not fail, and the store after it. -/
def effect : {β : Type} → Query β → Store → Except StoreError (β × Store)
  | _, create d, s => s.create d
  | _, findAll filter, s => .ok (s.findAll filter, s)
  | _, findByIds ids, s => .ok (s.findByIds ids, s)
  | _, takeNumber kind, s => .ok (s.takeNumber kind)

/-- A question to the store is a single call, with the effect that it has on the store. -/
theorem access_eq_call {β : Type} (query : Query β) :
    query.access = Access.call query.call query.effect := by
  cases query <;> rfl

end Query

/-- A query and what the store answered. -/
structure Exchange where
  {β : Type}
  query : Query β
  answer : Except StoreError β

/-- The failure of the store, if the query was answered by one. -/
def Exchange.failure? (x : Exchange) : Option StoreError :=
  match x.answer with
  | .ok _ => none
  | .error e => some e

/-- One call after another on behalf of a request. -/
theorem Engine.onStore_bind {α β : Type} (first : Access StoreError β)
    (next : β → Access StoreError α) :
    onStore (first >>= next) = onStore first >>= fun b => onStore (next b) := by
  funext host
  have hwhole := outcome_onStore (first >>= next) host
  have hfirst := outcome_onStore first host
  rcases houtcome : first.outcome host with ⟨e | b, after⟩
  · rw [Access.outcome_bind_error houtcome] at hwhole
    rw [houtcome] at hfirst
    exact hwhole.trans (Access.outcome_bind_error hfirst fun b => onStore (next b)).symm
  · rw [Access.outcome_bind_ok houtcome, ← outcome_onStore] at hwhole
    rw [houtcome] at hfirst
    exact hwhole.trans (Access.outcome_bind_ok hfirst fun b => onStore (next b)).symm

/-! ## Dialogues -/

/-- Queries to a store, each in view of the answers before it, and an answer at the end. -/
inductive Dialogue (α : Type) where
  | finish (answer : Except EngineError α)
  | ask {β : Type} (query : Query β) (next : Except StoreError β → Dialogue α)

namespace Dialogue

variable {α β : Type}

/-- Asks a query and goes on only if it is answered. -/
def demand (query : Query β) (next : β → Dialogue α) : Dialogue α :=
  ask query fun
    | .ok b => next b
    | .error e => finish (.error (.store e))

/-- The computation that holds a dialogue. -/
def access : Dialogue α → Access EngineError α
  | finish answer => ExceptT.mk (pure answer)
  | ask query next => ExceptT.mk do
      let answer ← query.access.run
      (next answer).access.run

/-- What is exchanged in a dialogue on a host. -/
def exchanges : Dialogue α → Host → List Exchange
  | finish _, _ => []
  | ask query next, host =>
    let (answer, after) := query.access.outcome host
    ⟨query, answer⟩ :: (next answer).exchanges after

/-- A dialogue that is finished leaves the host as it is. -/
theorem outcome_finish (answer : Except EngineError α) (host : Host) :
    (finish answer).access.outcome host = (answer, host) := rfl

/-- A dialogue goes on with the answer and the host that its first question leaves. -/
theorem outcome_ask (query : Query β) (next : Except StoreError β → Dialogue α) (host : Host) :
    (ask query next).access.outcome host =
      (next (query.access.outcome host).1).access.outcome (query.access.outcome host).2 := rfl

/-- Demanding an answer is making the call on behalf of a request. -/
theorem access_demand (query : Query β) (next : β → Dialogue α) :
    (demand query next).access = Engine.onStore query.access >>= fun b => (next b).access := by
  funext host
  have hcall := Engine.outcome_onStore query.access host
  have hask := outcome_ask query (fun
    | .ok b => next b
    | .error e => finish (.error (.store e))) host
  rcases houtcome : query.access.outcome host with ⟨e | b, after⟩
  · rw [houtcome] at hcall hask
    exact hask.trans (Access.outcome_bind_error hcall _).symm
  · rw [houtcome] at hcall hask
    exact hask.trans (Access.outcome_bind_ok hcall fun b => (next b).access).symm

/-- A dialogue that ends at the first failure of the store, with this failure, and otherwise with no
failure of the store. -/
def Candid : Dialogue α → Prop
  | finish answer => ∀ e, answer ≠ .error (.store e)
  | ask _ next => (∀ e, next (.error e) = finish (.error (.store e))) ∧ ∀ b, (next (.ok b)).Candid

/-- A dialogue that passes on what the store refuses is candid as far as it goes on candidly. -/
theorem candid_demand {query : Query β} {next : β → Dialogue α} (h : ∀ b, (next b).Candid) :
    (demand query next).Candid :=
  ⟨fun _ => rfl, h⟩

/-- **The answer of a candid dialogue is a failure of the store exactly where a query failed**, and
it is the failure of the first query that did.

**Proof sketch.** By induction over the dialogue. A query that fails ends it with its failure; one
that is answered adds no failure to those of the rest. -/
theorem Candid.store_error_iff {d : Dialogue α} (h : d.Candid) (host : Host) (e : StoreError) :
    (d.access.outcome host).1 = .error (.store e) ↔
      (d.exchanges host).findSome? Exchange.failure? = some e := by
  induction d generalizing host with
  | finish answer => simpa [outcome_finish, exchanges] using h e
  | ask query next ih =>
    obtain ⟨hstop, hnext⟩ := h
    rw [outcome_ask, exchanges]
    rcases query.access.outcome host with ⟨x | b, after⟩
    · dsimp only
      rw [hstop, outcome_finish, exchanges, List.findSome?_cons]
      simp [Exchange.failure?]
    · exact ih (.ok b) (hnext b) after

/-- A dialogue without exchanges on one host is answered without the store. -/
theorem eq_finish_of_exchanges {d : Dialogue α} {host : Host} (h : d.exchanges host = []) :
    ∃ answer, d = finish answer := by
  cases d with
  | finish answer => exact ⟨answer, rfl⟩
  | ask query next => exact absurd h (List.cons_ne_nil _ _)

end Dialogue

/-! ## The dialogues of requests -/

namespace Request

/-- A dialogue that takes the next number of a kind and stores the draft that carries it. -/
def storeNumbered (kind : RuleKind) (draft : Nat → Draft) : Dialogue Answer :=
  .demand (.takeNumber kind) fun number =>
    .demand (.create (draft number)) fun r => .finish (.ok (.stored r))

/-- A dialogue that asks for the combined rules and tests attribute data against them. -/
def evaluation (ctx : Context) : Dialogue Answer :=
  .demand (.findAll ⟨some .combined⟩) fun rs =>
    .finish (.ok (.verdict (rs.any (·.formula.eval ctx))))

/-- The dialogue of a request. -/
def dialogue (limits : Limits) : Request → Dialogue Answer
  | createRule text =>
    if limits.maxLength < text.utf8ByteSize then
      .finish (.error (.ruleTooLong text.utf8ByteSize limits.maxLength))
    else
      match Formula.parse limits.maxNesting text with
      | .error e => .finish (.error (.rule e))
      | .ok formula => storeNumbered .base (.base text formula)
  | combineRules ids =>
    .demand (.findByIds ids.eraseDups) fun found =>
      match Engine.conjunctionOf limits ids.eraseDups found with
      | .error e => .finish (.error e)
      | .ok formula =>
        storeNumbered .combined fun number =>
          .combined formula.text formula (some number) (found.map (·.id))
  | rules kind => .demand (.findAll ⟨some kind⟩) fun rs => .finish (.ok (.listed rs))
  | evaluate ctx => evaluation ctx
  | evaluateJson text =>
    match Context.ofJsonText text with
    | .error e => .finish (.error (.context e))
    | .ok ctx => evaluation ctx
  | evaluateRule id ctx =>
    .demand (.findByIds [id]) fun
      | [] => .finish (.error (.unknownRule id))
      | r :: _ => .finish (.ok (.verdict (r.formula.eval ctx)))

/-- Holding the dialogue is storing a numbered draft. -/
theorem access_storeNumbered (kind : RuleKind) (draft : Nat → Draft) :
    (storeNumbered kind draft).access = Answer.stored <$> Engine.storeNumbered kind draft := by
  rw [storeNumbered, Engine.storeNumbered, Engine.onStore_bind, Dialogue.access_demand, map_bind]
  congr 1
  funext number
  rw [Dialogue.access_demand, map_eq_pure_bind]
  rfl

/-- Evaluation is the dialogue that asks for the rules and judges them. -/
theorem access_evaluation (ctx : Context) :
    (evaluation ctx).access = Answer.verdict <$> Engine.evaluate ctx := by
  rw [evaluation, Engine.evaluate, Engine.rules, Dialogue.access_demand, map_bind]
  rfl

/-- **Holding the dialogue of a request is making the request.**

**Proof sketch.** By cases on the request. What is decided before the first call is decided alike,
and the calls are the same in the same order. -/
theorem access_dialogue (limits : Limits) (request : Request) :
    (request.dialogue limits).access = request.perform limits := by
  cases request with
  | createRule text =>
    rw [dialogue, perform, Engine.createRule]
    split
    · rfl
    · cases Formula.parse limits.maxNesting text with
      | error e => rfl
      | ok formula => exact access_storeNumbered .base _
  | combineRules ids =>
    rw [dialogue, perform, Engine.combineRules, Dialogue.access_demand, map_bind]
    congr 1
    funext found
    cases Engine.conjunctionOf limits ids.eraseDups found with
    | error e => rfl
    | ok formula => exact access_storeNumbered .combined _
  | rules kind =>
    rw [dialogue, perform, Engine.rules, Dialogue.access_demand, map_eq_pure_bind]
    rfl
  | evaluate ctx => exact access_evaluation ctx
  | evaluateJson text =>
    rw [dialogue, perform, Engine.evaluateJson]
    cases Context.ofJsonText text with
    | error e => rfl
    | ok ctx => exact access_evaluation ctx
  | evaluateRule id ctx =>
    rw [dialogue, perform, Engine.evaluateRule, Dialogue.access_demand, map_bind]
    congr 1
    funext found
    cases found <;> rfl

end Request

namespace Request

/-- **A request ends at the first failure of the store, with this failure.**

**Proof sketch.** By cases on the request. Every call is a demand, which ends with the failure of
the store, and no answer that the engine gives itself is such a failure. -/
theorem candid_dialogue (limits : Limits) (request : Request) :
    (request.dialogue limits).Candid := by
  have hnumbered (kind : RuleKind) (draft : Nat → Draft) : (storeNumbered kind draft).Candid := by
    refine Dialogue.candid_demand fun number => Dialogue.candid_demand fun r => ?_
    simp [Dialogue.Candid]
  have hevaluation (ctx : Context) : (evaluation ctx).Candid :=
    Dialogue.candid_demand fun rs => by simp [Dialogue.Candid]
  cases request with
  | createRule text =>
    rw [dialogue]
    split
    · simp [Dialogue.Candid]
    · cases Formula.parse limits.maxNesting text with
      | error e => simp [Dialogue.Candid]
      | ok formula => exact hnumbered .base _
  | combineRules ids =>
    refine Dialogue.candid_demand fun found => ?_
    cases hjoined : Engine.conjunctionOf limits ids.eraseDups found with
    | error e =>
      intro x hx
      obtain rfl : e = .store x := Except.error.inj hx
      exact Bool.noConfusion (Engine.conjunctionOf_error hjoined)
    | ok formula => exact hnumbered .combined _
  | rules kind => exact Dialogue.candid_demand fun rs => by simp [Dialogue.Candid]
  | evaluate ctx => exact hevaluation ctx
  | evaluateJson text =>
    rw [dialogue]
    cases Context.ofJsonText text with
    | error e => simp [Dialogue.Candid]
    | ok ctx => exact hevaluation ctx
  | evaluateRule id ctx =>
    refine Dialogue.candid_demand fun found => ?_
    cases found <;> simp [Dialogue.Candid]

end Request

/-! ## Errors -/

/-- A function of the answer passes on every error. -/
theorem Access.outcome_of_map_error {ε α β : Type} {f : α → β} {access : Access ε α}
    {host after : Host} {e : ε} (h : outcome (f <$> access) host = (.error e, after)) :
    access.outcome host = (.error e, after) := by
  rw [outcome_map] at h
  rcases houtcome : access.outcome host with ⟨x | a, last⟩
  · rw [houtcome] at h
    cases h
    rfl
  · rw [houtcome] at h
    cases h

namespace Request

variable {limits : Limits} {request : Request} {host after : Host} {e : EngineError}

/-- **What a request that fails has done to the store**: nothing, or the store failed after it gave
out a number of the kind that was to be made. -/
theorem after_of_error (h : (request.perform limits).outcome host = (.error e, after)) :
    after = host ∨ ∃ x kind, e = .store x ∧ request.makes? = some kind ∧
      after = { host with store := (host.store.takeNumber kind).2 } := by
  rcases request.perform_cases limits host with
    ⟨answer, houtcome, -⟩ | ⟨kind, draft, hkind, -, -, houtcome⟩
  · rw [houtcome] at h
    exact .inl (Prod.mk.inj h).2.symm
  · rw [houtcome] at h
    obtain ⟨⟨x, hx⟩, hafter⟩ := Engine.storeNumbered_error (Access.outcome_of_map_error h)
    exact hafter.imp_right fun hafter => ⟨x, kind, hx, hkind, hafter⟩

/-- **Errors leave the store intact.** A request that fails has changed neither the rules nor the
last id of the store, and if it was itself at fault no number either. If the store failed, the error
is the one that its first failing call gave, and at most the counter for the kind of rule that was
to be made has gone on, by one as counters of 64 bits do. A request that is refused before it calls
the store is refused in the same way whatever the store does.

**Proof sketch.** What a failing request has done to the host is said by `after_of_error`, and with
which error it ends by the candour of its dialogue. A dialogue that asks nothing is finished at
every host alike. -/
theorem error_leaves_store (limits : Limits) (request : Request) (host : Host) :
    (∀ e after, (request.perform limits).outcome host = (.error e, after) →
      after.store.rules = host.store.rules ∧ after.store.lastId = host.store.lastId ∧
      (e.isUserError = true → ∀ kind, after.store.lastNumber kind = host.store.lastNumber kind) ∧
      ∀ x, e = .store x →
        ((request.dialogue limits).exchanges host).findSome? Exchange.failure? = some x ∧
        ∀ kind, after.store.lastNumber kind = host.store.lastNumber kind ∨
          request.makes? = some kind ∧
            after.store.lastNumber kind = Store.next (host.store.lastNumber kind)) ∧
    ∀ other refusal, (request.dialogue limits).exchanges other = [] →
      ((request.perform limits).outcome other).1 = .error refusal →
      (request.perform limits).outcome host = (.error refusal, host) := by
  constructor
  · intro e after h
    have hcandid := (candid_dialogue limits request).store_error_iff host
    rw [access_dialogue, h] at hcandid
    rcases after_of_error h with rfl | ⟨x, kind, rfl, hmakes, rfl⟩
    · refine ⟨rfl, rfl, fun _ _ => rfl, fun x hx =>
        ⟨(hcandid x).mp (congrArg _ hx), fun _ => .inl rfl⟩⟩
    · refine ⟨Store.takeNumber_rules _ _, Store.takeNumber_lastId _ _, nofun, fun y hy => ?_⟩
      refine ⟨(hcandid y).mp (congrArg _ hy), fun other => ?_⟩
      rw [hmakes, Store.lastNumber_takeNumber]
      split
      · rename_i heq
        exact .inr ⟨congrArg some heq, rfl⟩
      · exact .inl rfl
  · intro other refusal hsilent hrefusal
    obtain ⟨answer, hanswer⟩ := Dialogue.eq_finish_of_exchanges hsilent
    rw [← access_dialogue, hanswer, Dialogue.outcome_finish] at hrefusal
    rw [← access_dialogue, hanswer, Dialogue.outcome_finish]
    exact congrArg (·, host) hrefusal

/-- A rule that carries a number which the store has not given out: the next request takes this
number and is refused by the store, and the number stays taken. -/
theorem error_leaves_store_stray :
    let stray : Rule := ⟨.base "a = 'x'" (.condition ⟨"a", .equal, .text "x"⟩) 1, 1⟩
    let host : Host := .ofStore ⟨[stray], 1, 0, 0⟩
    let request : Request := .createRule "b = 'y'"
    let refusal : StoreError := .conflict "sequence number 1 is already assigned"
    ∃ after, (request.perform .standard).outcome host = (.error (.store refusal), after) ∧
      after.store.rules = [stray] ∧ after.store.lastId = 1 ∧ after.store.lastBase = 1 ∧
      ((request.dialogue .standard).exchanges host).findSome? Exchange.failure? = some refusal := by
  intro stray host request refusal
  have hparse : Formula.parse Limits.standard.maxNesting "b = 'y'" =
      .ok (.condition ⟨"b", .equal, .text "y"⟩) := by decide +kernel
  have hcreate : Store.create ⟨[stray], 1, 1, 0⟩
      (.base "b = 'y'" (.condition ⟨"b", .equal, .text "y"⟩) 1) = .error refusal := by
    decide +kernel
  have herror : (request.perform .standard).outcome host =
      (.error (.store refusal), .ofStore ⟨[stray], 1, 1, 0⟩) := by
    rw [perform, Access.outcome_map, Engine.createRule_outcome, if_neg (by decide), hparse]
    dsimp only
    rw [Engine.outcome_storeNumbered]
    dsimp only [host, Host.ofStore, Store.takeNumber, Store.lastNumber]
    rw [show Store.next 0 = 1 from rfl, hcreate]
    rfl
  obtain ⟨hrules, hlastId, -, hstore⟩ :=
    (error_leaves_store .standard request host).1 _ _ herror
  exact ⟨_, herror, hrules, hlastId, rfl, (hstore refusal rfl).1⟩

end Request

end Eligibility
