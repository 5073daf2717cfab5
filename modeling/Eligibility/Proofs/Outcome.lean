import Eligibility.Engine
import Eligibility.Proofs.StoreOrder

/-!
# The outcome of a request

An access to a store is a function of the host: it gives an answer or an error, and the host after
it. For every call and every request that function is spelled out, with all the ways in which it
fails.

## Main definitions

* `Access.outcome` — what an access answers on a host, and the host after it.
* `Engine.storeNumbered` — the part that authoring and combining share.

## Main results

* `Access.outcome_bind_ok`, `Access.outcome_bind_error` — one access after another.
* `Engine.outcome_storeNumbered`, `Engine.storeNumbered_cases` — what storing a numbered draft does.
* `Engine.createRule_outcome`, `Engine.combineRules_outcome` — the requests that change a store.
* `Engine.rules_outcome`, `Engine.evaluate_outcome`, `Engine.evaluateRule_outcome` — the questions,
  which change nothing.
-/

set_option relaxedAutoImplicit false
set_option autoImplicit false

namespace Eligibility

/-! ## The outcome of an access -/

namespace Access

variable {ε α β : Type}

/-- What an access answers on a host, and the host after it. -/
def outcome (access : Access ε α) (host : Host) : Except ε α × Host :=
  StateT.run (ExceptT.run access) host

/-- An access after another one that succeeds. -/
theorem outcome_bind_ok {access : Access ε α} {host after : Host} {a : α}
    (h : access.outcome host = (.ok a, after)) (next : α → Access ε β) :
    outcome (access >>= next) host = (next a).outcome after := by
  have hrun : StateT.run (ExceptT.run access) host = (.ok a, after) := h
  rw [outcome, ExceptT.run_bind, StateT.run_bind, hrun]
  rfl

/-- An access after another one that fails. -/
theorem outcome_bind_error {access : Access ε α} {host after : Host} {e : ε}
    (h : access.outcome host = (.error e, after)) (next : α → Access ε β) :
    outcome (access >>= next) host = (.error e, after) := by
  have hrun : StateT.run (ExceptT.run access) host = (.error e, after) := h
  rw [outcome, ExceptT.run_bind, StateT.run_bind, hrun]
  rfl

/-- A function of the answer changes nothing else. -/
theorem outcome_map (f : α → β) (access : Access ε α) (host : Host) :
    outcome (f <$> access) host =
      ((access.outcome host).1.map f, (access.outcome host).2) := by
  rw [map_eq_pure_bind]
  rcases houtcome : access.outcome host with ⟨e | a, after⟩
  · exact outcome_bind_error houtcome _
  · exact outcome_bind_ok houtcome _

/-- What a call does. -/
theorem outcome_call (c : StoreCall) (effect : Store → Except StoreError (α × Store))
    (host : Host) :
    (call c effect).outcome host =
      match host.failure c with
      | some e => (.error e, host)
      | none =>
        match effect host.store with
        | .error e => (.error e, host)
        | .ok (a, store) => (.ok a, { host with store := store }) := by
  have hread : outcome (get : Access StoreError Host) host = (.ok host, host) := rfl
  rw [call, outcome_bind_ok hread]
  cases host.failure c with
  | some e => rfl
  | none =>
    cases effect host.store with
    | error e => rfl
    | ok answer => rfl

/-- What taking a number does. -/
theorem outcome_takeNumber (kind : RuleKind) (host : Host) :
    (takeNumber kind).outcome host =
      match host.failure (.takeNumber kind) with
      | some e => (.error e, host)
      | none =>
        (.ok ((host.store.takeNumber kind).2.lastNumber kind),
          { host with store := (host.store.takeNumber kind).2 }) := by
  rw [takeNumber, outcome_call, ← Store.takeNumber_number]

/-- What storing a rule does. -/
theorem outcome_create (d : Draft) (host : Host) :
    (create d).outcome host =
      match host.failure .create with
      | some e => (.error e, host)
      | none =>
        match host.store.create d with
        | .error e => (.error e, host)
        | .ok (r, store) => (.ok r, { host with store := store }) := by
  rw [create, outcome_call]
  cases host.failure .create with
  | some e => rfl
  | none => cases host.store.create d <;> rfl

/-- What listing rules answers. -/
theorem outcome_findAll (filter : RuleFilter) (host : Host) :
    (findAll filter).outcome host =
      match host.failure .findAll with
      | some e => (.error e, host)
      | none => (.ok (host.store.findAll filter), host) :=
  outcome_call _ _ host

/-- What looking up rules by their ids answers. -/
theorem outcome_findByIds (ids : List Nat) (host : Host) :
    (findByIds ids).outcome host =
      match host.failure .findByIds with
      | some e => (.error e, host)
      | none => (.ok (host.store.findByIds ids), host) :=
  outcome_call _ _ host

end Access

namespace Engine

variable {α : Type}

/-! ## The outcome of a request -/

/-- What a call on behalf of a request does. -/
theorem outcome_onStore (access : Access StoreError α) (host : Host) :
    (onStore access).outcome host =
      ((access.outcome host).1.mapError EngineError.store, (access.outcome host).2) := by
  show StateT.run (Except.mapError EngineError.store <$> ExceptT.run access) host = _
  rw [StateT.run_map]
  rfl

/-- Takes the next number of a kind and stores the draft that carries it. -/
def storeNumbered (kind : RuleKind) (draft : Nat → Draft) : Access EngineError Rule :=
  onStore do
    let number ← Access.takeNumber kind
    Access.create (draft number)

/-- **What storing a numbered draft does**: the number is gone also when the rule is refused.

**Proof sketch.** By whether the two calls fail, the one after the other. -/
theorem outcome_storeNumbered (kind : RuleKind) (draft : Nat → Draft) (host : Host) :
    (storeNumbered kind draft).outcome host =
      match host.failure (.takeNumber kind) with
      | some e => (.error (.store e), host)
      | none =>
        let taken := (host.store.takeNumber kind).2
        match host.failure .create with
        | some e => (.error (.store e), { host with store := taken })
        | none =>
          match taken.create (draft (taken.lastNumber kind)) with
          | .error e => (.error (.store e), { host with store := taken })
          | .ok (r, store) => (.ok r, { host with store := store }) := by
  have hnumber := Access.outcome_takeNumber kind host
  rw [storeNumbered, outcome_onStore]
  cases hfail : host.failure (.takeNumber kind) with
  | some e =>
    rw [hfail] at hnumber
    rw [Access.outcome_bind_error hnumber]
    rfl
  | none =>
    rw [hfail] at hnumber
    rw [Access.outcome_bind_ok hnumber, Access.outcome_create]
    dsimp only
    cases host.failure .create with
    | some e => rfl
    | none =>
      dsimp only
      cases Store.create _ _ with
      | error e => rfl
      | ok answer => rfl

/-- **How storing a numbered draft ends**: the store fails, and at most the number is gone; or the
draft is stored with the number that was taken. -/
theorem storeNumbered_cases (kind : RuleKind) (draft : Nat → Draft) (host : Host) :
    (∃ x after, (storeNumbered kind draft).outcome host = (.error (.store x), after) ∧
      (after = host ∨ after = { host with store := (host.store.takeNumber kind).2 })) ∨
    ∃ r store, (host.store.takeNumber kind).2.create
        (draft ((host.store.takeNumber kind).2.lastNumber kind)) = .ok (r, store) ∧
      (storeNumbered kind draft).outcome host = (.ok r, { host with store := store }) := by
  rw [outcome_storeNumbered]
  cases host.failure (.takeNumber kind) with
  | some x => exact .inl ⟨x, host, rfl, .inl rfl⟩
  | none =>
    dsimp only
    cases host.failure .create with
    | some x => exact .inl ⟨x, _, rfl, .inr rfl⟩
    | none =>
      dsimp only
      cases Store.create _ _ with
      | error x => exact .inl ⟨x, _, rfl, .inr rfl⟩
      | ok answer => exact .inr ⟨answer.1, answer.2, rfl, rfl⟩

/-- What storing a numbered draft has done when it fails: at most it has taken the number. -/
theorem storeNumbered_error {kind : RuleKind} {draft : Nat → Draft} {host after : Host}
    {e : EngineError} (h : (storeNumbered kind draft).outcome host = (.error e, after)) :
    (∃ x, e = .store x) ∧
      (after = host ∨ after = { host with store := (host.store.takeNumber kind).2 }) := by
  rcases storeNumbered_cases kind draft host with
    ⟨x, last, houtcome, hlast⟩ | ⟨r, store, -, houtcome⟩
  · cases houtcome.symm.trans h
    exact ⟨⟨x, rfl⟩, hlast⟩
  · cases houtcome.symm.trans h

/-- What storing a numbered draft has done when it succeeds: the draft stands at the end of the
rules, unless the counter of ids has wrapped. -/
theorem storeNumbered_ok {kind : RuleKind} {draft : Nat → Draft} {host after : Host} {r : Rule}
    (hs : host.store.Ordered) (hroom : host.store.lastId + 1 < 2 ^ 64)
    (h : (storeNumbered kind draft).outcome host = (.ok r, after)) :
    after.failure = host.failure ∧ after.store.rules = host.store.rules ++ [r] ∧
      ∃ n, r.toDraft = draft n := by
  rcases storeNumbered_cases kind draft host with
    ⟨x, last, houtcome, -⟩ | ⟨stored, store, hcreate, houtcome⟩
  · cases houtcome.symm.trans h
  · cases houtcome.symm.trans h
    rw [← Store.takeNumber_lastId host.store kind] at hroom
    have hrules := (hs.takeNumber kind).create_rules hroom hcreate
    rw [Store.takeNumber_rules] at hrules
    exact ⟨rfl, hrules, _, congrArg Rule.toDraft (Store.create_ok hcreate).1⟩

/-- **What authoring a rule does.** -/
theorem createRule_outcome (limits : Limits) (text : String) (host : Host) :
    (createRule limits text).outcome host =
      if limits.maxLength < text.utf8ByteSize then
        (.error (.ruleTooLong text.utf8ByteSize limits.maxLength), host)
      else
        match Formula.parse limits.maxNesting text with
        | .error e => (.error (.rule e), host)
        | .ok formula => (storeNumbered .base (.base text formula)).outcome host := by
  unfold createRule
  split
  · rfl
  · cases Formula.parse limits.maxNesting text with
    | error e => rfl
    | ok formula => rfl

/-- A combination is refused for its request or its rules, and never by a store. -/
theorem conjunctionOf_error {limits : Limits} {ids : List Nat} {found : List Rule}
    {e : EngineError} (h : conjunctionOf limits ids found = .error e) : e.isUserError = true := by
  unfold conjunctionOf at h
  split at h
  · cases h
    rfl
  · split at h
    · cases h
      rfl
    · split at h <;> cases h
      rfl

/-- **What combining rules does.**

**Proof sketch.** By whether the call fails, and then by whether the rules that it found are
accepted. -/
theorem combineRules_outcome (limits : Limits) (ids : List Nat) (host : Host) :
    (combineRules limits ids).outcome host =
      match host.failure .findByIds with
      | some e => (.error (.store e), host)
      | none =>
        let found := host.store.findByIds ids.eraseDups
        match conjunctionOf limits ids.eraseDups found with
        | .error e => (.error e, host)
        | .ok formula =>
          (storeNumbered .combined fun number =>
            .combined formula.text formula (some number) (found.map (·.id))).outcome host := by
  have hfound : (onStore (Access.findByIds ids.eraseDups)).outcome host = _ :=
    outcome_onStore _ host
  rw [Access.outcome_findByIds] at hfound
  unfold combineRules
  cases hfail : host.failure .findByIds with
  | some e =>
    rw [hfail] at hfound
    exact Access.outcome_bind_error hfound _
  | none =>
    rw [hfail] at hfound
    rw [Access.outcome_bind_ok hfound]
    dsimp only
    cases conjunctionOf limits ids.eraseDups (host.store.findByIds ids.eraseDups) with
    | error e => rfl
    | ok formula => rfl

/-- What listing the rules of a kind answers. -/
theorem rules_outcome (kind : RuleKind) (host : Host) :
    (rules kind).outcome host =
      match host.failure .findAll with
      | some e => (.error (.store e), host)
      | none => (.ok (host.store.findAll ⟨some kind⟩), host) := by
  rw [rules, outcome_onStore, Access.outcome_findAll]
  cases host.failure .findAll with
  | some e => rfl
  | none => rfl

/-- **What evaluating attribute data answers.** -/
theorem evaluate_outcome (ctx : Context) (host : Host) :
    (evaluate ctx).outcome host =
      match host.failure .findAll with
      | some e => (.error (.store e), host)
      | none =>
        (.ok ((host.store.findAll ⟨some .combined⟩).any (·.formula.eval ctx)), host) := by
  have hrules := rules_outcome .combined host
  unfold evaluate
  cases hfail : host.failure .findAll with
  | some e =>
    rw [hfail] at hrules
    exact Access.outcome_bind_error hrules _
  | none =>
    rw [hfail] at hrules
    exact Access.outcome_bind_ok hrules _

/-- What evaluating one rule answers. -/
theorem evaluateRule_outcome (id : Nat) (ctx : Context) (host : Host) :
    (evaluateRule id ctx).outcome host =
      match host.failure .findByIds with
      | some e => (.error (.store e), host)
      | none =>
        match host.store.find? id with
        | none => (.error (.unknownRule id), host)
        | some r => (.ok (r.formula.eval ctx), host) := by
  have hfound : (onStore (Access.findByIds [id])).outcome host = _ := outcome_onStore _ host
  rw [Access.outcome_findByIds] at hfound
  unfold evaluateRule
  cases hfail : host.failure .findByIds with
  | some e =>
    rw [hfail] at hfound
    exact Access.outcome_bind_error hfound _
  | none =>
    rw [hfail] at hfound
    rw [Access.outcome_bind_ok hfound, Store.findByIds]
    cases hfind : host.store.find? id with
    | none => rw [List.filterMap_cons_none hfind]; rfl
    | some r => rw [List.filterMap_cons_some hfind]; rfl

end Engine

end Eligibility
