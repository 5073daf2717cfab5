import Eligibility.Proofs.Resumption
import Eligibility.Proofs.StoreHistory

/-!
# Numbering without gaps

A request is judged before it takes a number, and nothing else takes one. So as long as the store
does not fail and no counter wraps, the rules of each kind carry the numbers from one on without a
gap, in the order in which they were made, and a request that is refused leaves no trace.

## Main definitions

* `Store.Numbered` — a store without gaps among its ids and among the numbers of each kind.
* `Reply.stored?`, `Request.succeeds` — the rule that was stored; whether a rule of a kind was.
* `Store.Continued` — what requests have done to a store, given what was replied to them.
* `Host.successes` — how many requests for a rule of a kind succeed.

## Main results

* `Store.Numbered.create` — storing a rule under the next number of its kind leaves no gap.
* `Request.continued` — what a request does at a store without gaps.
* `Host.continued_after` — what requests do at such a store, one after another.
* `Host.numbering_without_gaps` — the ids and numbers after any requests to an empty store.
-/

set_option relaxedAutoImplicit false
set_option autoImplicit false

namespace Eligibility

/-! ## Stores without gaps -/

namespace Store

/-- A store whose ids go from one to the last id, and whose numbers of each kind go from one to the
last number of the kind, both in the order of the rules. -/
structure Numbered (s : Store) : Prop where
  gapless : s.Gapless
  numbers : ∀ kind, (s.rules.filter (·.kind = kind)).map (·.number) =
    (List.range' 1 (s.lastNumber kind)).map some

/-- In the empty store there is nothing to number. -/
theorem numbered_empty : empty.Numbered := ⟨rfl, fun kind => by cases kind <;> rfl⟩

namespace Numbered

variable {s : Store}

/-- The counters of a store without gaps cover its numbers. -/
theorem counted (hs : s.Numbered) : s.Counted := by
  intro r hr n hn
  have hmem : r.number ∈ (s.rules.filter (·.kind = r.kind)).map (·.number) :=
    List.mem_map_of_mem (List.mem_filter.mpr ⟨hr, by simp⟩)
  rw [hs.numbers, Option.mem_def.mp hn] at hmem
  have hbounds := List.mem_range'_1.mp (by simpa using hmem)
  omega

/-- **A draft with the next number of its kind is stored without a gap**, and only its kind counts
on.

**Proof sketch.** The number is new because the numbers of its kind are those up to the counter, and
the id is the next one because the ids are those up to the last. -/
theorem create (hs : s.Numbered) (hroom : s.HasRoom 1) {kind : RuleKind} {d : Draft}
    (hkind : d.kind = kind) (hnumber : d.number = some (s.takeNumber kind).1) :
    ∃ s', (s.takeNumber kind).2.create d = .ok (⟨d, s.lastId + 1⟩, s') ∧ s'.Numbered ∧
      s'.rules = s.rules ++ [⟨d, s.lastId + 1⟩] ∧ s'.lastId = s.lastId + 1 ∧
      ∀ other, s'.lastNumber other = s.lastNumber other + if kind = other then 1 else 0 := by
  obtain ⟨s', hcreate⟩ := hs.counted.create_takeNumber hroom hkind hnumber
  have htaken : (s.takeNumber kind).2.Gapless := by
    rw [Gapless, takeNumber_rules, takeNumber_lastId]
    exact hs.gapless
  have hid : (s.takeNumber kind).2.lastId + 1 < 2 ^ 64 := by
    rw [takeNumber_lastId]
    exact hroom.lastId
  have hrules : s'.rules = s.rules ++ [⟨d, s.lastId + 1⟩] := by
    rw [htaken.ordered.create_rules hid hcreate, takeNumber_rules]
  have hstore := (create_ok hcreate).2.1
  have hlastId : s'.lastId = s.lastId + 1 := by
    rw [hstore]
    exact (next_of_lt hid).trans (congrArg (· + 1) (takeNumber_lastId s kind))
  have hlast (other : RuleKind) :
      s'.lastNumber other = s.lastNumber other + if kind = other then 1 else 0 := by
    have hkept : s'.lastNumber other = (s.takeNumber kind).2.lastNumber other := by
      rw [hstore]
      cases other <;> rfl
    rw [hkept, lastNumber_takeNumber, next_of_lt (hroom.lastNumber other)]
    split <;> rfl
  refine ⟨s', hcreate, ⟨htaken.create hid hcreate, fun other => ?_⟩, hrules, hlastId, hlast⟩
  rw [hrules, List.filter_append, List.map_append, hs.numbers, hlast]
  by_cases hother : kind = other
  · have hnext : d.number = some (1 + s.lastNumber other) := by
      rw [hnumber, takeNumber_number, lastNumber_takeNumber, if_pos rfl, hother,
        next_of_lt (hroom.lastNumber other), Nat.add_comm]
    rw [if_pos hother, List.range'_1_concat, List.map_append]
    simp [hkind, hother, hnext]
  · simp [hkind, hother]

end Numbered

end Store

/-! ## Requests -/

/-- The rule that was stored, if one was. -/
def Reply.stored? : Reply → Option Rule
  | .request (.ok (.stored r)) => some r
  | _ => none

/-- Whether a request for a rule of the kind succeeded with the reply. -/
def Request.succeeds (request : Request) (kind : RuleKind) : Reply → Bool
  | .request (.ok _) => request.makes? = some kind
  | _ => false

/-- **What requests have done to a store**, given what was replied to them and how many of them
succeeded for each kind of rule: they have added the rules that they were answered with, and the
counters have counted the successes. -/
structure Store.Continued (s s' : Store) (replies : List Reply) (successes : RuleKind → Nat) :
    Prop where
  numbered : s'.Numbered
  rules : s'.rules = s.rules ++ replies.filterMap Reply.stored?
  lastId : s'.lastId = s.lastId + (successes .base + successes .combined)
  lastNumber : ∀ kind, s'.lastNumber kind = s.lastNumber kind + successes kind
  no_failure : ∀ reply ∈ replies, ∀ e, reply ≠ .request (.error (.store e))

namespace Store.Continued

variable {s s' s'' : Store}

/-- Without requests nothing is continued. -/
theorem refl (hs : s.Numbered) : s.Continued s [] fun _ => 0 :=
  ⟨hs, (List.append_nil _).symm, rfl, fun _ => rfl, by simp⟩

/-- A reply that tells of no rule and of no failure of the store counts for nothing. -/
theorem unchanged (hs : s.Numbered) {reply : Reply} (hnone : reply.stored? = none)
    (hfail : ∀ e, reply ≠ .request (.error (.store e))) : s.Continued s [reply] fun _ => 0 where
  numbered := hs
  rules := by rw [List.filterMap_cons_none hnone, List.filterMap_nil, List.append_nil]
  lastId := rfl
  lastNumber := fun _ => rfl
  no_failure := List.forall_mem_singleton.mpr hfail

/-- The rule that is stored with the next number of its kind is a success of this kind. -/
theorem stored (hs : s.Numbered) (hroom : s.HasRoom 1) {kind : RuleKind} {d : Draft}
    (hkind : d.kind = kind) (hnumber : d.number = some (s.takeNumber kind).1) :
    ∃ s', (s.takeNumber kind).2.create d = .ok (⟨d, s.lastId + 1⟩, s') ∧
      s.Continued s' [.request (.ok (.stored ⟨d, s.lastId + 1⟩))] fun other =>
        if kind = other then 1 else 0 := by
  obtain ⟨s', hcreate, hs', hrules, hlastId, hlast⟩ := hs.create hroom hkind hnumber
  refine ⟨s', hcreate, hs', hrules, ?_, hlast, List.forall_mem_singleton.mpr nofun⟩
  rw [hlastId]
  cases kind <;> rfl

/-- Replies that continue one another are continued as a whole, with the sum of the successes. -/
theorem trans {replies replies' : List Reply} {successes successes' : RuleKind → Nat}
    (h : s.Continued s' replies successes) (h' : s'.Continued s'' replies' successes') :
    s.Continued s'' (replies ++ replies') fun kind => successes kind + successes' kind where
  numbered := h'.numbered
  rules := by rw [h'.rules, h.rules, List.filterMap_append, List.append_assoc]
  lastId := by
    rw [h'.lastId, h.lastId]
    omega
  lastNumber := fun kind => by rw [h'.lastNumber, h.lastNumber, Nat.add_assoc]
  no_failure := fun reply hreply =>
    (List.mem_append.mp hreply).elim (h.no_failure reply) (h'.no_failure reply)

end Store.Continued

namespace Request

variable {limits : Limits}

/-- A request for a rule that succeeds answers with the rule. -/
theorem stored_of_makes {request : Request} {kind : RuleKind} (hmakes : request.makes? = some kind)
    {host : Host} {answer : Answer} (h : ((request.perform limits).outcome host).1 = .ok answer) :
    ∃ r, answer = .stored r := by
  have hstored {access : Access EngineError Rule}
      (h : ((Answer.stored <$> access).outcome host).1 = .ok answer) : ∃ r, answer = .stored r := by
    rw [Access.outcome_map] at h
    cases hr : (access.outcome host).1 with
    | error e => simp [hr, Except.map] at h
    | ok r => exact ⟨r, by simpa [hr, Except.map] using h.symm⟩
  cases request with
  | createRule text => exact hstored h
  | combineRules ids => exact hstored h
  | rules | evaluate | evaluateJson | evaluateRule => cases hmakes

/-- **What a request does at a store without gaps** none of whose calls fails and none of whose
counters is at its end: it changes nothing, or it stores a rule of the kind that it makes, under the
next id and the next number of that kind.

**Proof sketch.** The two cases of `Request.perform_cases`, where no call fails. In the first
nothing is stored and no success is counted. In the second the number is new, so that the store
accepts the draft. -/
theorem continued (limits : Limits) (request : Request) {s : Store} (hs : s.Numbered)
    (hroom : s.HasRoom 1) :
    let reply := (Host.ofStore s).reply limits (.request request)
    ∃ s', (Host.ofStore s).step limits (.request request) = .ofStore s' ∧
      s.Continued s' [reply] fun kind => (request.succeeds kind reply).toNat := by
  intro reply
  have hreply : reply = .request ((request.perform limits).outcome (.ofStore s)).1 := rfl
  rcases request.perform_cases limits (.ofStore s) with
    ⟨answer, houtcome, hno, hfail⟩ | ⟨kind, draft, hmakes, hdraft, -, houtcome⟩
  · rw [houtcome] at hreply
    -- no success is counted: a request that makes a rule would have answered with it
    have hsuccesses : (fun kind => (request.succeeds kind reply).toNat) = fun _ => 0 := by
      funext kind
      rw [hreply]
      cases answer with
      | error e => rfl
      | ok a =>
        refine congrArg Bool.toNat (decide_eq_false fun hmakes => ?_)
        obtain ⟨r, rfl⟩ := stored_of_makes hmakes (congrArg Prod.fst houtcome)
        exact hno r rfl
    have hnone : reply.stored? = none := by
      rw [hreply, Reply.stored?]
      exact fun r h => hno r (Reply.request.inj h)
    refine ⟨s, congrArg Prod.snd houtcome, hsuccesses ▸ .unchanged hs hnone fun e he => ?_⟩
    obtain ⟨c, hc⟩ := hfail e (Reply.request.inj (hreply.symm.trans he))
    cases hc
  · obtain ⟨hkind, hnumber⟩ := hdraft (s.takeNumber kind).1
    obtain ⟨s', hcreate, hs'⟩ := Store.Continued.stored hs hroom hkind hnumber
    have hstored : (request.perform limits).outcome (.ofStore s) =
        (.ok (.stored ⟨draft (s.takeNumber kind).1, s.lastId + 1⟩), .ofStore s') := by
      rw [houtcome, Access.outcome_map, Engine.outcome_storeNumbered]
      dsimp only [Host.ofStore]
      rw [← Store.takeNumber_number, hcreate]
      rfl
    rw [hstored] at hreply
    have hsuccesses : (fun other => (request.succeeds other reply).toNat) = fun other =>
        if kind = other then 1 else 0 := by
      funext other
      rw [hreply, succeeds, hmakes]
      cases kind <;> cases other <;> rfl
    refine ⟨s', congrArg Prod.snd hstored, ?_⟩
    rw [hsuccesses, hreply]
    exact hs'

end Request

/-! ## Runs -/

namespace Host

/-- How many of the requests for a rule of the kind succeed, when they are made one after
another. -/
def successes (limits : Limits) (host : Host) (requests : List Request) (kind : RuleKind) : Nat :=
  (requests.zip (host.replies limits (requests.map .request))).countP fun p => p.1.succeeds kind p.2

variable {limits : Limits}

/-- The success of the first request is counted with those of the others. -/
theorem successes_cons (host : Host) (request : Request) (requests : List Request) :
    host.successes limits (request :: requests) = fun kind =>
      (request.succeeds kind (host.reply limits (.request request))).toNat +
        (host.step limits (.request request)).successes limits requests kind := by
  funext kind
  refine List.countP_cons.trans ?_
  rw [Nat.add_comm]
  cases request.succeeds kind (host.reply limits (.request request)) <;> rfl

/-- **What requests do at a store without gaps**, one after another, where they wrap no counter.

**Proof sketch.** By induction on the requests. The first one continues the store, and the others
continue what it leaves. -/
theorem continued_after (limits : Limits) {s : Store} (hs : s.Numbered) {requests : List Request}
    (hroom : (ofStore s).HasRoomFor limits (requests.map .request)) :
    ∃ s', (ofStore s).after limits (requests.map .request) = ofStore s' ∧
      s.Continued s' ((ofStore s).replies limits (requests.map .request))
        ((ofStore s).successes limits requests) := by
  induction requests generalizing s with
  | nil => exact ⟨s, rfl, .refl hs⟩
  | cons request requests ih =>
    obtain ⟨hnow, hlater⟩ :
      (ofStore s).HasRoomFor limits (.request request :: requests.map .request) := hroom
    obtain ⟨next, hstep, hnext⟩ := request.continued limits hs hnow
    rw [hstep] at hlater
    obtain ⟨s', hafter, hs'⟩ := ih hnext.numbered hlater
    refine ⟨s', ?_, ?_⟩
    · rw [← hafter, ← hstep]
      rfl
    · rw [successes_cons, hstep]
      have hreplies : (ofStore s).replies limits ((request :: requests).map .request) =
          [(ofStore s).reply limits (.request request)] ++
            (ofStore next).replies limits (requests.map .request) := by
        rw [← hstep]
        rfl
      rw [hreplies]
      exact hnext.trans hs'

/-- **Numbering has no gaps and refusals consume nothing.** Make any requests, one after another and
without wrapping a counter, to an engine whose store began empty and never fails. The rules are then
those that were answered with, in the order of their success and under the ids from one on; the
rules of each kind carry the numbers from one on in the same order, as many as requests for such a
rule have succeeded; and no request fails in the store.

**Proof sketch.** The store after the requests continues the empty one (`continued_after`), so that
it has no gaps, and its counters have moved on by the successes of each kind. -/
theorem numbering_without_gaps (limits : Limits) (requests : List Request)
    (hroom : (ofStore .empty).HasRoomFor limits (requests.map .request)) :
    let host := ofStore .empty
    let replies := host.replies limits (requests.map .request)
    let successes := host.successes limits requests
    let rules := (host.after limits (requests.map .request)).store.rules
    rules = replies.filterMap Reply.stored? ∧
      rules.map (·.id) = List.range' 1 (successes .base + successes .combined) ∧
      (∀ kind, (rules.filter (·.kind = kind)).map (·.number) =
        (List.range' 1 (successes kind)).map some) ∧
      ∀ reply ∈ replies, ∀ e, reply ≠ .request (.error (.store e)) := by
  intro host replies successes rules
  obtain ⟨s, hafter, hs⟩ := continued_after limits Store.numbered_empty hroom
  have hrules : rules = s.rules := congrArg (·.store.rules) hafter
  have hlastId : s.lastId = successes .base + successes .combined :=
    hs.lastId.trans (Nat.zero_add _)
  have hlast (kind : RuleKind) : s.lastNumber kind = successes kind := by
    refine (hs.lastNumber kind).trans ?_
    cases kind <;> exact Nat.zero_add _
  refine ⟨hrules.trans hs.rules, ?_, fun kind => ?_, hs.no_failure⟩
  · rw [hrules, ← hlastId]
    exact hs.numbered.gapless
  · rw [hrules, ← hlast]
    exact hs.numbered.numbers kind

/-- Requests of both kinds that are refused, for their text and for their ids, among those that
succeed. -/
theorem numbering_without_gaps_refused :
    let requests : List Request := [.createRule "a = 'x'", .createRule "a =", .combineRules [1, 1],
      .createRule "b = 'y'", .combineRules [2, 1], .combineRules [1, 9], .createRule "c = 'z'",
      .combineRules [4, 3]]
    let rules := ((ofStore .empty).after .standard (requests.map .request)).store.rules
    (ofStore .empty).HasRoomFor .standard (requests.map .request) ∧
      rules.map (·.id) = [1, 2, 3, 4, 5] ∧
      (rules.filter (·.kind = .base)).map (·.number) = [some 1, some 2, some 3] ∧
      (rules.filter (·.kind = .combined)).map (·.number) = [some 1, some 2] := by
  intro requests rules
  have hroom : (ofStore .empty).HasRoomFor .standard (requests.map .request) :=
    hasRoomFor_of_hasRoom (Store.hasRoom_empty (by decide))
  have hbase : (ofStore .empty).successes .standard requests .base = 3 := by decide +kernel
  have hcombined : (ofStore .empty).successes .standard requests .combined = 2 := by decide +kernel
  obtain ⟨-, hids, hnumbers, -⟩ := numbering_without_gaps .standard requests hroom
  have hnumbersBase := hnumbers .base
  have hnumbersCombined := hnumbers .combined
  rw [hbase, hcombined] at hids
  rw [hbase] at hnumbersBase
  rw [hcombined] at hnumbersCombined
  exact ⟨hroom, hids, hnumbersBase, hnumbersCombined⟩

end Host

end Eligibility
