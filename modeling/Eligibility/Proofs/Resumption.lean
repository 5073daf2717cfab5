import Eligibility.Proofs.Reload

/-!
# Going on with a restored store

A snapshot is checked when it is read: no id is above the last one, no number above the counter of
its kind, no id occurs twice. This is all that an engine needs to go on. Whatever bytes a store was
read from, the ids and numbers that it gives out are new, and no rule of the snapshot is lost or
changed, as long as no counter has reached its end.

## Main definitions

* `Store.Usable` — a store in order whose counters cover the numbers of its rules.

## Main results

* `Store.usable_of_ofSnapshot` — every store that is read from bytes is usable.
* `Request.outcome_of_usable` — what a request does at a usable store.
* `Request.store_of_usable` — it leaves the store usable and keeps all its rules.
* `Host.resume_safe` — a restored store is safe to keep writing to.
-/

set_option relaxedAutoImplicit false
set_option autoImplicit false

namespace Eligibility

namespace Store

variable {limits : Limits} {s s' : Store}

/-- A store in order whose counters cover the numbers of its rules. -/
structure Usable (s : Store) : Prop extends Ordered s where
  counted : s.Counted

/-- **Every store that is read from bytes is usable.** -/
theorem usable_of_ofSnapshot {bytes : Bytes} (h : ofSnapshot bytes = .ok s) : s.Usable := by
  obtain ⟨hs, hcoherent, -⟩ := ofSnapshot_ok h
  exact ⟨hs, hcoherent.number_le⟩

/-- Acts keep a store usable. -/
theorem Usable.acts (hs : s.Usable) (h : Acts limits s s') : s'.Usable := by
  induction h with
  | refl => exact hs
  | tail _ act ih => exact ⟨ih.toOrdered.act act.1 act.2, ih.counted.act act.1 act.2⟩

/-- The next number of a kind is free, so a draft that carries it is stored, under the next id. -/
theorem Counted.create_takeNumber (hs : s.Counted) (hroom : s.HasRoom 1) {kind : RuleKind}
    {d : Draft} (hkind : d.kind = kind) (hnumber : d.number = some (s.takeNumber kind).1) :
    ∃ s', (s.takeNumber kind).2.create d = .ok (⟨d, s.lastId + 1⟩, s') := by
  rw [← next_of_lt hroom.lastId, ← takeNumber_lastId s kind]
  refine create_of_free fun n hn => ?_
  obtain rfl : (s.takeNumber kind).1 = n := Option.some.inj (hnumber.symm.trans hn)
  rw [hkind]
  exact hs.hasNumber_takeNumber (hroom.lastNumber kind)

end Store

/-! ## Requests at a usable store -/

/-- **What a request does at a usable store** none of whose calls fails and none of whose counters
is at its end: it changes nothing, or it stores a rule with the next id and the next number of its
kind. The store refuses nothing.

**Proof sketch.** The two cases of `Request.perform_cases`, where no call fails. A number beyond the
counter is new in a usable store, so that a draft that carries it is accepted. -/
theorem Request.outcome_of_usable (limits : Limits) (request : Request) {s : Store} (hs : s.Usable)
    (hroom : s.HasRoom 1) :
    (∃ answer, (request.perform limits).outcome (.ofStore s) = (answer, .ofStore s) ∧
      (∀ r, answer ≠ .ok (.stored r)) ∧ ∀ e, answer ≠ .error (.store e)) ∨
    ∃ r s', (request.perform limits).outcome (.ofStore s) = (.ok (.stored r), .ofStore s') ∧
      r.id = s.lastId + 1 ∧ r.number = some (s.lastNumber r.kind + 1) ∧
      s'.rules = s.rules ++ [r] := by
  rcases request.perform_cases limits (.ofStore s) with
    ⟨answer, houtcome, hstored, hfail⟩ | ⟨kind, draft, -, hdraft, -, houtcome⟩
  · refine .inl ⟨answer, houtcome, hstored, fun e he => ?_⟩
    obtain ⟨c, hc⟩ := hfail e he
    cases hc
  · obtain ⟨hkind, hnumber⟩ := hdraft (s.takeNumber kind).1
    obtain ⟨s', hcreate⟩ := hs.counted.create_takeNumber hroom hkind hnumber
    refine .inr ⟨⟨draft (s.takeNumber kind).1, s.lastId + 1⟩, s', ?_, rfl, ?_, ?_⟩
    · rw [houtcome, Access.outcome_map, Engine.outcome_storeNumbered]
      dsimp only [Host.ofStore]
      rw [← Store.takeNumber_number, hcreate]
      rfl
    · show (draft (s.takeNumber kind).1).number = some (s.lastNumber (draft _).kind + 1)
      rw [hnumber, hkind, Store.takeNumber_number, Store.lastNumber_takeNumber, if_pos rfl,
        Store.next_of_lt (hroom.lastNumber kind)]
    · have hid : (s.takeNumber kind).2.lastId + 1 < 2 ^ 64 := by
        rw [Store.takeNumber_lastId]
        exact hroom.lastId
      rw [(hs.toOrdered.takeNumber kind).create_rules hid hcreate, Store.takeNumber_rules]

/-- A request leaves a usable store usable and keeps all its rules. -/
theorem Request.store_of_usable (limits : Limits) (request : Request) {s : Store} (hs : s.Usable)
    (hroom : s.HasRoom 1) :
    ∃ s', ((request.perform limits).outcome (.ofStore s)).2 = .ofStore s' ∧ s'.Usable ∧
      s.rules <+: s'.rules := by
  have hacts : Store.Acts limits (Host.ofStore s).store
      ((Host.ofStore s).step limits (.request request)).store := Host.acts_step hroom _
  rw [Host.step] at hacts
  rcases request.outcome_of_usable limits hs hroom with
    ⟨_, houtcome, -⟩ | ⟨r, s', houtcome, -, -, hrules⟩
  · exact ⟨s, congrArg Prod.snd houtcome, hs, List.prefix_rfl⟩
  · rw [houtcome] at hacts ⊢
    exact ⟨s', rfl, hs.acts hacts, hrules ▸ List.prefix_append _ _⟩

/-- **No request fails in a usable store.** -/
theorem Request.answer_ne_store_error (limits : Limits) (request : Request) {s : Store}
    (hs : s.Usable) (hroom : s.HasRoom 1) (e : StoreError) :
    ((request.perform limits).outcome (.ofStore s)).1 ≠ .error (.store e) := by
  rcases request.outcome_of_usable limits hs hroom with
    ⟨_, houtcome, -, hfail⟩ | ⟨r, s', houtcome, -⟩
  · rw [houtcome]
    exact hfail e
  · rw [houtcome]
    exact nofun

/-- **A rule that is stored in a usable store is new** by its id and by its number. -/
theorem Request.stored_of_usable {limits : Limits} {request : Request} {s : Store} (hs : s.Usable)
    (hroom : s.HasRoom 1) {r : Rule}
    (h : ((request.perform limits).outcome (.ofStore s)).1 = .ok (.stored r)) :
    (∀ a ∈ s.rules, a.id ≠ r.id) ∧
      (∃ n, r.number = some n ∧ ∀ a ∈ s.rules, a.kind = r.kind → a.number ≠ some n) ∧
      r ∈ ((request.perform limits).outcome (.ofStore s)).2.store.rules := by
  rcases request.outcome_of_usable limits hs hroom with
    ⟨_, houtcome, hstored, -⟩ | ⟨_, s', houtcome, hid, hnumber, hrules⟩
  · rw [houtcome] at h
    exact absurd h (hstored r)
  · rw [houtcome] at h ⊢
    cases h
    refine ⟨fun a ha => ?_, ⟨_, hnumber, ?_⟩, hrules ▸ List.mem_concat_self⟩
    · have hle := hs.le_lastId a ha
      omega
    · exact Store.hasNumber_eq_false_iff.mp (hs.counted.hasNumber_eq_false (Nat.lt_succ_self _))

namespace Host

variable {limits : Limits} {s : Store}

/-- Requests leave a usable store usable and keep all its rules.

**Proof sketch.** By induction on the requests. Each leaves a usable store, in which the rules
before it come first. -/
theorem after_of_usable (hs : s.Usable) {requests : List Request}
    (hroom : (ofStore s).HasRoomFor limits (requests.map .request)) :
    ∃ s', (ofStore s).after limits (requests.map .request) = ofStore s' ∧ s'.Usable ∧
      s.rules <+: s'.rules := by
  induction requests generalizing s with
  | nil => exact ⟨s, rfl, hs, List.prefix_rfl⟩
  | cons request requests ih =>
    obtain ⟨hnow, hlater⟩ :
      (ofStore s).HasRoomFor limits (.request request :: requests.map .request) := hroom
    obtain ⟨next, hnext, husable, hpart⟩ := request.store_of_usable limits hs hnow
    have hstep : (ofStore s).step limits (.request request) = ofStore next := hnext
    rw [hstep] at hlater
    obtain ⟨s', hafter, hs', hpart'⟩ := ih husable hlater
    refine ⟨s', ?_, hs', hpart.trans hpart'⟩
    rw [← hafter, ← hnext]
    rfl

/-- **A restored store is safe to keep writing to.** Take a store that was read from any bytes, and
any requests that are made to it as long as no counter is at its end. None of them fails in the
store; a rule that one of them stores has an id that no other rule has, then or ever after, and a
number that no rule of its kind had before; and all rules that were read are still found at the end,
unchanged and under their ids.

**Proof sketch.** The run is cut before and after the request. Every part leaves a usable store and
keeps the rules in front, and the request stores a rule with an id and a number beyond all that are
stored. -/
theorem resume_safe (limits : Limits) {bytes : Bytes} {s : Store}
    (h : Store.ofSnapshot bytes = .ok s) (before : List Request) (request : Request)
    (rest : List Request)
    (hroom : (ofStore s).HasRoomFor limits ((before ++ request :: rest).map .request)) :
    let host := (ofStore s).after limits (before.map .request)
    let answer := ((request.perform limits).outcome host).1
    let last := (((request.perform limits).outcome host).2.after limits (rest.map .request)).store
    (∀ e, answer ≠ .error (.store e)) ∧
    (∀ r, answer = .ok (.stored r) →
      (∀ a ∈ host.store.rules, a.id ≠ r.id) ∧
      (∃ n, r.number = some n ∧ ∀ a ∈ host.store.rules, a.kind = r.kind → a.number ≠ some n) ∧
      last.find? r.id = some r ∧ ∀ a ∈ last.rules, a.id = r.id → a = r) ∧
    ∀ a ∈ s.rules, last.find? a.id = some a := by
  intro host answer last
  rw [List.map_append, hasRoomFor_append] at hroom
  obtain ⟨now, hnow, husable, hkept⟩ := after_of_usable (Store.usable_of_ofSnapshot h) hroom.1
  have hhost : host = ofStore now := hnow
  obtain ⟨hroomNow, hroomRest⟩ : host.HasRoomFor limits (.request request :: rest.map .request) :=
    hroom.2
  rw [hhost] at hroomNow hroomRest
  obtain ⟨next, hnext, hnextUsable, hnextKept⟩ := request.store_of_usable limits husable hroomNow
  have hstep : (ofStore now).step limits (.request request) = ofStore next := hnext
  rw [hstep] at hroomRest
  obtain ⟨final, hfinal, hfinalUsable, hfinalKept⟩ := after_of_usable hnextUsable hroomRest
  have hlast : last = final := by
    show (((request.perform limits).outcome host).2.after limits (rest.map .request)).store = final
    rw [hhost, hnext, hfinal]
    rfl
  have hstays {a : Rule} (ha : a ∈ next.rules) : last.find? a.id = some a := by
    rw [hlast]
    exact hfinalUsable.find?_eq_some_iff.mpr ⟨hfinalKept.subset ha, rfl⟩
  have hanswer : answer = ((request.perform limits).outcome (ofStore now)).1 := by rw [← hhost]
  rw [hanswer, hhost]
  refine ⟨request.answer_ne_store_error limits husable hroomNow, fun r hr => ?_,
    fun a ha => hstays (hnextKept.subset (hkept.subset ha))⟩
  obtain ⟨hid, hnumber, hr⟩ := Request.stored_of_usable husable hroomNow hr
  rw [hnext] at hr
  refine ⟨hid, hnumber, hstays hr, fun a ha hsame => ?_⟩
  rw [hlast] at ha
  exact hfinalUsable.eq_of_id ha (hfinalKept.subset hr) hsame

/-- A snapshot with gaps among its ids and numbers, and a byte after its end. -/
theorem resume_safe_gaps :
    let old : Rule := ⟨.base "a = 'x'" (.condition ⟨"a", .equal, .text "x"⟩) 2, 3⟩
    let s : Store := ⟨[old], 7, 4, 0⟩
    let host := ofStore s
    let request : Request := .createRule "b = 'y'"
    let new : Rule := ⟨.base "b = 'y'" (.condition ⟨"b", .equal, .text "y"⟩) 5, 8⟩
    let last := (((request.perform .standard).outcome host).2.after .standard
      [.request (.combineRules [8, 3])]).store
    Store.ofSnapshot (s.snapshot ++ [0]) = .ok s ∧
      ((request.perform .standard).outcome host).1 = .ok (.stored new) ∧
      last.find? 8 = some new ∧ last.find? 3 = some old := by
  intro old s host request new last
  have hread : Store.ofSnapshot (s.snapshot ++ [0]) = .ok s := by decide +kernel
  have hparse : Formula.parse Limits.standard.maxNesting "b = 'y'" =
      .ok (.condition ⟨"b", .equal, .text "y"⟩) := by decide +kernel
  have hstored : ((request.perform .standard).outcome host).1 = .ok (.stored new) := by
    rw [Request.perform, Access.outcome_map, Engine.createRule_outcome, if_neg (by decide), hparse]
    rfl
  have hroom : (ofStore s).HasRoomFor .standard
      ([request, .combineRules [8, 3]].map .request) := hasRoomFor_of_hasRoom (by decide)
  obtain ⟨-, hnew, hold⟩ := resume_safe .standard hread [] request [.combineRules [8, 3]] hroom
  exact ⟨hread, hstored, (hnew new hstored).2.2.1, hold old List.mem_cons_self⟩

end Host

end Eligibility
