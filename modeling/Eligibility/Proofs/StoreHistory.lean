import Eligibility.Proofs.Dialogue
import Eligibility.Proofs.PayloadPrefix
import Mathlib.Data.List.Induction
import Mathlib.Data.List.Infix

/-!
# The history of a store

A session is a store together with all that was exchanged with it since it was empty. Whatever
drafts it is asked to store, as long as the counter of ids does not wrap, the rules of the store are
the rules that it answered with, under the ids from one on without a gap, and no two rules of a kind
carry the same number.

## Main definitions

* `Session`, `Session.ask` — a store and what was exchanged with it.
* `Session.created`, `Session.drafts`, `Session.numbers` — what the exchanges tell.
* `Store.Gapless`, `Store.Distinct` — stores with all ids up to the last, and with no number twice.
* `Session.Faithful` — a session whose store holds what it answered with.
* `Use`, `Session.after` — what can be done with a store, and sessions that do it.
* `Session.Sound` — a faithful session in which all numbers have 64 bits.

## Main results

* `Session.Faithful.ask` — every query keeps a session faithful.
* `Session.Sound.use` — every use keeps it sound, reloads that fail or succeed included.
* `Session.sound_after` — every session is sound after uses that wrap no id.
* `Session.representation_after` — the representation of a store, after any uses of it.

## Implementation notes

A store that is reloaded is replaced by the one of its own snapshot. The snapshot of a store whose
counters have 64 bits gives no other store, so a reload that succeeds changes nothing, whatever the
length of the snapshot; only that this length has 64 bits is asked for.
-/

set_option relaxedAutoImplicit false
set_option autoImplicit false

namespace Eligibility

/-! ## Stores without gaps -/

namespace Store

variable {s : Store}

/-- A store that has a rule for every id up to the last one. -/
def Gapless (s : Store) : Prop := s.rules.map (·.id) = List.range' 1 s.lastId

/-- A store in which no two rules of a kind carry the same number. -/
def Distinct (s : Store) : Prop :=
  s.rules.Pairwise fun a b => a.kind = b.kind → a.number = b.number → a.number = none

/-- Ids without gaps increase. -/
theorem Gapless.ordered (h : s.Gapless) : s.Ordered := by
  constructor
  · have hincreasing : (s.rules.map (·.id)).Pairwise (· < ·) := by
      rw [h]
      exact List.pairwise_lt_range'
    exact ⟨List.pairwise_map.mp hincreasing⟩
  · intro r hr
    have hid : r.id ∈ List.range' 1 s.lastId := h ▸ List.mem_map_of_mem hr
    have hbounds := List.mem_range'_1.mp hid
    omega

/-- Storing a rule leaves no gap. -/
theorem Gapless.create (h : s.Gapless) (hroom : s.lastId + 1 < 2 ^ 64) {s' : Store} {d : Draft}
    {r : Rule} (hcreate : s.create d = .ok (r, s')) : s'.Gapless := by
  have hrules := h.ordered.create_rules hroom hcreate
  obtain ⟨rfl, rfl, -⟩ := create_ok hcreate
  rw [Gapless, hrules, List.map_append, h, next_of_lt hroom, List.range'_1_concat]
  rw [Nat.add_comm 1 s.lastId]
  rfl

/-- A rule is stored only with a number that no rule of its kind carries, also when it takes the
place of another. -/
theorem Distinct.create (h : s.Distinct) {s' : Store} {d : Draft} {r : Rule}
    (hcreate : s.create d = .ok (r, s')) : s'.Distinct := by
  obtain ⟨rfl, rfl, hfree⟩ := create_ok hcreate
  have hnew : ∀ a ∈ s.rules, a.kind = d.kind → a.number = d.number → a.number = none := by
    intro a ha hkind hnumber
    cases hn : a.number with
    | none => rfl
    | some n =>
      have hfreeNumber := hasNumber_eq_false_iff.mp (hfree n (hnumber.symm.trans hn))
      exact absurd hn (hfreeNumber a ha hkind)
  exact pairwise_insertById_of_forall
    (fun a ha =>
      ⟨hnew a ha, fun hkind hnumber => hnumber.trans (hnew a ha hkind.symm hnumber.symm)⟩) h

end Store

/-! ## Sessions -/

/-- A store and what was exchanged with it. -/
structure Session where
  store : Store
  exchanges : List Exchange

/-- The rule that was stored, if one was. -/
def Exchange.created? : Exchange → Option Rule
  | ⟨.create _, .ok r⟩ => some r
  | _ => none

/-- The draft that was to be stored, if one was. -/
def Exchange.draft? : Exchange → Option Draft
  | ⟨.create d, _⟩ => some d
  | _ => none

/-- The number of the kind that was taken, if one was. -/
def Exchange.number? (kind : RuleKind) : Exchange → Option Nat
  | ⟨.takeNumber taken, .ok n⟩ => if taken = kind then some n else none
  | _ => none

namespace Session

variable {β : Type}

/-- A session with an empty store. -/
def start : Session := ⟨.empty, []⟩

/-- What the store answers to a query. -/
def answer (s : Session) (query : Query β) : Except StoreError β :=
  (query.access.outcome (.ofStore s.store)).1

/-- The session after one more exchange, which left the given store. -/
def record (s : Session) (store : Store) (x : Exchange) : Session := ⟨store, s.exchanges ++ [x]⟩

/-- The session after a query. -/
def ask (s : Session) (query : Query β) : Session :=
  s.record (query.access.outcome (.ofStore s.store)).2.store ⟨query, s.answer query⟩

/-- The rules that were stored. -/
def created (s : Session) : List Rule := s.exchanges.filterMap Exchange.created?

/-- The drafts that were to be stored. -/
def drafts (s : Session) : List Draft := s.exchanges.filterMap Exchange.draft?

/-- The numbers of a kind that were taken. -/
def numbers (s : Session) (kind : RuleKind) : List Nat :=
  s.exchanges.filterMap (Exchange.number? kind)

variable {s : Session} {query : Query β}

/-! ## One more exchange -/

/-- What a function of exchanges gathers is added at the end. -/
theorem filterMap_append_singleton {α : Type} (f : Exchange → Option α) (xs : List Exchange)
    (x : Exchange) : (xs ++ [x]).filterMap f = xs.filterMap f ++ (f x).toList := by
  rw [List.filterMap_append, List.filterMap_cons, List.filterMap_nil]
  cases f x <;> rfl

/-- The store of a session is the one that the last exchange left. -/
@[simp]
theorem record_store (s : Session) (store : Store) (x : Exchange) :
    (s.record store x).store = store :=
  rfl

/-- An exchange adds the rule that it created, if it did. -/
theorem record_created (s : Session) (store : Store) (x : Exchange) :
    (s.record store x).created = s.created ++ x.created?.toList :=
  filterMap_append_singleton _ _ x

/-- An exchange adds the draft that it accepted, if it did. -/
theorem record_drafts (s : Session) (store : Store) (x : Exchange) :
    (s.record store x).drafts = s.drafts ++ x.draft?.toList :=
  filterMap_append_singleton _ _ x

/-- An exchange adds the number that it took of a kind, if it did. -/
theorem record_numbers (s : Session) (store : Store) (x : Exchange) (kind : RuleKind) :
    (s.record store x).numbers kind = s.numbers kind ++ (x.number? kind).toList :=
  filterMap_append_singleton _ _ x

/-- A question that the store answers is recorded with the answer and the new store. -/
theorem ask_of_ok {b : β} {store : Store} (h : query.effect s.store = .ok (b, store)) :
    s.answer query = .ok b ∧ s.ask query = s.record store ⟨query, .ok b⟩ := by
  have houtcome : query.access.outcome (.ofStore s.store) = (.ok b, .ofStore store) := by
    rw [Query.access_eq_call, Access.outcome_call]
    simp only [Host.ofStore, h]
  rw [ask, answer, houtcome]
  exact ⟨rfl, rfl⟩

/-- A query that is refused changes nothing. -/
theorem ask_of_error {e : StoreError} (h : query.effect s.store = .error e) :
    s.answer query = .error e ∧ s.ask query = s.record s.store ⟨query, .error e⟩ := by
  have houtcome : query.access.outcome (.ofStore s.store) = (.error e, .ofStore s.store) := by
    rw [Query.access_eq_call, Access.outcome_call]
    simp only [Host.ofStore, h]
  rw [ask, answer, houtcome]
  exact ⟨rfl, rfl⟩

/-- A draft that the store accepts is recorded with the rule that it became. -/
theorem ask_create {d : Draft} {r : Rule} {store : Store} (h : s.store.create d = .ok (r, store)) :
    s.answer (.create d) = .ok r ∧ s.ask (.create d) = s.record store ⟨.create d, .ok r⟩ :=
  ask_of_ok h

/-- A draft that the store refuses is recorded with the error, and the store stays as it is. -/
theorem ask_create_refused {d : Draft} {e : StoreError} (h : s.store.create d = .error e) :
    s.answer (.create d) = .error e ∧ s.ask (.create d) = s.record s.store ⟨.create d, .error e⟩ :=
  ask_of_error h

/-- A number is always given. -/
theorem ask_takeNumber (s : Session) (kind : RuleKind) :
    s.answer (.takeNumber kind) = .ok (s.store.takeNumber kind).1 ∧
      s.ask (.takeNumber kind) = s.record (s.store.takeNumber kind).2
        ⟨.takeNumber kind, .ok (s.store.takeNumber kind).1⟩ :=
  ask_of_ok rfl

/-- Rules are always listed, and the store stays as it is. -/
theorem ask_findAll (s : Session) (filter : RuleFilter) :
    s.answer (.findAll filter) = .ok (s.store.findAll filter) ∧
      s.ask (.findAll filter) = s.record s.store ⟨.findAll filter, .ok (s.store.findAll filter)⟩ :=
  ask_of_ok rfl

/-- Rules are always looked up, and the store stays as it is. -/
theorem ask_findByIds (s : Session) (ids : List Nat) :
    s.answer (.findByIds ids) = .ok (s.store.findByIds ids) ∧
      s.ask (.findByIds ids) = s.record s.store ⟨.findByIds ids, .ok (s.store.findByIds ids)⟩ :=
  ask_of_ok rfl

/-! ## Faithful sessions -/

/-- A session whose store holds the rules that it answered with and no others, in the order in which
they were stored. -/
structure Faithful (s : Session) : Prop where
  gapless : s.store.Gapless
  distinct : s.store.Distinct
  rules : s.store.rules = s.created

/-- A session begins with an empty store and an empty record. -/
theorem faithful_start : start.Faithful := ⟨rfl, .nil, rfl⟩

/-- A session stays faithful if no rule is stored. -/
theorem Faithful.record (h : s.Faithful) {store : Store} {x : Exchange}
    (hrules : store.rules = s.store.rules) (hid : store.lastId = s.store.lastId)
    (hx : x.created? = none) : (s.record store x).Faithful := by
  refine ⟨?_, ?_, ?_⟩
  · rw [record_store, Store.Gapless, hrules, hid]
    exact h.gapless
  · rw [record_store, Store.Distinct, hrules]
    exact h.distinct
  · rw [record_store, record_created, hrules, hx, Option.toList_none, List.append_nil]
    exact h.rules

/-- **Every query keeps a session faithful**, unless the counter of ids wraps.

**Proof sketch.** Only a draft that is accepted adds a rule, with the next id and behind all others,
and the answer is this rule. Everything else leaves rules and answers as they are. -/
theorem Faithful.ask (h : s.Faithful) (hroom : s.store.lastId + 1 < 2 ^ 64) (query : Query β) :
    (s.ask query).Faithful := by
  cases query with
  | create d =>
    cases hcreate : s.store.create d with
    | error e =>
      rw [(ask_create_refused hcreate).2]
      exact h.record rfl rfl rfl
    | ok answer =>
      obtain ⟨r, store⟩ := answer
      rw [(ask_create hcreate).2]
      refine ⟨h.gapless.create hroom hcreate, h.distinct.create hcreate, ?_⟩
      rw [record_store, record_created, ← h.rules]
      exact h.gapless.ordered.create_rules hroom hcreate
  | findAll filter =>
    rw [(ask_findAll s filter).2]
    exact h.record rfl rfl rfl
  | findByIds ids =>
    rw [(ask_findByIds s ids).2]
    exact h.record rfl rfl rfl
  | takeNumber kind =>
    rw [(ask_takeNumber s kind).2]
    exact h.record (Store.takeNumber_rules _ _) (Store.takeNumber_lastId _ _) rfl

/-- A rule that was stored is found under its id. -/
theorem Faithful.answer_findByIds (h : s.Faithful) {r : Rule} (hr : r ∈ s.created) :
    s.answer (.findByIds [r.id]) = .ok [r] := by
  have hfind : s.store.find? r.id = some r :=
    h.gapless.ordered.find?_eq_some_iff.mpr ⟨h.rules ▸ hr, rfl⟩
  rw [(ask_findByIds s [r.id]).1, Store.findByIds, List.filterMap_cons_some hfind]
  rfl

end Session

namespace Store

variable (s : Store)

/-- Without a filter all rules are listed. -/
theorem findAll_none : s.findAll ⟨none⟩ = s.rules :=
  List.filter_eq_self.mpr fun _ _ => rfl

/-- A listing of one kind leaves out rules of the other and keeps the order. -/
theorem findAll_some_sublist (kind : RuleKind) : (s.findAll ⟨some kind⟩).Sublist s.rules :=
  List.filter_sublist

/-- With a filter only rules of its kind are listed. -/
theorem kind_of_mem_findAll {kind : RuleKind} {r : Rule} (h : r ∈ s.findAll ⟨some kind⟩) :
    r.kind = kind := by
  have hshows := (List.mem_filter.mp h).2
  rwa [RuleFilter.shows_some, beq_iff_eq] at hshows

/-- The listings of both kinds together list every rule once. -/
theorem findAll_append_perm :
    (s.findAll ⟨some .base⟩ ++ s.findAll ⟨some .combined⟩).Perm s.rules := by
  have hother : RuleFilter.shows ⟨some .combined⟩ = fun r => !RuleFilter.shows ⟨some .base⟩ r := by
    funext r
    show (RuleKind.combined == r.kind) = !(RuleKind.base == r.kind)
    cases r.kind <;> rfl
  rw [findAll, findAll, hother]
  exact List.filter_append_perm _ s.rules

end Store

/-! ## Uses of a store -/

/-- What can be done with a store: it is asked something, with numbers of 64 bits in the drafts, or
it is replaced by the store of its own snapshot. -/
inductive Use where
  | create (d : Draft) (fits : d.Fits)
  | findAll (filter : RuleFilter)
  | findByIds (ids : List Nat)
  | takeNumber (kind : RuleKind)
  | reload

/-- A store whose counters have 64 bits and whose content has a length of 64 bits. -/
structure Store.Bounded (s : Store) : Prop extends CountersFit s where
  length : s.payload.bytes.length < 2 ^ 64

/-- Whether a store is bounded can be told by computing its payload. -/
instance (s : Store) : Decidable s.Bounded :=
  decidable_of_iff (s.CountersFit ∧ s.payload.bytes.length < 2 ^ 64)
    ⟨fun ⟨fit, length⟩ => ⟨fit, length⟩, fun h => ⟨h.toCountersFit, h.length⟩⟩

namespace Session

/-- The session after a use of its store. A reload that fails leaves the store as it is. -/
def use (s : Session) : Use → Session
  | .create d _ => s.ask (.create d)
  | .findAll filter => s.ask (.findAll filter)
  | .findByIds ids => s.ask (.findByIds ids)
  | .takeNumber kind => s.ask (.takeNumber kind)
  | .reload =>
    match Store.ofSnapshot s.store.snapshot with
    | .ok store => { s with store := store }
    | .error _ => s

/-- The session after uses of its store. -/
def after (s : Session) (uses : List Use) : Session := uses.foldl use s

/-- The last use of a session comes after all others. -/
theorem after_concat (s : Session) (uses : List Use) (last : Use) :
    s.after (uses ++ [last]) = (s.after uses).use last := by
  rw [after, List.foldl_concat, ← after]

/-- A faithful session in which all drafts have numbers of 64 bits. -/
structure Sound (s : Session) : Prop extends Faithful s where
  fits : ∀ r ∈ s.store.rules, r.toDraft.Fits

variable {s : Session}

/-- A reload changes nothing, whether it succeeds or not. -/
theorem Sound.use_reload (h : s.Sound) (hbounded : s.store.Bounded) : s.use .reload = s := by
  rw [use]
  cases hreload : Store.ofSnapshot s.store.snapshot with
  | error e => rfl
  | ok store =>
    obtain rfl := h.gapless.ordered.eq_of_ofSnapshot_snapshot h.fits hbounded.toCountersFit
      hbounded.length hreload
    rfl

/-- Every use keeps a session sound, unless the counter of ids wraps.

**Proof sketch.** By cases on the use. A draft that is accepted adds a rule that fits behind the
others, a reload gives the same store back, and all other uses keep the rules. -/
theorem Sound.use (h : s.Sound) (hroom : s.store.lastId + 1 < 2 ^ 64) (use : Use)
    (hbounded : use = .reload → s.store.Bounded) : (s.use use).Sound := by
  cases use with
  | create d hd =>
    refine ⟨h.ask hroom _, ?_⟩
    cases hcreate : s.store.create d with
    | error e =>
      rw [Session.use, (ask_create_refused hcreate).2]
      exact h.fits
    | ok answer =>
      obtain ⟨r, store⟩ := answer
      rw [Session.use, (ask_create hcreate).2, record_store,
        h.gapless.ordered.create_rules hroom hcreate]
      intro a ha
      rcases List.mem_append.mp ha with ha | ha
      · exact h.fits a ha
      · rw [List.mem_singleton.mp ha, (Store.create_ok hcreate).1]
        exact hd
  | findAll filter => exact ⟨h.ask hroom _, h.fits⟩
  | findByIds ids => exact ⟨h.ask hroom _, h.fits⟩
  | takeNumber kind =>
    refine ⟨h.ask hroom _, ?_⟩
    rw [Session.use, (ask_takeNumber s kind).2, record_store, Store.takeNumber_rules]
    exact h.fits
  | reload => rwa [h.use_reload (hbounded rfl)]

/-- Uses of an empty store keep it sound, as long as none finds the counter of ids at its end and it
is reloaded only within bounds.

**Proof sketch.** By induction on the uses, the last one taken off. The bounds on the beginnings of
the uses are bounds on those of the others. -/
theorem sound_after {uses : List Use}
    (hroom : ∀ before use, before ++ [use] <+: uses →
      (start.after before).store.lastId + 1 < 2 ^ 64)
    (h : ∀ before, before ++ [.reload] <+: uses → (start.after before).store.Bounded) :
    (start.after uses).Sound := by
  induction uses using List.reverseRecOn with
  | nil => exact ⟨faithful_start, by simp [after, start, Store.empty]⟩
  | append_singleton uses use ih =>
    have hpart : uses <+: uses ++ [use] := List.prefix_append uses [use]
    have hbefore := ih (fun before next hnext => hroom before next (hnext.trans hpart))
      fun before hreload => h before (hreload.trans hpart)
    rw [after_concat]
    refine hbefore.use (hroom uses use List.prefix_rfl) use ?_
    rintro rfl
    exact h uses List.prefix_rfl

/-- **The representation of a store.** After any uses of an empty store that find the counter of ids
below its end, whatever drafts it was asked to store: its ids are those from one up to the last
without a gap, one for every draft that it accepted; no two rules of a kind carry the same number;
every rule that it ever answered with is found unchanged under its id; the listing of all rules goes
by increasing id, and the listings of the two kinds keep its order and share it out between them;
and a draft that is refused changes nothing.

**Proof sketch.** The session is sound after its uses, and each part says in terms of answers what
soundness says of the store. -/
theorem representation_after (uses : List Use)
    (hroom : ∀ before use, before ++ [use] <+: uses →
      (start.after before).store.lastId + 1 < 2 ^ 64)
    (h : ∀ before, before ++ [.reload] <+: uses → (start.after before).store.Bounded) :
    let s := start.after uses
    s.store.rules.map (·.id) = List.range' 1 s.store.lastId ∧ s.store.size = s.created.length ∧
    s.store.rules.Pairwise (fun a b => a.kind = b.kind → a.number = b.number → a.number = none) ∧
    (∀ r ∈ s.created, s.answer (.findByIds [r.id]) = .ok [r]) ∧
    (∃ all base combined, s.answer (.findAll ⟨none⟩) = .ok all ∧
      s.answer (.findAll ⟨some .base⟩) = .ok base ∧
      s.answer (.findAll ⟨some .combined⟩) = .ok combined ∧
      all = s.store.rules ∧ all.Pairwise (fun a b => a.id < b.id) ∧
      base.Sublist all ∧ combined.Sublist all ∧ (base ++ combined).Perm all ∧
      (∀ r ∈ base, r.kind = .base) ∧ ∀ r ∈ combined, r.kind = .combined) ∧
    ∀ d e, s.answer (.create d) = .error e → (s.ask (.create d)).store = s.store := by
  intro s
  have hs : s.Sound := sound_after hroom h
  refine ⟨hs.gapless, congrArg List.length hs.rules, hs.distinct,
    fun r hr => hs.answer_findByIds hr,
    ⟨s.store.findAll ⟨none⟩, _, _, (ask_findAll s _).1, (ask_findAll s _).1,
    (ask_findAll s _).1, ?_⟩, ?_⟩
  · rw [Store.findAll_none]
    exact ⟨rfl, hs.gapless.ordered.increasing, Store.findAll_some_sublist _ _,
      Store.findAll_some_sublist _ _, Store.findAll_append_perm _,
      fun r hr => Store.kind_of_mem_findAll _ hr, fun r hr => Store.kind_of_mem_findAll _ hr⟩
  · intro d e he
    cases hcreate : s.store.create d with
    | error x => rw [(ask_create_refused hcreate).2, record_store]
    | ok answer =>
      obtain ⟨r, store⟩ := answer
      rw [(ask_create hcreate).1] at he
      cases he

/-- A number that is refused the second time and accepted for the other kind, with a reload that
succeeds and one that does not, because a source is missing. -/
theorem representation_after_refused :
    let formula : Formula := .condition ⟨"a", .equal, .text "x"⟩
    let again : Draft := .base "a = 'x'" formula 1
    let uses : List Use := [.takeNumber .base, .create again (by decide), .create again (by decide),
      .reload, .create (.combined "a = 'x'" formula (some 1) [9]) (by decide),
        .findAll ⟨none⟩, .reload]
    let s := start.after uses
    s.store.rules.map (·.id) = List.range' 1 s.store.lastId ∧ s.store.lastId = 2 ∧
      s.store.size = s.created.length ∧
      (∀ r ∈ s.created, s.answer (.findByIds [r.id]) = .ok [r]) ∧
      s.answer (.create again) =
        .error (.conflict "sequence number 1 is already assigned") ∧
      (s.ask (.create again)).store = s.store := by
  intro formula again uses
  have hids : ∀ before ∈ uses.inits, (start.after before).store.lastId + 1 < 2 ^ 64 := by
    decide +kernel
  have hbounded : ∀ before ∈ uses.inits, (start.after before).store.Bounded := by decide +kernel
  have hlast : (start.after uses).store.lastId = 2 := by decide +kernel
  have hrefused : (start.after uses).answer (.create again) =
      .error (.conflict "sequence number 1 is already assigned") := by decide +kernel
  have hpart {before : List Use} {use : Use} (h : before ++ [use] <+: uses) : before ∈ uses.inits :=
    (List.mem_inits before uses).mpr ((List.prefix_append before [use]).trans h)
  obtain ⟨hrange, hsize, -, hfound, -, hkept⟩ := representation_after uses
    (fun before _ h => hids before (hpart h)) fun before h => hbounded before (hpart h)
  exact ⟨hrange, hlast, hsize, hfound, hrefused, hkept again _ hrefused⟩

end Session

end Eligibility
