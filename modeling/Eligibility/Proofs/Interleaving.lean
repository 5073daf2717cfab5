import Eligibility.Proofs.StoreHistory
import Mathlib.Logic.Function.Basic

/-!
# Clients that share a store

Making a rule takes two steps: a client takes the next number of a kind, and later it stores a rule
that carries this number. Between the two steps anything can happen at the store. However the steps
of clients follow each other, as long as no counter wraps, a number that a client holds is free
until this client stores its rule, so no rule is ever refused.

## Main definitions

* `Sharing` — a store that clients share, and the numbers in their hands.
* `Move`, `Sharing.move`, `Sharing.after` — what clients do, one at a time.
* `Sharing.Fresh` — the numbers in the hands of clients are taken, free and in one hand only.
* `Sharing.Settled` — a shared store that has refused nothing.
* `Sharing.HasRoomFor` — a shared store at which a schedule wraps no counter.

## Main results

* `Sharing.Fresh.takeNumber`, `Sharing.Fresh.create` — the two steps of making a rule keep all hands
  fresh.
* `Sharing.Settled.move` — every move keeps a shared store settled.
* `Sharing.no_collision` — no schedule makes clients collide or lose a rule.

## Implementation notes

A client holds one number at a time; taking another one gives the first one up. What else a rule
says is decided when it is stored, so it may depend on everything that the client has read before.
-/

set_option relaxedAutoImplicit false
set_option autoImplicit false

namespace Eligibility

/-- A store that clients share, and the number that each of them holds, if it holds one. -/
structure Sharing (Client : Type) where
  session : Session
  held : Client → Option (RuleKind × Nat)

/-- What a client of a shared store does next. -/
inductive Move where
  | allocate (kind : RuleKind)
  | create (text : String) (formula : Formula) (sources : List Nat)
  | giveUp
  | findAll (filter : RuleFilter)
  | findByIds (ids : List Nat)

/-- Whether a number of the kind is taken. -/
def Move.allocates (kind : RuleKind) : Move → Bool
  | allocate taken => taken = kind
  | _ => false

namespace Sharing

variable {Client : Type}

/-- An empty store, and nobody holds a number. -/
def start : Sharing Client := ⟨.start, fun _ => none⟩

/-! ## Settled stores -/

/-- The numbers in the hands of clients are taken, free and in one hand only. -/
structure Fresh (s : Store) (held : Client → Option (RuleKind × Nat)) : Prop where
  taken : ∀ client kind n, held client = some (kind, n) → n ≤ s.lastNumber kind
  free : ∀ client kind n, held client = some (kind, n) → s.hasNumber kind n = false
  apart : ∀ client other p, held client = some p → held other = some p → client = other

/-- A shared store that has refused nothing: it holds what it was asked to store, it has given out
the numbers from one on, and the hands of its clients are fresh. -/
structure Settled (w : Sharing Client) : Prop
    extends Session.Faithful w.session, Fresh w.session.store w.held where
  counted : w.session.store.Counted
  answered : ∀ x ∈ w.session.exchanges, x.failure? = none
  drafts : w.session.store.rules.map (·.toDraft) = w.session.drafts
  numbers : ∀ kind, w.session.numbers kind = List.range' 1 (w.session.store.lastNumber kind)

/-- At the start nothing is held, stored or answered. -/
theorem settled_start : (start : Sharing Client).Settled where
  toFaithful := Session.faithful_start
  taken := nofun
  free := nofun
  apart := nofun
  counted := by simp [start, Session.start, Store.Counted, Store.empty]
  answered := by simp [start, Session.start]
  drafts := rfl
  numbers kind := by cases kind <;> rfl

variable {w : Sharing Client}

/-- Reading a shared store keeps it settled. -/
theorem Settled.record (h : w.Settled) {x : Exchange} (hok : x.failure? = none)
    (hcreated : x.created? = none) (hdraft : x.draft? = none)
    (hnumber : ∀ kind, x.number? kind = none) :
    (⟨w.session.record w.session.store x, w.held⟩ : Sharing Client).Settled where
  toFaithful := h.toFaithful.record rfl rfl hcreated
  toFresh := h.toFresh
  counted := h.counted
  answered := List.forall_mem_append.mpr ⟨h.answered, List.forall_mem_singleton.mpr hok⟩
  drafts := by
    rw [Session.record_drafts, hdraft, Option.toList_none, List.append_nil]
    exact h.drafts
  numbers kind := by
    rw [Session.record_numbers, hnumber, Option.toList_none, List.append_nil]
    exact h.numbers kind

/-- **What a client stores with its number is never refused.** -/
theorem Settled.create_eq_ok (h : w.Settled) {client : Client} {d : Draft} {n : Nat}
    (hheld : w.held client = some (d.kind, n)) (hnumber : d.number = some n) :
    ∃ store, w.session.store.create d = .ok (⟨d, Store.next w.session.store.lastId⟩, store) := by
  refine Store.create_of_free fun m hm => ?_
  obtain rfl : n = m := Option.some.inj (hnumber.symm.trans hm)
  exact h.free client d.kind n hheld

/-! ## Moves -/

variable [DecidableEq Client]

/-- The shared store after a move of a client. A client without a number has nothing to store. -/
def move (w : Sharing Client) (client : Client) : Move → Sharing Client
  | .allocate kind =>
    let number := (w.session.answer (.takeNumber kind)).toOption
    ⟨w.session.ask (.takeNumber kind), Function.update w.held client (number.map (kind, ·))⟩
  | .create text formula sources =>
    match w.held client with
    | none => w
    | some (kind, number) =>
      ⟨w.session.ask (.create ⟨text, formula, kind, some number, sources⟩),
        Function.update w.held client none⟩
  | .giveUp => ⟨w.session, Function.update w.held client none⟩
  | .findAll filter => ⟨w.session.ask (.findAll filter), w.held⟩
  | .findByIds ids => ⟨w.session.ask (.findByIds ids), w.held⟩

namespace Fresh

variable {s : Store} {held : Client → Option (RuleKind × Nat)} {client : Client}

/-- What is in a hand after one client has changed its own. -/
theorem of_update {hand : Option (RuleKind × Nat)} {other : Client} {p : RuleKind × Nat}
    (h : Function.update held client hand other = some p) :
    other = client ∧ hand = some p ∨ other ≠ client ∧ held other = some p := by
  by_cases heq : other = client
  · rw [heq, Function.update_self] at h
    exact .inl ⟨heq, h⟩
  · rw [Function.update_of_ne heq] at h
    exact .inr ⟨heq, h⟩

/-- What is held after a client has emptied its hand, another client held before. -/
theorem of_update_none {other : Client} {p : RuleKind × Nat}
    (h : Function.update held client none other = some p) :
    other ≠ client ∧ held other = some p := by
  rcases of_update h with ⟨-, hnone⟩ | hother
  · cases hnone
  · exact hother

/-- Giving up a number makes no hand less fresh. -/
theorem giveUp (h : Fresh s held) (client : Client) :
    Fresh s (Function.update held client none) where
  taken other kind n hn := h.taken other kind n (of_update_none hn).2
  free other kind n hn := h.free other kind n (of_update_none hn).2
  apart a b p ha hb := h.apart a b p (of_update_none ha).2 (of_update_none hb).2

/-- **The next number is new to all hands**, and no rule carries it.

**Proof sketch.** All numbers that are held or stored were taken before, and the new one is beyond
them. -/
theorem takeNumber (h : Fresh s held) (hs : s.Counted) (client : Client) {kind : RuleKind}
    (hroom : s.lastNumber kind + 1 < 2 ^ 64) :
    Fresh (s.takeNumber kind).2
      (Function.update held client (some (kind, (s.takeNumber kind).1))) := by
  -- nobody holds the new number, because all numbers that are held were taken before
  have hnew : ∀ other, held other ≠ some (kind, (s.takeNumber kind).1) := by
    intro other hother
    have hle := h.taken other kind _ hother
    rw [Store.takeNumber_number, Store.lastNumber_takeNumber, if_pos rfl,
      Store.next_of_lt hroom] at hle
    omega
  refine ⟨fun other k n hn => ?_, fun other k n hn => ?_, fun a b p ha hb => ?_⟩
  · rcases of_update hn with ⟨-, hn⟩ | ⟨-, hn⟩
    · cases hn
      exact Nat.le_of_eq (Store.takeNumber_number s kind)
    · exact Nat.le_trans (h.taken other k n hn) ((Store.onward_takeNumber hroom).lastNumber k)
  · rcases of_update hn with ⟨-, hn⟩ | ⟨-, hn⟩
    · cases hn
      exact hs.hasNumber_takeNumber hroom
    · have hfree := h.free other k n hn
      rw [Store.hasNumber_eq_false_iff] at hfree ⊢
      rwa [Store.takeNumber_rules]
  · rcases of_update ha with ⟨hac, ha⟩ | ⟨-, ha⟩
    · rcases of_update hb with ⟨hbc, -⟩ | ⟨-, hb⟩
      · exact hac.trans hbc.symm
      · exact absurd (hb.trans ha.symm) (hnew b)
    · rcases of_update hb with ⟨-, hb⟩ | ⟨-, hb⟩
      · exact absurd (ha.trans hb.symm) (hnew a)
      · exact h.apart a b p ha hb

/-- **A client that stores its rule takes no number from another hand.** -/
theorem create (h : Fresh s held) {d : Draft} {n : Nat} {r : Rule} {s' : Store}
    (hheld : held client = some (d.kind, n)) (hnumber : d.number = some n)
    (hcreate : s.create d = .ok (r, s')) : Fresh s' (Function.update held client none) := by
  have hempty := h.giveUp client
  obtain ⟨rfl, rfl, -⟩ := Store.create_ok hcreate
  refine ⟨hempty.taken, fun other k m hm => ?_, hempty.apart⟩
  have hfree := Store.hasNumber_eq_false_iff.mp (hempty.free other k m hm)
  rw [Store.hasNumber_eq_false_iff]
  intro r hr hkind hr'
  rcases Store.mem_of_mem_insertById hr with rfl | hr
  · -- the rule that was stored carries the number of its client, which is in no other hand
    obtain rfl : n = m := Option.some.inj (hnumber.symm.trans hr')
    obtain rfl : d.kind = k := hkind
    obtain ⟨hne, hother⟩ := of_update_none hm
    exact hne (h.apart other client _ hother hheld)
  · exact hfree r hr hkind hr'

end Fresh

namespace Settled

/-- Taking a number keeps a shared store settled.

**Proof sketch.** The number is the next one of its kind, so that it goes to the end of those given
out and is in no other hand; nothing else changes. -/
theorem allocate (h : w.Settled) (hroom : w.session.store.HasRoom 1) (client : Client)
    (kind : RuleKind) : (w.move client (.allocate kind)).Settled := by
  obtain ⟨hanswer, hask⟩ := Session.ask_takeNumber w.session kind
  have hfaithful := h.toFaithful.ask hroom.lastId (.takeNumber kind)
  have hnext := hroom.lastNumber kind
  rw [move, hanswer, hask]
  rw [hask] at hfaithful
  refine ⟨hfaithful, h.toFresh.takeNumber h.counted client hnext, h.counted.takeNumber hnext,
    ?_, ?_, ?_⟩
  · exact List.forall_mem_append.mpr ⟨h.answered, List.forall_mem_singleton.mpr rfl⟩
  · rw [Session.record_drafts, Session.record_store, Store.takeNumber_rules]
    exact h.drafts.trans (List.append_nil _).symm
  · intro other
    rw [Session.record_numbers, Session.record_store, Store.lastNumber_takeNumber, h.numbers,
      Exchange.number?]
    split
    · rename_i heq
      rw [← heq, Store.next_of_lt hnext, List.range'_1_concat, Store.takeNumber_number,
        Store.lastNumber_takeNumber, if_pos rfl, Store.next_of_lt hnext, Nat.add_comm 1]
      rfl
    · exact List.append_nil _

/-- Storing a rule keeps a shared store settled. -/
theorem create (h : w.Settled) (hroom : w.session.store.HasRoom 1) {client : Client}
    {d : Draft} {n : Nat} (hheld : w.held client = some (d.kind, n)) (hnumber : d.number = some n) :
    (⟨w.session.ask (.create d), Function.update w.held client none⟩ : Sharing Client).Settled := by
  obtain ⟨store, hcreate⟩ := h.create_eq_ok hheld hnumber
  have hfaithful := h.toFaithful.ask hroom.lastId (.create d)
  have htaken : ∀ m ∈ d.number, m ≤ w.session.store.lastNumber d.kind := by
    intro m hm
    obtain rfl : n = m := Option.some.inj (hnumber.symm.trans hm)
    exact h.taken client d.kind n hheld
  rw [(Session.ask_create hcreate).2] at hfaithful ⊢
  refine ⟨hfaithful, h.toFresh.create hheld hnumber hcreate, h.counted.create htaken hcreate,
    ?_, ?_, ?_⟩
  · exact List.forall_mem_append.mpr ⟨h.answered, List.forall_mem_singleton.mpr rfl⟩
  · rw [Session.record_drafts, Session.record_store,
      h.gapless.ordered.create_rules hroom.lastId hcreate, List.map_append, h.drafts]
    rfl
  · intro kind
    rw [Session.record_numbers, h.numbers]
    obtain ⟨-, rfl, -⟩ := Store.create_ok hcreate
    exact List.append_nil _

/-- **Every move keeps a shared store settled.** -/
theorem move (h : w.Settled) (hroom : w.session.store.HasRoom 1) (client : Client) (m : Move) :
    (w.move client m).Settled := by
  cases m with
  | allocate kind => exact h.allocate hroom client kind
  | create text formula sources =>
    rw [Sharing.move]
    split
    · exact h
    · rename_i kind number hheld
      exact h.create hroom hheld rfl
  | giveUp => exact { h with toFresh := h.toFresh.giveUp client }
  | findAll filter =>
    rw [Sharing.move, (Session.ask_findAll _ _).2]
    exact h.record rfl rfl rfl fun _ => rfl
  | findByIds ids =>
    rw [Sharing.move, (Session.ask_findByIds _ _).2]
    exact h.record rfl rfl rfl fun _ => rfl

/-- A move takes at most one number, of the kind that it says.

**Proof sketch.** By the move. Storing a rule and the questions take no number. -/
theorem lastNumber_move (h : w.Settled) (hroom : w.session.store.HasRoom 1) (client : Client)
    (m : Move) (kind : RuleKind) :
    (w.move client m).session.store.lastNumber kind =
      w.session.store.lastNumber kind + if m.allocates kind then 1 else 0 := by
  cases m with
  | allocate taken =>
    rw [Sharing.move, (Session.ask_takeNumber _ _).2, Session.record_store,
      Store.lastNumber_takeNumber, Move.allocates]
    by_cases heq : taken = kind <;> simp [heq, Store.next_of_lt (hroom.lastNumber kind)]
  | create text formula sources =>
    rw [Sharing.move]
    split
    · rfl
    · rename_i taken number hheld
      obtain ⟨store, hcreate⟩ := h.create_eq_ok (d := ⟨text, formula, taken, some number, sources⟩)
        hheld rfl
      rw [(Session.ask_create hcreate).2, Session.record_store]
      obtain ⟨-, rfl, -⟩ := Store.create_ok hcreate
      rfl
  | giveUp => rfl
  | findAll filter => rfl
  | findByIds ids => rfl

/-- A move uses up room for one move.

**Proof sketch.** By the move. Taking a number and storing a rule move one counter on by one. -/
theorem hasRoom_move (h : w.Settled) {n : Nat} (hroom : w.session.store.HasRoom (n + 1))
    (client : Client) (m : Move) : (w.move client m).session.store.HasRoom n := by
  have hless : w.session.store.HasRoom n := hroom.mono (Nat.le_succ n)
  cases m with
  | allocate kind =>
    rw [Sharing.move, (Session.ask_takeNumber _ _).2]
    exact hroom.takeNumber kind
  | create text formula sources =>
    rw [Sharing.move]
    split
    · exact hless
    · rename_i kind number hheld
      obtain ⟨store, hcreate⟩ := h.create_eq_ok (d := ⟨text, formula, kind, some number, sources⟩)
        hheld rfl
      rw [(Session.ask_create hcreate).2]
      exact hroom.create hcreate
  | giveUp => exact hless
  | findAll filter => exact hless
  | findByIds ids => exact hless

end Settled

/-! ## Schedules -/

/-- The shared store after a schedule, which says who moves next and how. -/
def after (w : Sharing Client) (schedule : List (Client × Move)) : Sharing Client :=
  schedule.foldl (fun w (client, m) => w.move client m) w

/-- A shared store at which a schedule wraps no counter: before every move all counters can go
on. -/
def HasRoomFor : Sharing Client → List (Client × Move) → Prop
  | _, [] => True
  | w, (client, m) :: schedule => w.session.store.HasRoom 1 ∧ HasRoomFor (w.move client m) schedule

/-- A settled store has room for a schedule where its counters are as far from their ends as the
schedule is long. -/
theorem Settled.hasRoomFor (h : w.Settled) {schedule : List (Client × Move)}
    (hroom : w.session.store.HasRoom schedule.length) : w.HasRoomFor schedule := by
  induction schedule generalizing w with
  | nil => trivial
  | cons next schedule ih =>
    have hnow : w.session.store.HasRoom 1 := hroom.mono (Nat.le_add_left 1 schedule.length)
    exact ⟨hnow, ih (h.move hnow next.1 next.2) (h.hasRoom_move hroom next.1 next.2)⟩

/-- After a schedule a shared store is settled and has given out the numbers that were asked for.

**Proof sketch.** By induction over the schedule, for any settled store to begin with that has room
for it. -/
theorem Settled.after (h : w.Settled) {schedule : List (Client × Move)}
    (hroom : w.HasRoomFor schedule) :
    (w.after schedule).Settled ∧ ∀ kind, (w.after schedule).session.store.lastNumber kind =
      w.session.store.lastNumber kind + schedule.countP (·.2.allocates kind) := by
  induction schedule generalizing w with
  | nil => exact ⟨h, fun _ => rfl⟩
  | cons next schedule ih =>
    obtain ⟨hnow, hlater⟩ := hroom
    obtain ⟨hlast, hnumber⟩ := ih (h.move hnow next.1 next.2) hlater
    refine ⟨hlast, fun kind => (hnumber kind).trans ?_⟩
    rw [h.lastNumber_move hnow, List.countP_cons]
    omega

/-- **No schedule makes clients collide or lose a rule.** Whatever the clients of a store do that
was empty, in whatever order and without wrapping a counter: a client that holds a number can store
a rule with it, and nothing was ever refused; the numbers of each kind were given out from one on,
one for every time that a number of this kind was asked for, whatever was done with the other kind;
and the store holds the rules that it answered with, which are those that it was asked to store,
each once.

**Proof sketch.** The shared store is settled after every move (`Settled.move`), by induction on the
schedule. A settled store has accepted everything, the numbers that it gave out go from one up to
the counter, and what a client holds is free. -/
theorem no_collision (schedule : List (Client × Move)) (hroom : start.HasRoomFor schedule) :
    let w := start.after schedule
    (∀ client kind n, w.held client = some (kind, n) → ∀ text formula sources,
      w.session.answer (.create ⟨text, formula, kind, some n, sources⟩) =
        .ok ⟨⟨text, formula, kind, some n, sources⟩, Store.next w.session.store.lastId⟩) ∧
    (∀ x ∈ w.session.exchanges, x.failure? = none) ∧
    (∀ kind, w.session.numbers kind = List.range' 1 (schedule.countP (·.2.allocates kind)) ∧
      (w.session.numbers kind).Nodup) ∧
    w.session.store.rules = w.session.created ∧
    w.session.store.rules.map (·.toDraft) = w.session.drafts ∧
    (w.session.store.rules.map (·.id)).Nodup := by
  intro w
  obtain ⟨h, hlast⟩ := settled_start.after hroom
  refine ⟨fun client kind n hheld text formula sources => ?_, h.answered, fun kind => ?_, h.rules,
    h.drafts, h.gapless.ordered.nodup_ids⟩
  · obtain ⟨store, hcreate⟩ :=
      h.create_eq_ok (d := ⟨text, formula, kind, some n, sources⟩) hheld rfl
    exact (Session.ask_create hcreate).1
  · have hzero : (start : Sharing Client).session.store.lastNumber kind = 0 := by cases kind <;> rfl
    have hnumbers := h.numbers kind
    rw [hlast kind, hzero, Nat.zero_add] at hnumbers
    exact ⟨hnumbers, hnumbers ▸ List.nodup_range'⟩

/-- Two clients that store their rules in the other order than they took their numbers, a number
that is given up for one of the other kind, and a number that is still held. -/
theorem no_collision_out_of_order :
    let formula : Formula := .condition ⟨"a", .equal, .text "x"⟩
    let schedule : List (Bool × Move) := [(true, .allocate .base), (false, .allocate .base),
      (false, .create "a = 'x'" formula []), (false, .findAll ⟨none⟩),
      (true, .create "a = 'x'" formula []), (false, .allocate .base),
      (false, .allocate .combined), (true, .allocate .base)]
    let w := start.after schedule
    start.HasRoomFor schedule ∧ w.held true = some (.base, 4) ∧ w.held false = some (.combined, 1) ∧
      w.session.numbers .base = [1, 2, 3, 4] ∧ w.session.numbers .combined = [1] ∧
      w.session.store.rules.map (·.number) = [some 2, some 1] ∧
      w.session.store.rules = w.session.created ∧
      w.session.answer (.create ⟨"a = 'x'", formula, .base, some 4, []⟩) =
        .ok ⟨⟨"a = 'x'", formula, .base, some 4, []⟩, 3⟩ := by
  intro formula schedule w
  have hroom : start.HasRoomFor schedule :=
    settled_start.hasRoomFor (Store.hasRoom_empty (by decide))
  have hheld : w.held true = some (.base, 4) := by decide +kernel
  obtain ⟨hcreate, -, hnumbers, hrules, -⟩ := no_collision schedule hroom
  exact ⟨hroom, hheld, by decide +kernel, (hnumbers .base).1, (hnumbers .combined).1,
    by decide +kernel, hrules, hcreate true .base 4 hheld _ _ _⟩

end Sharing

end Eligibility
