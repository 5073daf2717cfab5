import Eligibility.Proofs.Provenance
import Eligibility.Proofs.Restoring
import Eligibility.Proofs.StoredText
import Mathlib.Data.List.Infix

/-!
# Reloading the store of an engine

What an engine stores is covered by the counters and sources of its store: a rule carries a number
that was taken before, names rules that are stored, and has a formula that was parsed or combined
within the depth limit. So the snapshot of its store always gives the store back, and a host that
replaces its store by the one of its snapshot gets the same replies ever after.

## Main definitions

* `Reply`, `Host.reply`, `Host.replies` — what is answered in a run.
* `Moment`, `Host.replay` — a run in which the store is reloaded now and then.

## Main results

* `Store.Reachable.coherent` — the stores of runs are coherent.
* `Store.Reachable.ofSnapshot_snapshot` — they come back from their snapshots.
* `Host.replay_eq_ok` — reloading changes no reply and no store.
-/

set_option relaxedAutoImplicit false
set_option autoImplicit false

namespace Eligibility

/-! ## Coherence -/

/-- A draft that the engine makes carries the last number of its kind. -/
theorem Draft.Made.number_eq {limits : Limits} {s : Store} {d : Draft} (made : d.Made limits s) :
    d.number = some (s.lastNumber d.kind) := by
  cases made <;> rfl

namespace Store

variable {limits : Limits} {s : Store}

/-- Every act that wraps no counter leaves the counters above the numbers of the rules. -/
theorem Counted.act {s' : Store} (hs : s.Counted) (act : Act limits s s') (honward : s.Onward s') :
    s'.Counted := by
  cases act with
  | takeNumber kind => exact hs.takeNumber honward.lt_of_takeNumber
  | create made hcreate =>
    refine hs.create (fun n hn => ?_) hcreate
    have hnumber : some (s.lastNumber _) = some n := made.number_eq.symm.trans hn
    exact Nat.le_of_eq (Option.some.inj hnumber).symm

/-- The numbers of stored rules were all taken. -/
theorem Reachable.number_le (h : Reachable limits s) :
    ∀ r ∈ s.rules, ∀ n ∈ r.number, n ≤ s.lastNumber r.kind :=
  h.invariant (P := Counted) (by simp [Counted, empty]) Counted.act

/-- The sources of stored rules are stored. -/
theorem Reachable.stored (h : Reachable limits s) :
    ∀ r ∈ s.rules, ∀ id ∈ r.sources, ∃ b ∈ s.rules, b.id = id := by
  intro r hr id hid
  cases h.traced r hr with
  | base _ hsources =>
    rw [hsources] at hid
    cases hid
  | combined _ hkind _ _ => exact ((h.sources hr hkind).2.2 id hid).2

/-- All rules of a store that is reached read back. -/
theorem Reachable.readsBack (h : Reachable limits s) : ∀ r ∈ s.rules, r.ReadsBack limits :=
  h.invariant (P := fun s => ∀ r ∈ s.rules, r.ReadsBack limits) (by simp [empty])
    fun hs act _ => act.readsBack hs

/-- **The store of a run is coherent.** -/
theorem Reachable.coherent (h : Reachable limits s) : s.Coherent :=
  ⟨h.number_le, h.stored, fun r hr => (h.readsBack r hr).depth_le⟩

/-- **The store of a run comes back from its snapshot.** -/
theorem Reachable.ofSnapshot_snapshot (h : Reachable limits s) (hwritable : s.Writable) :
    ofSnapshot s.snapshot = .ok s :=
  h.coherent.ofSnapshot_snapshot h.ordered hwritable

end Store

/-! ## Replies -/

/-- What is answered to an event; a change of the calls that fail has no answer. -/
inductive Reply where
  | request (answer : Except EngineError Answer)
  | allocated (number : Except StoreError Nat)
  | silence

/-- What happens at a host that reloads its store now and then. -/
inductive Moment where
  | event (event : Event)
  | reload

/-- The events among the moments. -/
def Moment.events (moments : List Moment) : List Event :=
  moments.filterMap fun
    | event e => some e
    | reload => none

namespace Host

/-- What a host answers to an event. -/
def reply (limits : Limits) (host : Host) : Event → Reply
  | .request r => .request ((r.perform limits).outcome host).1
  | .allocate kind => .allocated ((Access.takeNumber kind).outcome host).1
  | .failures _ => .silence

/-- What a host answers in a run. -/
def replies (limits : Limits) : Host → List Event → List Reply
  | _, [] => []
  | host, event :: run => host.reply limits event :: replies limits (host.step limits event) run

/-- The host whose store is the one of its snapshot. -/
def reload (host : Host) : Except SnapshotError Host := do
  let store ← Store.ofSnapshot host.store.snapshot
  return { host with store := store }

/-- What a host answers that reloads its store now and then, and the host at the end. -/
def replay (limits : Limits) : Host → List Moment → Except SnapshotError (List Reply × Host)
  | host, [] => .ok ([], host)
  | host, .event event :: moments => do
    let (answers, last) ← replay limits (host.step limits event) moments
    return (host.reply limits event :: answers, last)
  | host, .reload :: moments => do
    let reloaded ← host.reload
    replay limits reloaded moments

variable {limits : Limits}

/-- Reloading the store of a run gives the same host. -/
theorem reload_eq_ok {host : Host} (h : host.store.Reachable limits)
    (hwritable : host.store.Writable) :
    host.reload = .ok host := by
  rw [reload, h.ofSnapshot_snapshot hwritable]
  rfl

/-- Reloading changes nothing from a store on that acts reach.

**Proof sketch.** By induction over the moments. An event leads to a store that acts reach as well,
and a reload leads to the same host. -/
theorem replay_of_reachable {host : Host} {moments : List Moment}
    (hreach : host.store.Reachable limits) (hroom : host.HasRoomFor limits (Moment.events moments))
    (h : ∀ before, before ++ [.reload] <+: moments →
      (host.after limits (Moment.events before)).store.Writable) :
    host.replay limits moments = .ok (host.replies limits (Moment.events moments),
      host.after limits (Moment.events moments)) := by
  induction moments generalizing host with
  | nil => rfl
  | cons moment moments ih =>
    cases moment with
    | event event =>
      obtain ⟨hnow, hlater⟩ : host.HasRoomFor limits (event :: Moment.events moments) := hroom
      have hstep : (host.step limits event).store.Reachable limits :=
        hreach.trans (acts_step hnow event)
      have hrest := ih hstep hlater fun before hbefore =>
        h (.event event :: before) (List.cons_prefix_cons.mpr ⟨rfl, hbefore⟩)
      rw [replay, hrest]
      rfl
    | reload =>
      have hwritable : host.store.Writable :=
        h [] (List.cons_prefix_cons.mpr ⟨rfl, List.nil_prefix⟩)
      have hrest := ih hreach hroom fun before hbefore =>
        h (.reload :: before) (List.cons_prefix_cons.mpr ⟨rfl, hbefore⟩)
      rw [replay, reload_eq_ok hreach hwritable]
      exact hrest

/-- **Reloading is invisible.** In every run of an engine from the empty store on that wraps no
counter, whatever fails on the way, the store comes back from its snapshot as long as a snapshot has
room for it; and reloading it at any moments of the run changes none of the replies and not the host
at the end.

**Proof sketch.** A store that is reached is in order and coherent, so that it comes back from its
snapshot, and replacing it by itself changes nothing that follows. By induction on the moments. -/
theorem replay_eq_ok (limits : Limits) :
    (∀ run, (ofStore .empty).HasRoomFor limits run →
      ((ofStore .empty).after limits run).store.Writable →
      let s := ((ofStore .empty).after limits run).store
      Store.ofSnapshot s.snapshot = .ok s) ∧
    ∀ moments, (ofStore .empty).HasRoomFor limits (Moment.events moments) →
      (∀ before, before ++ [.reload] <+: moments →
        ((ofStore .empty).after limits (Moment.events before)).store.Writable) →
      (ofStore .empty).replay limits moments =
        .ok ((ofStore .empty).replies limits (Moment.events moments),
          (ofStore .empty).after limits (Moment.events moments)) := by
  constructor
  · intro run hroom hwritable
    have hreach : Store.Reachable limits ((ofStore .empty).after limits run).store :=
      acts_after hroom
    exact hreach.ofSnapshot_snapshot hwritable
  · intro moments hroom h
    exact replay_of_reachable .refl hroom h

/-- A run in which a request is refused and a number is lost, with a reload before and after it. -/
theorem replay_eq_ok_refused :
    let moments : List Moment := [.event (.request (.createRule "a = 'x' OR b < 2")), .reload,
      .event (.request (.createRule "c >= 3")), .event (.allocate .combined),
      .event (.failures fun c => if c = .create then some (.unavailable "full") else none),
      .event (.request (.combineRules [2, 1])), .reload, .event (.failures fun _ => none),
      .event (.request (.combineRules [1, 2])), .event (.request (.rules .combined))]
    let last := (ofStore .empty).after .standard (Moment.events moments)
    Store.ofSnapshot last.store.snapshot = .ok last.store ∧
      (ofStore .empty).replay .standard moments =
        .ok ((ofStore .empty).replies .standard (Moment.events moments), last) := by
  intro moments last
  have hinits : ∀ before ∈ moments.inits,
      ((ofStore .empty).after .standard (Moment.events before)).store.Writable := by
    decide +kernel
  have hwritable (before : List Moment) (hbefore : before <+: moments) :=
    hinits before ((List.mem_inits before moments).mpr hbefore)
  have hroom : (ofStore .empty).HasRoomFor .standard (Moment.events moments) :=
    hasRoomFor_of_hasRoom (Store.hasRoom_empty (by decide))
  obtain ⟨hlast, hreplay⟩ := replay_eq_ok .standard
  refine ⟨hlast _ hroom (hwritable moments List.prefix_rfl),
    hreplay moments hroom fun before hbefore => ?_⟩
  exact hwritable before ((List.prefix_append before [.reload]).trans hbefore)

end Host

end Eligibility
