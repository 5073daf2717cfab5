import Eligibility.Proofs.CanonicalText
import Eligibility.Proofs.Conjunction
import Eligibility.Proofs.Run

/-!
# Stored texts and stored formulas

A stored rule keeps its text and its formula side by side. For a base rule the formula was parsed
from the text; for a combined rule the text was written from the formula, which was folded from the
formulas of stored rules. In both cases the text parses to the formula within the limits of the
engine.

## Main definitions

* `Draft.ReadsBack` — a rule whose text parses to its formula, and whose formula can be written
  again.

## Main results

* `Draft.Made.readsBack` — the engine makes such rules, out of such rules.
* `Store.Act.readsBack` — every act leaves such rules, where there were such rules.
* `Host.parse_stored_text` — the texts and formulas that are stored agree, after every run.

## Implementation notes

That the text parses is not enough to go through a combination, where the texts of the sources are
not read again: their conditions must have a spelling, whatever the formula around them is.
-/

set_option relaxedAutoImplicit false
set_option autoImplicit false

namespace Eligibility

namespace Formula

/-- A conjunction has a spelling when all its formulas have. -/
theorem lexable_conjunction {first : Formula} {rest : List Formula}
    (h : ∀ f ∈ first :: rest, f.Lexable) : (conjunction first rest).Lexable := by
  induction rest generalizing first with
  | nil => exact h first List.mem_cons_self
  | cons g rest ih =>
    have hfirst : first.Lexable := h first List.mem_cons_self
    have hg : g.Lexable := h g (List.mem_cons_of_mem _ List.mem_cons_self)
    refine ih fun f hf => ?_
    rcases List.mem_cons.mp hf with rfl | hf
    · exact lexable_join.mpr ⟨hfirst, hg⟩
    · exact h f (List.mem_cons_of_mem _ (List.mem_cons_of_mem _ hf))

end Formula

/-- A rule whose text parses to its formula within the limits, and whose formula can be written
again. -/
structure Draft.ReadsBack (limits : Limits) (d : Draft) : Prop where
  parse_text : Formula.parse limits.maxNesting d.text = .ok d.formula
  depth_le : d.formula.depth ≤ Formula.maxDepth
  lexable : d.formula.Lexable

/-- **The engine makes rules that read back**, from stored rules that do. -/
theorem Draft.Made.readsBack {limits : Limits} {s : Store} {d : Draft} (made : d.Made limits s)
    (hs : ∀ r ∈ s.rules, r.ReadsBack limits) : d.ReadsBack limits := by
  cases made with
  | base _ parsed =>
    obtain ⟨_, _, _, _, hdepth⟩ := Formula.parse_eq_ok_iff.mp parsed
    exact ⟨parsed, hdepth, Formula.lexable_of_parse parsed⟩
  | @combined ids formula accepted =>
    obtain ⟨_, hcombine, hnesting⟩ := Engine.conjunctionOf_ok accepted
    obtain ⟨_, hdepth, first, rest, hformulas, rfl⟩ := Formula.combine_ok hcombine
    have hlexable : (Formula.conjunction first rest).Lexable := by
      apply Formula.lexable_conjunction
      intro f hf
      rw [← hformulas, List.mem_map] at hf
      obtain ⟨r, hr, rfl⟩ := hf
      exact (hs r (Store.mem_of_mem_findByIds hr).1).lexable
    exact ⟨Formula.parse_text hlexable hdepth hnesting, hdepth, hlexable⟩

namespace Store

/-- **Every act leaves rules that read back** where all rules do, also when it puts one in the place
of another. -/
theorem Act.readsBack {limits : Limits} {s s' : Store} (hs : ∀ r ∈ s.rules, r.ReadsBack limits)
    (act : Act limits s s') : ∀ r ∈ s'.rules, r.ReadsBack limits := by
  cases act with
  | takeNumber kind => rwa [takeNumber_rules]
  | create made hcreate =>
    obtain ⟨rfl, rfl, -⟩ := create_ok hcreate
    intro r hr
    rcases mem_of_mem_insertById hr with rfl | hr
    · exact made.readsBack hs
    · exact hs r hr

end Store

namespace Host

/-- **Stored texts and stored formulas never disagree**: after every run of an engine, whatever
failed on the way, the text of every stored rule parses to its formula within the limits of the
engine, and the formula is within the depth limit.

**Proof sketch.** Every act keeps all stored rules such that they read back: an authored rule was
parsed from its text, and a combined one was printed within the limits from formulas that have a
spelling. -/
theorem parse_stored_text (limits : Limits) (run : List Event) (r : Rule)
    (hr : r ∈ ((ofStore .empty).after limits run).store.rules) :
    Formula.parse limits.maxNesting r.text = .ok r.formula ∧
      r.formula.depth ≤ Formula.maxDepth := by
  have hreads : r.ReadsBack limits := by
    refine invariant_after (P := fun s => ∀ r ∈ s.rules, r.ReadsBack limits) ?_ ?_ run r hr
    · exact Store.Act.readsBack
    · simp [ofStore, Store.empty]
  exact ⟨hreads.parse_text, hreads.depth_le⟩

/-- A combination of a combination with a disjunction, after a request that the store refused. -/
theorem parse_stored_text_combined_again :
    let run : List Event := [.request (.createRule "a = 'x' OR b < 2"),
      .request (.createRule "c >= 3"), .request (.combineRules [2, 1, 2]),
      .failures fun c => if c = .create then some (.unavailable "full") else none,
      .request (.combineRules [2, 1]), .failures fun _ => none,
      .request (.combineRules [1, 3])]
    ∃ r ∈ ((ofStore .empty).after .standard run).store.rules, r.sources = [1, 3] ∧
      Formula.parse Limits.standard.maxNesting r.text = .ok r.formula ∧
      r.formula.depth ≤ Formula.maxDepth := by
  intro run
  have hstored : ∃ r ∈ ((ofStore .empty).after .standard run).store.rules, r.sources = [1, 3] := by
    decide +kernel
  obtain ⟨r, hr, hsources⟩ := hstored
  exact ⟨r, hr, hsources, parse_stored_text .standard run r hr⟩

end Host

end Eligibility
