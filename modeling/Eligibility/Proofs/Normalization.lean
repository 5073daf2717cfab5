import Eligibility.Proofs.Restoring

/-!
# Snapshots in their normal form

Many snapshots describe one store. The rules stand in any order, a group can have a single member or
begin with a group of its own connective, numbers can be wider than they need be, and bytes that
nobody reads hold anything. What is written of the store is the same for all of them. It is their
normal form: it describes the same store, so that reading it and writing it once more changes
nothing.

## Main results

* `Payload.perm_of_store` — a store holds the rule of every record, each once.
* `Store.reading_normalizes` — a store that is read, from whatever bytes, comes back from its own
  snapshot.
-/

set_option relaxedAutoImplicit false
set_option autoImplicit false

namespace Eligibility

/-- **A store holds the rule of every record**, each once, in the order of the ids. -/
theorem Payload.perm_of_store {p : Payload} {s : Store} (h : p.store = .ok s) :
    ∃ rules, p.records.mapM Record.rule = .ok rules ∧ s.rules.Perm rules := by
  obtain ⟨hp, rules, hrules, rfl⟩ := store_eq_ok_iff.mp h
  have hnodup : (rules.map (·.id)).Nodup := map_id_of_forall₂_rule hrules ▸ hp.nodup
  exact ⟨rules, mapM_rule_eq_ok_iff.mpr hrules, perm_foldl_insertById hnodup⟩

namespace Store

variable {s : Store}

/-- **Reading a snapshot brings it into normal form.** The store that is read, from whatever bytes,
holds the rules of all records under the counters of the payload. It comes back from its own
snapshot, where a header has room for the length. No formula of it is too deep, and the sources of
its rules are stored.

**Proof sketch.** The checks look at the payload as it was written, with the depths of groups that
are not in normal form. Those are the depths of the formulas that the groups stand for, so the store
is coherent, and for a coherent store the checks of the payload in normal form have nothing to
find. -/
theorem reading_normalizes {bytes : Bytes} (h : ofSnapshot bytes = .ok s) :
    (∃ content p rest rules, Snapshot.payloadOf bytes = .ok content ∧
      Payload.read content = some (p, rest) ∧ p.records.mapM Payload.Record.rule = .ok rules ∧
      s.rules.Perm rules ∧ s.lastId = p.lastId ∧ ∀ kind, s.lastNumber kind = p.lastNumber kind) ∧
    (s.payload.bytes.length < 2 ^ 32 → ofSnapshot s.snapshot = .ok s) ∧
    (∀ r ∈ s.rules, r.formula.depth ≤ Formula.maxDepth) ∧
    ∀ r ∈ s.rules, ∀ id ∈ r.sources, ∃ b ∈ s.rules, b.id = id := by
  obtain ⟨content, p, rest, hcontent, hread, hstore⟩ := ofSnapshot_eq_ok_iff.mp h
  obtain ⟨rules, hrules, hperm⟩ := Payload.perm_of_store hstore
  obtain ⟨-, -, hlastId, hlastNumber⟩ := Payload.store_ok hstore
  obtain ⟨hs, hcoherent, hfit⟩ := ofSnapshot_ok h
  exact ⟨⟨content, p, rest, rules, hcontent, hread, hrules, hperm, hlastId, hlastNumber⟩,
    fun hlength => hcoherent.ofSnapshot_snapshot hs ⟨hfit, hlength⟩, hcoherent.depth_le,
    hcoherent.stored⟩

/-- A rule behind the one that was made of it, with groups of one member and a group in front of its
own connective, and bytes in all places that are passed over. -/
theorem reading_normalizes_disorder :
    let a : Condition := ⟨"a", .equal, .text "x"⟩
    let b : Condition := ⟨"b", .greater, .number .zero⟩
    let records : List Payload.Record := [
      ⟨5, "c", .combined, some 1, [2, 2], .group .and [.group .and [.group .or [.condition a],
        .condition b], .condition a]⟩,
      ⟨2, "a = 'x'", .base, none, [], .group .or [.group .and [.condition a]]⟩]
    let content := (⟨2, 7, 3, 1, records⟩ : Payload).bytes ++ [0, 255]
    let bytes := Snapshot.magic ++ (Bytes.littleEndian 2 Snapshot.formatVersion ++
      ([9, 0, 255, 254, 253, 252] ++ (Bytes.littleEndian 4 content.length ++
        (Snapshot.checksum content ++ (content ++ [7])))))
    let s : Store := ⟨[⟨⟨"a = 'x'", .condition a, .base, none, []⟩, 2⟩,
      ⟨⟨"c", .join .and (.join .and (.condition a) (.condition b)) (.condition a),
        .combined, some 1, [2, 2]⟩, 5⟩], 7, 3, 1⟩
    ofSnapshot bytes = .ok s ∧ ofSnapshot s.snapshot = .ok s ∧
      s.snapshot.length < bytes.length := by
  intro a b records content bytes s
  have hread : ofSnapshot bytes = .ok s := by decide +kernel
  obtain ⟨-, hagain, -, -⟩ := reading_normalizes hread
  exact ⟨hread, hagain (by decide +kernel), by decide +kernel⟩

end Store

end Eligibility
