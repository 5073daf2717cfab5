import Eligibility.Attribute.Json
import Eligibility.Proofs.JsonDocument
import Eligibility.Proofs.RelatedPaths
import Mathlib.Data.List.Basic

/-!
# Attributes in JSON are writes to dotted paths

A document is walked with the segments of the keys so far, and a value is written at all segments of
its keys. Joining the keys with dots and splitting the path gives the same segments, however the
keys are cut into segments and nested. So a document gives the attributes that writing its values
one by one gives, and which of them stay is decided by the last related write.

## Main definitions

* `Json.leaves` — the values of a document with the keys on the way to them, in the order of the
  walk.
* `Json.dottedLeaves` — the values of a document with their dotted paths.

## Main results

* `Json.pairwise_sortMembers`, `Json.lookup_sortMembers` — an object is walked by increasing key,
  and each key has its last member.
* `segments_intercalate` — the segments of keys joined by dots are those of the keys.
* `Json.writeBelow_eq_foldl` — the walk writes the leaves one by one.
* `Context.ofJson_writes_dottedLeaves` — a document gives the attributes that its leaves give, and
  documents with the same leaves at unrelated paths give the same attributes.
-/

set_option relaxedAutoImplicit false
set_option autoImplicit false

namespace Eligibility

namespace Json

/-! ## The members of an object -/

section Members

variable {α β : Type}

/-- Adding a member gives its key a value and leaves other keys as they are.

**Proof sketch.** By induction on the members, in the three cases of where the new one belongs. -/
theorem lookup_insertMember (key key' : String) (v : α) (ms : List (String × α)) :
    (insertMember key v ms).lookup key' = if key' = key then some v else ms.lookup key' := by
  induction ms with
  | nil => exact lookup_cons_eq_ite key' key v []
  | cons m ms ih =>
    obtain ⟨key₁, v₁⟩ := m
    rw [insertMember]
    split
    · exact lookup_cons_eq_ite key' key v _
    · split
      · rename_i hkey
        subst hkey
        rw [lookup_cons_eq_ite, lookup_cons_eq_ite]
        split <;> rfl
      · rename_i hkey
        rw [lookup_cons_eq_ite, lookup_cons_eq_ite, ih]
        by_cases h : key' = key
        · subst h
          rw [if_neg hkey, if_pos rfl, if_pos rfl]
        · simp only [if_neg h]

/-- The last member is added to those before it. -/
theorem sortMembers_concat (ms : List (String × α)) (m : String × α) :
    sortMembers (ms ++ [m]) = insertMember m.1 m.2 (sortMembers ms) := by
  simp [sortMembers]

/-- **Each key has its last member.** -/
theorem lookup_sortMembers (key : String) (ms : List (String × α)) :
    (sortMembers ms).lookup key = ms.reverse.lookup key := by
  induction ms using List.reverseRecOn with
  | nil => rfl
  | append_singleton ms m ih =>
    rw [sortMembers_concat, lookup_insertMember, ih, List.reverse_concat, lookup_cons_eq_ite]

/-- A member of the list after one was added is this one or was there before. -/
theorem mem_of_mem_insertMember {key : String} {v : α} {ms : List (String × α)} {m : String × α}
    (h : m ∈ insertMember key v ms) : m = (key, v) ∨ m ∈ ms := by
  induction ms with
  | nil => simpa [insertMember] using h
  | cons m' ms ih =>
    simp only [insertMember] at h
    split at h
    · simpa using h
    · split at h
      · rcases List.mem_cons.mp h with h | h
        · exact .inl h
        · exact .inr (List.mem_cons_of_mem _ h)
      · rcases List.mem_cons.mp h with h | h
        · exact .inr (h ▸ List.mem_cons_self)
        · exact (ih h).imp_right (List.mem_cons_of_mem _)

/-- Sorting the members invents none. -/
theorem mem_of_mem_sortMembers {ms : List (String × α)} {m : String × α} (h : m ∈ sortMembers ms) :
    m ∈ ms := by
  induction ms using List.reverseRecOn with
  | nil => cases h
  | append_singleton ms m' ih =>
    rw [sortMembers_concat] at h
    rcases mem_of_mem_insertMember h with rfl | h
    · simp
    · exact List.mem_append_left _ (ih h)

/-- A member is added where its key belongs.

**Proof sketch.** By induction on the members. The new one stands before the first one with a larger
key or takes the place of the one with its own, and otherwise goes on behind a smaller one. -/
theorem pairwise_insertMember {key : String} {v : α} {ms : List (String × α)}
    (h : ms.Pairwise fun m m' => m.1 < m'.1) :
    (insertMember key v ms).Pairwise fun m m' => m.1 < m'.1 := by
  induction ms with
  | nil => simp [insertMember]
  | cons m ms ih =>
    obtain ⟨hhead, htail⟩ := List.pairwise_cons.mp h
    simp only [insertMember]
    split
    · rename_i hlt
      refine List.pairwise_cons.mpr ⟨fun m' hm' => ?_, h⟩
      rcases List.mem_cons.mp hm' with rfl | hm'
      · exact hlt
      · exact String.lt_trans hlt (hhead m' hm')
    · split
      · rename_i hkey
        exact List.pairwise_cons.mpr ⟨fun m' hm' => hkey ▸ hhead m' hm', htail⟩
      · rename_i hnot hne
        have hlt : m.1 < key := by
          apply Decidable.byContradiction
          intro hge
          exact hne (String.le_antisymm (String.not_lt.mp hge) (String.not_lt.mp hnot))
        refine List.pairwise_cons.mpr ⟨fun m' hm' => ?_, ih htail⟩
        rcases mem_of_mem_insertMember hm' with rfl | hm'
        · exact hlt
        · exact hhead m' hm'

/-- **An object is walked by increasing key.** -/
theorem pairwise_sortMembers (ms : List (String × α)) :
    (sortMembers ms).Pairwise fun m m' => m.1 < m'.1 := by
  induction ms using List.reverseRecOn with
  | nil => exact .nil
  | append_singleton ms m ih =>
    rw [sortMembers_concat]
    exact pairwise_insertMember ih

/-- Adding a member looks at keys only. -/
theorem map_insertMember (f : α → β) (key : String) (v : α) (ms : List (String × α)) :
    (insertMember key v ms).map (fun m => (m.1, f m.2)) =
      insertMember key (f v) (ms.map fun m => (m.1, f m.2)) := by
  induction ms with
  | nil => rfl
  | cons m ms ih =>
    simp only [insertMember, List.map_cons]
    split
    · rfl
    · split
      · rfl
      · simp [ih]

/-- Sorting the members looks at keys only. -/
theorem map_sortMembers (f : α → β) (ms : List (String × α)) :
    (sortMembers ms).map (fun m => (m.1, f m.2)) = sortMembers (ms.map fun m => (m.1, f m.2)) := by
  induction ms using List.reverseRecOn with
  | nil => rfl
  | append_singleton ms m ih =>
    rw [sortMembers_concat, map_insertMember, ih, List.map_append, List.map_singleton,
      sortMembers_concat]

end Members

/-! ## Leaves -/

mutual

/-- The numbers, strings and truth values in a document with the keys on the way to them, in the
order of a walk. -/
def leaves : Json → List (List String × Value)
  | bool b => [([], .bool b)]
  | integer i => [([], .number (.ofInt i))]
  | number x => [([], .number x)]
  | string s => [([], .text s)]
  | object members =>
    (sortMembers (memberLeaves members)).flatMap fun m => m.2.map fun l => (m.1 :: l.1, l.2)
  | _ => []

/-- The leaves of each member. -/
def memberLeaves : List (String × Json) → List (String × List (List String × Value))
  | [] => []
  | (key, v) :: ms => (key, v.leaves) :: memberLeaves ms

end

/-- The leaves of a document, each with its keys joined by dots. -/
def dottedLeaves (document : Json) : List (String × Value) :=
  document.leaves.map fun l => (".".intercalate l.1, l.2)

/-- The leaves of members are those of each member, under its key. -/
theorem memberLeaves_eq_map (ms : List (String × Json)) :
    memberLeaves ms = ms.map fun m => (m.1, m.2.leaves) := by
  induction ms with
  | nil => rfl
  | cons m ms ih => rw [memberLeaves, ih, List.map_cons]

/-- The writes of members are those of each member, under its key. -/
theorem memberWrites_eq_map (ms : List (String × Json)) :
    memberWrites ms = ms.map fun m => (m.1, m.2.writeBelow) := by
  induction ms with
  | nil => rfl
  | cons m ms ih => rw [memberWrites, ih, List.map_cons]

/-- The leaves of an object are those of its members, each below its key. -/
theorem leaves_object (members : List (String × Json)) :
    (object members).leaves =
      (sortMembers members).flatMap fun m => m.2.leaves.map fun l => (m.1 :: l.1, l.2) := by
  rw [leaves, memberLeaves_eq_map, ← map_sortMembers, List.flatMap_map]

/-- An object writes one member after the other, each below the segments of its key. -/
theorem writeBelow_object (members : List (String × Json)) (path : List String) (ctx : Context) :
    (object members).writeBelow path ctx =
      (sortMembers members).foldl (fun ctx m => m.2.writeBelow (path ++ segments m.1) ctx) ctx := by
  rw [writeBelow, memberWrites_eq_map, ← map_sortMembers, List.foldl_map]

/-- **The walk writes the leaves one by one**, each at the segments of all its keys.

**Proof sketch.** By induction on the document. What a member writes below the segments of its key
is what its leaves write with this key in front. -/
theorem writeBelow_eq_foldl (document : Json) (path : List String) (ctx : Context) :
    document.writeBelow path ctx =
      document.leaves.foldl (fun ctx l => ctx.insertAt (path ++ l.1.flatMap segments) l.2) ctx := by
  induction document using Json.induction generalizing path ctx with
  | null | array | unusable => rfl
  | bool | integer | number | string => simp [writeBelow, leaves]
  | object members ih =>
    rw [writeBelow_object, leaves_object, List.foldl_flatMap]
    refine List.foldl_ext _ _ ctx fun ctx m hm => ?_
    rw [ih m (mem_of_mem_sortMembers hm), List.foldl_map]
    simp

end Json

/-! ## Dotted paths -/

/-- **The segments of keys joined by dots are those of the keys**, one key after the other. -/
theorem segments_intercalate {keys : List String} (h : keys ≠ []) :
    segments (".".intercalate keys) = keys.flatMap segments := by
  induction keys with
  | nil => exact absurd rfl h
  | cons key keys ih =>
    cases keys with
    | nil => simp
    | cons next keys =>
      have hdot : segments (key ++ "." ++ ".".intercalate (next :: keys)) =
          segments key ++ segments (".".intercalate (next :: keys)) := by
        simp [segments, List.splitOn_append_cons_self]
      rw [String.intercalate_cons_cons, hdot, ih (List.cons_ne_nil _ _)]
      rfl

namespace Context

/-- An object gives the attributes that its leaves give, written one by one at their dotted
paths. -/
theorem ofJson_object (members : List (String × Json)) :
    ofJson (.object members) = .ok (ofList (Json.object members).dottedLeaves) := by
  rw [ofJson, Json.writeBelow_eq_foldl, ofList, Json.dottedLeaves, List.foldl_map]
  refine congrArg Except.ok (List.foldl_ext _ _ _ fun ctx l hl => ?_)
  -- every leaf of an object has a key
  have hkeys : l.1 ≠ [] := by
    rw [Json.leaves_object, List.mem_flatMap] at hl
    obtain ⟨m, -, hl⟩ := hl
    obtain ⟨l', -, rfl⟩ := List.mem_map.mp hl
    exact List.cons_ne_nil _ _
  show ctx.insertAt ([] ++ l.1.flatMap segments) l.2 = ctx.insert (".".intercalate l.1) l.2
  rw [Context.insert, segments_intercalate hkeys, List.nil_append]

/-- **A document gives the attributes that its leaves give**, written in the order of the walk at
their keys joined by dots; so does the text of the document. The walk goes through an object by
increasing key, and takes the last member of each. Two documents with the same leaves at the same
dotted paths, none of them related to another, give the same value at every path, however their keys
are nested.

**Proof sketch.** The walk through the document writes at the paths so far just what the list of its
leaves says, key by key. The rest is about the order of the keys and about writes to unrelated
paths, which may come in any order. -/
theorem ofJson_writes_dottedLeaves (members : List (String × Json)) :
    ofJson (.object members) = .ok (ofList (Json.object members).dottedLeaves) ∧
    ((Json.sortMembers members).Pairwise (fun m m' => m.1 < m'.1) ∧
      ∀ key, (Json.sortMembers members).lookup key = members.reverse.lookup key) ∧
    (∀ text, Json.parse? text = some (.object members) → (Json.object members).isSound = true →
      ofJsonText text = .ok (ofList (Json.object members).dottedLeaves)) ∧
    ∀ members',
      (∀ w ∈ (Json.object members).dottedLeaves, ∀ w' ∈ (Json.object members).dottedLeaves,
        w ≠ w' → ¬ Related w.1 w'.1) →
      (∀ w, w ∈ (Json.object members).dottedLeaves ↔ w ∈ (Json.object members').dottedLeaves) →
      ∃ ctx ctx', ofJson (.object members) = .ok ctx ∧ ofJson (.object members') = .ok ctx' ∧
        ∀ path, ctx.get? path = ctx'.get? path := by
  refine ⟨ofJson_object members,
    ⟨Json.pairwise_sortMembers members, fun key => Json.lookup_sortMembers key members⟩,
    fun text hparse hsound => ?_, fun members' hunrelated hsame => ?_⟩
  · rw [ofJsonText, hparse]
    exact (if_pos hsound).trans (ofJson_object members)
  · refine ⟨_, _, ofJson_object members, ofJson_object members', fun path => ?_⟩
    refine get?_eq_of_unrelated (fun w hw w' hw' hrelated => ?_) hsame path
    apply Decidable.byContradiction
    intro hne
    exact hunrelated w hw w' hw' hne hrelated

/-- The same two values below a key with a dot in it and below a nested object, read in different
orders. -/
theorem ofJson_writes_dottedLeaves_nested :
    let members := [("user", Json.object [("profile.tier", .string "gold"), ("age", .integer 41)]),
      ("tags", .array [.null])]
    let members' := [("user.age", Json.integer 41),
      ("user", .object [("profile", .object [("tier", .string "gold")])])]
    ofJsonText (Json.object members).text =
        .ok (ofList [("user.age", .number (.ofInt 41)), ("user.profile.tier", .text "gold")]) ∧
      ∃ ctx ctx', ofJson (.object members) = .ok ctx ∧ ofJson (.object members') = .ok ctx' ∧
        ∀ path, ctx.get? path = ctx'.get? path := by
  intro members members'
  have hleaves : (Json.object members).dottedLeaves =
      [("user.age", .number (.ofInt 41)), ("user.profile.tier", .text "gold")] := by decide +kernel
  have hleaves' : (Json.object members').dottedLeaves =
      [("user.profile.tier", .text "gold"), ("user.age", .number (.ofInt 41))] := by decide +kernel
  obtain ⟨-, -, htext, hnested⟩ := ofJson_writes_dottedLeaves members
  rw [hleaves] at htext hnested
  have hfit : (Json.object members).IntegersFit :=
    ⟨⟨trivial, ⟨by decide, by decide⟩, trivial⟩, ⟨trivial, trivial⟩, trivial⟩
  refine ⟨htext _ (Json.parse?_text hfit) rfl, hnested members' (by decide +kernel) fun w => ?_⟩
  rw [hleaves']
  exact (List.Perm.swap _ _ []).mem_iff

end Context

end Eligibility
