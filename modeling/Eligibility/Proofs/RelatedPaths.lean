import Eligibility.Attribute.Context
import Mathlib.Data.List.Induction
import Mathlib.Data.List.Pairwise

/-!
# The last related write decides

Writing a path can change what stands at other paths: it turns values on the way to it into groups,
and a group at its end into a value, with all that was below. These are the paths of which one leads
through the other. So what a path holds is decided by the last write to a path that is related to it
in this way: it holds the value if this write was to the path itself, and nothing if it was to
another one.

## Main definitions

* `Aligned` — one list of segments begins with the other; `Related` — so do those of two dotted
  paths.

## Main results

* `segments_injective` — a path is known by its segments.
* `Entry.get?_insert`, `Context.get?_insert` — what one write does to every path.
* `Context.get?_ofList_eq_some_iff` — what a path holds after a list of writes.
* `Context.get?_eq_of_unrelated` — the values at unrelated paths do not depend on the order of the
  writes.
* `Context.last_related_write_decides` — the three together with the context that is empty.
-/

set_option relaxedAutoImplicit false
set_option autoImplicit false

namespace Eligibility

/-! ## Paths -/

/-- One of two lists of segments begins with the other. -/
def Aligned (path path' : List String) : Prop :=
  path <+: path' ∨ path' <+: path

/-- Whether paths are aligned can be told by comparing their parts. -/
instance : DecidableRel Aligned := fun path path' =>
  inferInstanceAs (Decidable (path <+: path' ∨ path' <+: path))

/-- One of two dotted paths leads through the other, or is the other. -/
def Related (path path' : String) : Prop :=
  Aligned (segments path) (segments path')

/-- Whether names are related can be told by comparing their parts. -/
instance : DecidableRel Related := fun path path' =>
  inferInstanceAs (Decidable (Aligned (segments path) (segments path')))

/-- Alignment does not depend on the order. -/
theorem Aligned.symm {path path' : List String} (h : Aligned path path') : Aligned path' path :=
  Or.symm h

/-- A name is related to itself. -/
theorem Related.refl (path : String) : Related path path :=
  .inl List.prefix_rfl

/-- Relation does not depend on the order. -/
theorem Related.symm {path path' : String} (h : Related path path') : Related path' path :=
  Aligned.symm h

/-- Every path is aligned with the one of no parts. -/
@[simp] theorem aligned_nil_right (path : List String) : Aligned path [] :=
  .inr List.nil_prefix

/-- Paths that begin with the same name are aligned as their rests are, others are not. -/
theorem aligned_cons_cons {name name' : String} {path path' : List String} :
    Aligned (name :: path) (name' :: path') ↔ name = name' ∧ Aligned path path' := by
  simp only [Aligned, List.cons_prefix_cons, eq_comm (a := name')]
  exact and_or_left.symm

/-- A path has at least one segment. -/
theorem segments_ne_nil (path : String) : segments path ≠ [] := by
  simp [segments, List.splitOn_ne_nil]

/-- **A path is known by its segments.** -/
theorem segments_injective {path path' : String} (h : segments path = segments path') :
    path = path' := by
  have hsplit : path.toList.splitOn '.' = path'.toList.splitOn '.' :=
    (List.map_inj_right fun _ _ => String.ofList_inj.mp).mp h
  have hchars : path.toList = path'.toList :=
    calc path.toList = ['.'].intercalate (path.toList.splitOn '.') :=
      (List.intercalate_splitOn '.').symm
      _ = ['.'].intercalate (path'.toList.splitOn '.') := by rw [hsplit]
      _ = path'.toList := List.intercalate_splitOn '.'
  exact String.toList_injective hchars

/-! ## Groups -/

/-- The name in front is looked at first. -/
theorem lookup_cons_eq_ite {α : Type} (name key : String) (a : α) (entries : List (String × α)) :
    ((key, a) :: entries).lookup name = if name = key then some a else entries.lookup name := by
  rw [List.lookup_cons]
  by_cases h : name = key
  · rw [if_pos h, beq_iff_eq.mpr h]
  · rw [if_neg h, beq_false_of_ne h]

namespace Entry

/-- What is put under a name is found there. -/
@[simp] theorem lookup_put_self (name : String) (e : Entry) (entries : List (String × Entry)) :
    (put name e entries).lookup name = some e := by
  simp [put]

/-- Other names hold what they held. -/
theorem lookup_put_of_ne {name name' : String} (h : name' ≠ name) (e : Entry)
    (entries : List (String × Entry)) :
    (put name e entries).lookup name' = entries.lookup name' := by
  have hfilter : (entries.filter (·.1 ≠ name)).lookup name' = entries.lookup name' := by
    induction entries with
    | nil => rfl
    | cons entry entries ih =>
      obtain ⟨key, held⟩ := entry
      by_cases hkey : key = name
      · subst hkey
        rw [List.filter_cons_of_neg (by simp), ih, lookup_cons_eq_ite, if_neg h]
      · rw [List.filter_cons_of_pos (by simpa using hkey), lookup_cons_eq_ite,
          lookup_cons_eq_ite, ih]
  rw [put, lookup_cons_eq_ite, if_neg h, hfilter]

/-- A name that was made to hold a group holds it. -/
@[simp] theorem groupAt_put_self (name : String) (inner entries : List (String × Entry)) :
    groupAt name (put name (group inner) entries) = inner := by
  simp [groupAt]

/-- A path of several segments is written in the group that the first one holds. -/
theorem insert_cons_cons (v : Value) (name next : String) (path : List String)
    (entries : List (String × Entry)) :
    insert v (name :: next :: path) entries =
      put name (group (insert v (next :: path) (groupAt name entries))) entries := rfl

/-- A path of several segments is looked up in the group that the first one holds. -/
theorem get?_cons_cons (name next : String) (path : List String) (entries : List (String × Entry)) :
    get? (name :: next :: path) entries = get? (next :: path) (groupAt name entries) := by
  have hnone : get? (next :: path) [] = none := by cases path <;> rfl
  simp only [get?, groupAt]
  cases entries.lookup name with
  | none => exact hnone.symm
  | some e =>
    cases e with
    | value v => exact hnone.symm
    | group inner => rfl

/-- A path that begins with another name holds what it held. -/
theorem get?_put_of_ne {name name' : String} (h : name' ≠ name) (e : Entry) (path : List String)
    (entries : List (String × Entry)) :
    get? (name' :: path) (put name e entries) = get? (name' :: path) entries := by
  cases path with
  | nil => simp only [get?, lookup_put_of_ne h]
  | cons next path => simp only [get?, lookup_put_of_ne h]

/-- **What one write does to every path.** The path that is written holds the value, the paths that
it leads through and those that lead through it hold nothing, and all others hold what they held.

**Proof sketch.** By induction on the path that is written. A path that begins with another name is
left alone; one that begins with the same name goes on in the group that this name holds after the
write. -/
theorem get?_insert (v : Value) {path : List String} (hpath : path ≠ []) (path' : List String)
    (entries : List (String × Entry)) :
    get? path' (insert v path entries) =
      if path = path' then some v else if Aligned path path' then none else get? path' entries := by
  induction path generalizing path' entries with
  | nil => exact absurd rfl hpath
  | cons name path ih =>
    cases path' with
    | nil => simp [get?]
    | cons name' path' =>
      by_cases hname : name' = name
      · subst hname
        simp only [List.cons.injEq, true_and, aligned_cons_cons]
        cases path with
        | nil =>
          cases path' with
          | nil => simp [insert, get?]
          | cons next path' => simp [insert, get?, Aligned]
        | cons next path =>
          cases path' with
          | nil => simp [insert, get?]
          | cons next' path' =>
            rw [insert_cons_cons, get?_cons_cons, get?_cons_cons, groupAt_put_self]
            exact ih (List.cons_ne_nil _ _) _ _
      · have hwritten : ∃ e, insert v (name :: path) entries = put name e entries := by
          cases path with
          | nil => exact ⟨_, rfl⟩
          | cons next path => exact ⟨_, rfl⟩
        obtain ⟨e, he⟩ := hwritten
        rw [he, get?_put_of_ne hname, if_neg, if_neg]
        · exact fun h => hname (aligned_cons_cons.mp h).1.symm
        · exact fun h => hname (List.cons.inj h).1.symm

/-- A write leaves something. -/
theorem insert_ne_nil (v : Value) {path : List String} (hpath : path ≠ [])
    (entries : List (String × Entry)) : insert v path entries ≠ [] := by
  match path, hpath with
  | [_], _ => exact List.cons_ne_nil _ _
  | _ :: _ :: _, _ => exact List.cons_ne_nil _ _

end Entry

namespace Context

/-! ## Writes -/

/-- What one write to a dotted path does to every path. -/
theorem get?_insert (ctx : Context) (path : String) (v : Value) (path' : String) :
    (ctx.insert path v).get? path' =
      if path = path' then some v else if Related path path' then none else ctx.get? path' := by
  have hsegments : segments path = segments path' ↔ path = path' :=
    ⟨segments_injective, congrArg segments⟩
  simp only [← hsegments]
  exact Entry.get?_insert v (segments_ne_nil path) (segments path') ctx.entries

/-- The last write of a list comes after the others. -/
theorem ofList_concat (writes : List (String × Value)) (path : String) (v : Value) :
    ofList (writes ++ [(path, v)]) = (ofList writes).insert path v := by
  simp [ofList]

/-- Nothing is found in an empty context. -/
@[simp] theorem get?_empty (path : String) : empty.get? path = none := by
  rw [get?, empty]
  match segments path with
  | [] => rfl
  | [_] => rfl
  | _ :: _ :: _ => rfl

/-- **What a path holds after a list of writes**: the value of the last write to a related path, if
this write was to the path itself.

**Proof sketch.** By induction on the writes, the last one taken off. If it is related to the path
it decides, and otherwise it changes nothing there. -/
theorem get?_ofList (writes : List (String × Value)) (path : String) :
    (ofList writes).get? path =
      match (writes.filter fun w => Related w.1 path).getLast? with
      | some (path', v) => if path' = path then some v else none
      | none => none := by
  induction writes using List.reverseRecOn with
  | nil => exact get?_empty path
  | append_singleton writes w ih =>
    obtain ⟨path', v⟩ := w
    rw [ofList_concat, get?_insert, List.filter_append]
    by_cases hrelated : Related path' path
    · simp [hrelated]
    · have hne : path' ≠ path := by
        rintro rfl
        exact hrelated (Related.refl path')
      simp [hrelated, hne, ih]

/-- A path holds a value exactly when the last write to a related path was of this value to the
path. -/
theorem get?_ofList_eq_some_iff {writes : List (String × Value)} {path : String} {v : Value} :
    (ofList writes).get? path = some v ↔
      (writes.filter fun w => Related w.1 path).getLast? = some (path, v) := by
  rw [get?_ofList]
  cases (writes.filter fun w => Related w.1 path).getLast? with
  | none => simp
  | some w =>
    obtain ⟨path', v'⟩ := w
    by_cases h : path' = path <;> simp [h]

/-- Where no two writes are to different related paths or of different values to one path, a path
holds the value that was written to it. -/
theorem get?_ofList_eq_some_iff_mem {writes : List (String × Value)}
    (h : ∀ w ∈ writes, ∀ w' ∈ writes, Related w.1 w'.1 → w = w') {path : String} {v : Value} :
    (ofList writes).get? path = some v ↔ (path, v) ∈ writes := by
  rw [get?_ofList_eq_some_iff]
  constructor
  · intro hlast
    exact (List.mem_filter.mp (List.mem_of_getLast? hlast)).1
  · intro hmem
    have hfilter : (path, v) ∈ writes.filter fun w => Related w.1 path := by
      simpa using ⟨hmem, Related.refl path⟩
    -- every write that is related to the path is this one
    obtain ⟨w, hw⟩ := Option.isSome_iff_exists.mp
      (List.getLast?_isSome.mpr (List.ne_nil_of_mem hfilter))
    have hlast := List.mem_filter.mp (List.mem_of_getLast? hw)
    rw [hw, h w hlast.1 (path, v) hmem (by simpa using hlast.2)]

/-- The values at unrelated paths depend only on what was written, in whatever order and however
often. -/
theorem get?_eq_of_unrelated {writes writes' : List (String × Value)}
    (h : ∀ w ∈ writes, ∀ w' ∈ writes, Related w.1 w'.1 → w = w')
    (hsame : ∀ w, w ∈ writes ↔ w ∈ writes') (path : String) :
    (ofList writes).get? path = (ofList writes').get? path := by
  have h' : ∀ w ∈ writes', ∀ w' ∈ writes', Related w.1 w'.1 → w = w' :=
    fun w hw w' hw' => h w ((hsame w).mpr hw) w' ((hsame w').mpr hw')
  apply Option.ext
  intro v
  rw [get?_ofList_eq_some_iff_mem h, get?_ofList_eq_some_iff_mem h', hsame]

/-- Only the context without writes is empty. -/
theorem isEmpty_ofList {writes : List (String × Value)} :
    (ofList writes).isEmpty = true ↔ writes = [] := by
  induction writes using List.reverseRecOn with
  | nil => simp [ofList, empty, isEmpty]
  | append_singleton writes w _ =>
    rw [ofList_concat]
    simp [isEmpty, insert, insertAt, Entry.insert_ne_nil _ (segments_ne_nil w.1)]

/-- **The last related write decides.** After any list of writes a path holds a value exactly when
some write was to a related path and the last of these was of this value to the path itself, and
otherwise it holds nothing. So writes to pairwise unrelated paths give the same values in any order,
and only the context without writes is empty.

**Proof sketch.** Reading after one write is known for every path (`get?_insert`), and by induction
on the writes, the last one taken off, the last related one decides. Among writes that are pairwise
unrelated at most one is related to a path that holds a value. -/
theorem last_related_write_decides (writes : List (String × Value)) :
    (∀ path v, (ofList writes).get? path = some v ↔
      (writes.filter fun w => Related w.1 path).getLast? = some (path, v)) ∧
    (∀ path, (∀ v, (writes.filter fun w => Related w.1 path).getLast? ≠ some (path, v)) →
      (ofList writes).get? path = none) ∧
    (∀ writes', writes.Pairwise (fun w w' => ¬ Related w.1 w'.1) → writes.Perm writes' →
      ∀ path, (ofList writes).get? path = (ofList writes').get? path) ∧
    ((ofList writes).isEmpty = true ↔ writes = []) := by
  refine ⟨fun path v => get?_ofList_eq_some_iff, fun path hnone => ?_, fun writes' h hperm => ?_,
    isEmpty_ofList⟩
  · apply Option.eq_none_iff_forall_ne_some.mpr
    intro v hv
    exact hnone v (get?_ofList_eq_some_iff.mp hv)
  · have : Std.Symm fun w w' : String × Value => ¬ Related w.1 w'.1 := ⟨fun _ _ h h' => h h'.symm⟩
    refine get?_eq_of_unrelated (fun w hw w' hw' hrelated => ?_) fun w => hperm.mem_iff
    by_contra hne
    exact h.forall hw hw' hne hrelated

/-- Three unrelated paths, one with an empty segment, written in two orders; the path to two of them
holds nothing. -/
theorem last_related_write_decides_reordered :
    let writes := [("a.b", Value.bool true), ("a..b", .text "x"), ("c", .bool false)]
    let writes' := [("c", Value.bool false), ("a.b", .bool true), ("a..b", .text "x")]
    (∀ path, (ofList writes).get? path = (ofList writes').get? path) ∧
      (ofList writes').get? "a.b" = some (.bool true) ∧ (ofList writes).get? "a" = none := by
  intro writes writes'
  obtain ⟨-, hnone, hperm, -⟩ := last_related_write_decides writes
  have hsame := hperm writes' (by decide +kernel) (by decide +kernel)
  have hlast : (writes.filter fun w => Related w.1 "a").getLast? = some ("a..b", .text "x") := by
    decide +kernel
  refine ⟨hsame, ?_, hnone "a" fun v => by rw [hlast]; simp⟩
  exact ((last_related_write_decides writes').1 "a.b" (.bool true)).mpr (by decide +kernel)

end Context

end Eligibility
