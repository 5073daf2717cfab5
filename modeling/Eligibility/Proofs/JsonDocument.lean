import Eligibility.Json.Read
import Eligibility.Proofs.JsonText

/-!
# A JSON document reads back

The lexemes of a document build the document again, but for the parts that its text does not hold: a
number that is not finite is read as `null`, and a container inside too many others is not usable.

## Main definitions

* `Json.received` — what is read of a document where so many containers may be nested.

## Main results

* `Json.Builder.foldlM_lexemes` — the lexemes of a document deliver what is received of it.
* `Json.parse?_text` — what is read of the text of a document.
-/

set_option relaxedAutoImplicit false
set_option autoImplicit false

namespace Eligibility

namespace Json

mutual

/-- What is read of a document where no more than `room` containers may be nested. -/
def received : Json → (room : Nat) → Json
  | null, _ => null
  | bool b, _ => bool b
  | integer i, _ => integer i
  | number x, _ => if x.isFinite then number x else null
  | string s, _ => string s
  | array _, 0 => unusable
  | array items, room + 1 => array (itemsReceived items room)
  | object _, 0 => unusable
  | object members, room + 1 => object (membersReceived members room)
  | unusable, _ => null

/-- What is read of each item. -/
def itemsReceived : List Json → (room : Nat) → List Json
  | [], _ => []
  | v :: vs, room => v.received room :: itemsReceived vs room

/-- What is read of the value of each member. -/
def membersReceived : List (String × Json) → (room : Nat) → List (String × Json)
  | [], _ => []
  | (key, v) :: ms, room => (key, v.received room) :: membersReceived ms room

end

namespace Builder

/-- A lexeme that fits is followed by the others. -/
theorem foldlM_of_step {b b' : Builder} {l : Lexeme} (h : step b l = some b') (ls : List Lexeme) :
    (l :: ls).foldlM step b = ls.foldlM step b' := by
  rw [List.foldlM_cons, h]
  rfl

/-- The lexemes of a document deliver what is received of it, wherever a value may stand. -/
def Delivers (v : Json) : Prop :=
  ∀ first frames rest, (v.lexemes ++ rest).foldlM step (.open (.value first) frames) =
    rest.foldlM step (deliver (v.received (maxDepth - frames.length)) frames)

/-- The items of an array are gathered, the last first.

**Proof sketch.** By induction on the items. What an item delivers goes in front of those before it,
and the comma behind it lets the next one begin. -/
theorem foldlM_itemsLexemes {vs : List Json} (h : ∀ v ∈ vs, Delivers v) (hne : vs ≠ [])
    (first : Bool) (items : List Json) (frames : List Frame) (rest : List Lexeme) :
    (itemsLexemes vs ++ rest).foldlM step (.open (.value first) (.array items :: frames)) =
      rest.foldlM step (.open .separator
        (.array ((itemsReceived vs (maxDepth - (frames.length + 1))).reverse ++ items) ::
          frames)) := by
  induction vs generalizing first items with
  | nil => exact absurd rfl hne
  | cons v vs ih =>
    have hv := h v List.mem_cons_self first (.array items :: frames)
    cases vs with
    | nil => exact hv rest
    | cons w vs =>
      have htail := ih (fun a ha => h a (List.mem_cons_of_mem v ha)) (List.cons_ne_nil w vs) false
        (v.received (maxDepth - (frames.length + 1)) :: items)
      rw [itemsLexemes_cons_cons, List.append_assoc, hv, List.cons_append]
      refine (foldlM_of_step rfl _).trans (htail.trans ?_)
      simp [itemsReceived]

/-- The members of an object are gathered, the last first.

**Proof sketch.** By induction on the members. The frame remembers the key while the value is read,
and its value goes in front of the members before it. -/
theorem foldlM_membersLexemes {ms : List (String × Json)} (h : ∀ m ∈ ms, Delivers m.2)
    (hne : ms ≠ []) (first : Bool) (members : List (String × Json)) (key : String)
    (frames : List Frame) (rest : List Lexeme) :
    ∃ last, (membersLexemes ms ++ rest).foldlM step
        (.open (.key first) (.object members true key :: frames)) =
      rest.foldlM step (.open .separator
        (.object ((membersReceived ms (maxDepth - (frames.length + 1))).reverse ++ members)
          true last ::
          frames)) := by
  induction ms generalizing first members key with
  | nil => exact absurd rfl hne
  | cons m ms ih =>
    obtain ⟨name, v⟩ := m
    have hv := h (name, v) List.mem_cons_self false (.object members true name :: frames)
    cases ms with
    | nil =>
      refine ⟨name, ?_⟩
      rw [membersLexemes, List.cons_append, List.cons_append]
      exact (foldlM_of_step rfl _).trans ((foldlM_of_step rfl _).trans (hv rest))
    | cons m ms =>
      obtain ⟨last, htail⟩ := ih (fun a ha => h a (List.mem_cons_of_mem (name, v) ha))
        (List.cons_ne_nil m ms) false
        ((name, v.received (maxDepth - (frames.length + 1))) :: members) name
      refine ⟨last, ?_⟩
      rw [membersLexemes_cons_cons, List.cons_append, List.cons_append, List.append_assoc]
      refine (foldlM_of_step rfl _).trans ((foldlM_of_step rfl _).trans ((hv _).trans ?_))
      refine (foldlM_of_step rfl _).trans (htail.trans ?_)
      simp [membersReceived]

/-- Closing a container delivers it where it has room, and marks it where it has none. -/
theorem close_eq (container : Nat → Json) (frames : List Frame) :
    close (container (maxDepth - (frames.length + 1))) true frames =
      deliver (match maxDepth - frames.length with
        | 0 => .unusable
        | room + 1 => container room) frames := by
  unfold close
  split
  · rename_i hroom
    have hlt : frames.length < maxDepth := by simpa using hroom
    obtain ⟨room, hroom⟩ : ∃ room, maxDepth - frames.length = room + 1 :=
      ⟨maxDepth - (frames.length + 1), by omega⟩
    have hinner : maxDepth - (frames.length + 1) = room := by omega
    rw [hroom, hinner]
  · rename_i hroom
    have hfull : maxDepth - frames.length = 0 := by
      simp only [Bool.and_true, decide_eq_true_eq] at hroom
      omega
    rw [hfull]

/-- **The lexemes of a document deliver what is received of it.**

**Proof sketch.** By induction on the document. A scalar is one step. A container opens a frame and
gathers its parts in it; its closing bracket delivers it, which is where the room for it is looked
at. -/
theorem foldlM_lexemes (v : Json) : Delivers v := by
  induction v using Json.induction with
  | null =>
    intro first frames rest
    exact foldlM_of_step rfl rest
  | bool b =>
    intro first frames rest
    exact foldlM_of_step rfl rest
  | integer i =>
    intro first frames rest
    exact foldlM_of_step rfl rest
  | number x =>
    intro first frames rest
    rw [lexemes, received]
    exact foldlM_of_step rfl rest
  | string s =>
    intro first frames rest
    exact foldlM_of_step rfl rest
  | array items ih =>
    intro first frames rest
    have hreceived : (array items).received (maxDepth - frames.length) =
        match maxDepth - frames.length with
        | 0 => unusable
        | room + 1 => array (itemsReceived items room) := by
      cases maxDepth - frames.length <;> rfl
    rw [hreceived, ← close_eq fun room => array (itemsReceived items room), lexemes,
      List.cons_append, List.append_assoc]
    refine (foldlM_of_step rfl _).trans ?_
    -- an empty array is closed where it begins, any other behind an item
    cases items with
    | nil => exact foldlM_of_step rfl rest
    | cons v vs =>
      refine (foldlM_itemsLexemes ih (List.cons_ne_nil v vs) true [] frames _).trans ?_
      refine foldlM_of_step ?_ rest
      simp only [step, List.append_nil, List.reverse_reverse]
  | object members ih =>
    intro first frames rest
    have hreceived : (object members).received (maxDepth - frames.length) =
        match maxDepth - frames.length with
        | 0 => unusable
        | room + 1 => object (membersReceived members room) := by
      cases maxDepth - frames.length <;> rfl
    rw [hreceived, ← close_eq fun room => object (membersReceived members room), lexemes,
      List.cons_append, List.append_assoc]
    refine (foldlM_of_step rfl _).trans ?_
    cases members with
    | nil => exact foldlM_of_step rfl rest
    | cons m ms =>
      obtain ⟨last, hmembers⟩ := foldlM_membersLexemes ih (List.cons_ne_nil m ms) true [] "" frames
        ([.closeBrace] ++ rest)
      refine hmembers.trans (foldlM_of_step ?_ rest)
      simp only [step, List.append_nil, List.reverse_reverse]
  | unusable =>
    intro first frames rest
    exact foldlM_of_step rfl rest

end Builder

/-- **What is read of the text of a document.** -/
theorem parse?_text {v : Json} (h : v.IntegersFit) :
    parse? v.text = some (v.received maxDepth) := by
  have hdelivers := Builder.foldlM_lexemes v false [] []
  rw [List.append_nil] at hdelivers
  have hbuilt : v.lexemes.foldlM Builder.step (.open (.value false) []) =
      some (.done (v.received maxDepth)) := hdelivers
  simp only [parse?, readAll?_text h, ofLexemes?, hbuilt, Option.bind_eq_bind, Option.bind_some]

end Json

end Eligibility
