import Eligibility.Formula.Json
import Eligibility.Proofs.JsonDocument

/-!
# Formulas in JSON read back

Every level of a formula is one object inside the one above it, so the document of a formula nests
as many containers as the formula has levels. What is read of it stands for the formula again as
long as there is room for all of them and all numbers are finite, and otherwise for no formula at
all.

## Main definitions

* `Literal.isFinite`, `Formula.isFinite` — whether all numbers are finite.

## Main results

* `Formula.isSound_received` — a document with room for a formula has a value in every part.
* `Formula.ofJson?_received` — the formula that is read of its own document.
* `Formula.ofJson?_own_text` — the formula that is read of its own text.
-/

set_option relaxedAutoImplicit false
set_option autoImplicit false

namespace Eligibility

/-- Whether a literal is text or a finite number. -/
def Literal.isFinite : Literal → Bool
  | number x => x.isFinite
  | text _ => true

/-- What is read of a literal is the literal, unless it is a number that is not finite. -/
theorem Literal.ofJson?_received (l : Literal) (room : Nat) :
    ofJson? (l.toJson.received room) = if l.isFinite then some l else none := by
  cases l with
  | number x =>
    rw [toJson, Json.received, isFinite]
    cases x.isFinite <;> rfl
  | text s => rfl

/-- What is read of a literal always has a value. -/
theorem Literal.isSound_received (l : Literal) (room : Nat) :
    (l.toJson.received room).isSound = true := by
  cases l with
  | number x =>
    rw [toJson, Json.received]
    cases x.isFinite <;> rfl
  | text s => rfl

namespace Formula

/-- Whether all numbers of a formula are finite. -/
def isFinite (f : Formula) : Bool := f.conditions.all (·.literal.isFinite)

/-- A joined formula holds only finite numbers if both sides do. -/
theorem isFinite_join (op : Connective) (left right : Formula) :
    (join op left right).isFinite = (left.isFinite && right.isFinite) :=
  List.all_append

/-- Every formula has at least one level. -/
theorem depth_pos (f : Formula) : 0 < f.depth := by
  cases f with
  | condition c => exact Nat.one_pos
  | join op left right => exact Nat.succ_pos _

/-! ## Documents -/

/-- The integers of the document of a formula have at most 64 bits: there are none. -/
theorem integersFit_toJson (f : Formula) : f.toJson.IntegersFit := by
  induction f with
  | condition c =>
    obtain ⟨path, comparator, literal⟩ := c
    cases literal <;>
      simp [toJson, Condition.members, Literal.toJson, Json.IntegersFit, Json.MembersFit]
  | join op left right ihl ihr => simp [toJson, Json.IntegersFit, Json.MembersFit, ihl, ihr]

/-- **A document has a value in every part when there is room for the formula.**

**Proof sketch.** By induction on the formula. Each level of it takes one level of room, and a join
needs as much as the deeper of its sides. -/
theorem isSound_received (f : Formula) (room : Nat) :
    (f.toJson.received room).isSound = decide (f.depth ≤ room) := by
  induction f generalizing room with
  | condition c =>
    cases room with
    | zero => rfl
    | succ room =>
      have hliteral := c.literal.isSound_received room
      simp [toJson, Condition.members, Json.received, Json.membersReceived, Json.isSound,
        Json.membersSound, hliteral, depth]
  | join op left right ihl ihr =>
    cases room with
    | zero => rfl
    | succ room =>
      have hdepth : (join op left right).depth ≤ room + 1 ↔
          left.depth ≤ room ∧ right.depth ≤ room := by
        rw [depth, Nat.succ_le_succ_iff, Nat.max_le]
      simp [toJson, Json.received, Json.membersReceived, Json.isSound, Json.membersSound, ihl, ihr,
        hdepth]

/-- The condition that a record of the type `condition` stands for. -/
theorem ofRecord?_condition (operand : Bool) (type : Option Formula)
    (path comparator literal : Part) :
    ofRecord? operand (.members [("type", .string "condition", type), ("attribute", path),
      ("comparator", comparator), ("literal", literal)]) =
      (Condition.ofFields? true [some path.1, some comparator.1, some literal.1]).bind fun c =>
        some (condition c) := by
  simp [ofRecord?, kind?, Kind.ofJson?, Json.Record.fields?, Json.Record.member?]

/-- The join that a record of the type `operator` stands for. -/
theorem ofRecord?_operator (operand : Bool) (type : Option Formula) (op left right : Part) :
    ofRecord? operand (.members [("type", .string "operator", type), ("op", op), ("left", left),
      ("right", right)]) =
      left.2.bind fun l => right.2.bind fun r =>
        (op.1.name? true).bind fun keyword => (Connective.ofKeyword? keyword).bind fun op =>
          some (join op l r) := by
  obtain ⟨left, l⟩ := left
  obtain ⟨right, r⟩ := right
  cases l <;> cases r <;>
    simp [ofRecord?, kind?, Kind.ofJson?, Json.Record.fields?, Json.Record.member?]

/-- A document with room for a formula stands for it, unless a number is not finite.

**Proof sketch.** By induction on the formula. The sides of a join have one level of room less, and
as many levels less at least. -/
theorem ofSound?_received (f : Formula) {room : Nat} (hroom : f.depth ≤ room) (operand : Bool) :
    ofSound? operand (f.toJson.received room) = if f.isFinite then some f else none := by
  induction f generalizing room operand with
  | condition c =>
    obtain ⟨room, rfl⟩ := Nat.exists_eq_succ_of_ne_zero (Nat.ne_of_gt hroom)
    obtain ⟨path, comparator, literal⟩ := c
    have hliteral := literal.ofJson?_received room
    have hfinite : (condition ⟨path, comparator, literal⟩).isFinite = literal.isFinite := by
      simp [isFinite, conditions]
    have hcomparator : Comparator.ofJson? true (.string comparator.symbol) = some comparator :=
      comparator.ofSymbol?_symbol
    rw [hfinite]
    simp only [toJson, Condition.members, Json.received, Json.membersReceived, ofSound?, ofMembers,
      ofRecord?_condition, Condition.ofFields?, hcomparator, hliteral]
    cases literal.isFinite <;> rfl
  | join op left right ihl ihr =>
    obtain ⟨room, rfl⟩ := Nat.exists_eq_succ_of_ne_zero (Nat.ne_of_gt (Nat.lt_of_lt_of_le
      (depth_pos _) hroom))
    rw [depth, Nat.succ_le_succ_iff, Nat.max_le] at hroom
    have hname : (Json.string op.keyword).name? true = some op.keyword := rfl
    rw [isFinite_join]
    simp only [toJson, Json.received, Json.membersReceived, ofSound?, ofMembers, ofRecord?_operator,
      ihl hroom.1, ihr hroom.2, hname]
    cases left.isFinite <;> cases right.isFinite <;> simp [Connective.ofKeyword?_keyword]

/-- **The formula that is read of its own document**: itself, when all its numbers are finite and
there is room for its levels, and otherwise none. -/
theorem ofJson?_received (f : Formula) (room : Nat) :
    ofJson? (f.toJson.received room) = if f.isFinite ∧ f.depth ≤ room then some f else none := by
  rw [ofJson?, isSound_received]
  by_cases hroom : f.depth ≤ room
  · simp only [hroom, decide_true, if_true, and_true, f.ofSound?_received hroom]
  · simp only [hroom, decide_false, Bool.false_eq_true, if_false, and_false]

/-- **A formula is read back from its own text** when all its numbers are finite and it has no more
than 127 levels, and otherwise no formula is read.

**Proof sketch.** The text of a document parses to the document as it is received, where numbers
that are not finite and containers without room have gone. A formula is found in it unless one of
these was in it. -/
theorem ofJson?_own_text (f : Formula) :
    (Json.parse? f.toJson.text).bind ofJson? =
      if f.isFinite ∧ f.depth ≤ 127 then some f else none := by
  rw [Json.parse?_text f.integersFit_toJson, Option.bind_some]
  exact f.ofJson?_received Json.maxDepth

end Formula

end Eligibility
