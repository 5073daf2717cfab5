import Eligibility.Json.Read

/-!
# Records in JSON

A record with named fields is written as an object, or as the array of its fields in order. In an
object other members are passed over, and a field may stand once. In an array, fields at the end
that have a default may be left out. A name is a string, or the key of an object with one member
that says nothing.

## Main definitions

* `Json.Record` — the two ways to write a record; `Json.record?` — a document as a record.
* `Json.Record.fields?` — the fields with given names.
* `Json.name?`, `Json.natural?`, `Json.double?` — documents as the values of fields.
-/

set_option relaxedAutoImplicit false
set_option autoImplicit false

namespace Eligibility

namespace Json

/-- The parts of a record: members by name, or items in the order of its fields. -/
inductive Record (α : Type) where
  | members (ms : List (String × α))
  | items (xs : List α)

namespace Record

variable {α : Type}

/-- The member with the given name, if there is one; no answer if there are several. -/
def member? (name : String) (ms : List (String × α)) : Option (Option α) :=
  match ms.filter (·.1 = name) with
  | [] => some none
  | [(_, v)] => some (some v)
  | _ => none

/-- The fields with the given names in their order, where an array must hold the first `required` of
them. -/
def fields? (names : List String) (required : Nat) : Record α → Option (List (Option α))
  | members ms => names.mapM (member? · ms)
  | items xs =>
    if required ≤ xs.length ∧ xs.length ≤ names.length then
      some (xs.map some ++ List.replicate (names.length - xs.length) none)
    else none

end Record

/-- A document as a record. -/
def record? : Json → Option (Record Json)
  | object members => some (.members members)
  | array items => some (.items items)
  | _ => none

/-- Whether a document says nothing: `null`, and with `emptyToo` also an object without members. -/
def saysNothing (emptyToo : Bool) : Json → Bool
  | null => true
  | object [] => emptyToo
  | _ => false

/-- A document as one of a list of names: a string, or an object from it to one that says
nothing. -/
def name? (emptyToo : Bool) : Json → Option String
  | string s => some s
  | object [(s, v)] => if v.saysNothing emptyToo then some s else none
  | _ => none

/-- A natural number as a document. -/
def ofNat (n : Nat) : Json := integer n

/-- A document as a natural number of at most 64 bits. -/
def natural? : Json → Option Nat
  | integer i => if 0 ≤ i then some i.toNat else none
  | _ => none

/-- A natural number is read back from its document. -/
@[simp]
theorem natural?_ofNat (n : Nat) : (ofNat n).natural? = some n := by
  simp [ofNat, natural?]

/-- A document as a double-precision number, integers rounded to the nearest. -/
def double? : Json → Option Binary64
  | integer i => some (.ofInt i)
  | number x => some x
  | _ => none

end Json

end Eligibility
