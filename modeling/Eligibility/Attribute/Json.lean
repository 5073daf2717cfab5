import Eligibility.Attribute.Context

/-!
# Attribute data in JSON

A JSON object gives attributes: its scalars are values, and a value stands at the path of all keys
above it. Keys may hold dots themselves, so `user.age` in one key and `age` inside `user` are the
same path. Where they meet, the last one in the order of a walk through the document stays.

## Main definitions

* `ContextError` — why a text is no attribute data.
* `Json.writeBelow` — writes the values of a document below a path.
* `Context.ofJsonText` — the attributes that a JSON text gives.

## Implementation notes

Of members with the same key the last counts, and members are walked by increasing key. Nulls,
arrays and empty objects give no attribute.
-/

set_option relaxedAutoImplicit false
set_option autoImplicit false

namespace Eligibility

/-- Why a text is no attribute data. -/
inductive ContextError where
  /-- The text is not JSON. -/
  | malformed
  /-- The document is something else than an object. -/
  | notAnObject (found : String)
deriving DecidableEq

/-- The wording of the error; a malformed text has none of its own. -/
def ContextError.message? : ContextError → Option String
  | malformed => none
  | notAnObject found => some ("data must be a JSON object, got " ++ found)

namespace Json

/-- What kind of document this is, in words. -/
def kind : Json → String
  | null => "null"
  | bool _ => "a boolean"
  | integer _ => "a number"
  | number _ => "a number"
  | string _ => "a string"
  | array _ => "an array"
  | object _ => "an object"
  | unusable => "null"

/-- Adds a member to a list with increasing keys, in place of the one with the same key. -/
def insertMember {α : Type} (key : String) (v : α) : List (String × α) → List (String × α)
  | [] => [(key, v)]
  | (key', v') :: ms =>
    if key < key' then (key, v) :: (key', v') :: ms
    else if key = key' then (key, v) :: ms
    else (key', v') :: insertMember key v ms

/-- The last member with each key, by increasing key. -/
def sortMembers {α : Type} (ms : List (String × α)) : List (String × α) :=
  ms.foldl (fun sorted (key, v) => insertMember key v sorted) []

mutual

/-- The attributes after the values of a document are written below a path, in the order of a
walk. -/
def writeBelow : Json → List String → Context → Context
  | bool b, path, ctx => ctx.insertAt path (.bool b)
  | integer i, path, ctx => ctx.insertAt path (.number (.ofInt i))
  | number x, path, ctx => ctx.insertAt path (.number x)
  | string s, path, ctx => ctx.insertAt path (.text s)
  | object members, path, ctx =>
    (sortMembers (memberWrites members)).foldl
      (fun ctx (key, write) => write (path ++ segments key) ctx) ctx
  | _, _, ctx => ctx

/-- How the values of each member are written. -/
def memberWrites : List (String × Json) → List (String × (List String → Context → Context))
  | [] => []
  | (key, v) :: ms => (key, v.writeBelow) :: memberWrites ms

end

end Json

namespace Context

/-- The attributes that a sound document gives. -/
def ofJson : Json → Except ContextError Context
  | .object members => .ok ((Json.object members).writeBelow [] empty)
  | v => .error (.notAnObject v.kind)

/-- The attributes that a JSON text gives. -/
def ofJsonText (text : String) : Except ContextError Context :=
  match Json.parse? text with
  | some document => if document.isSound then ofJson document else .error .malformed
  | none => .error .malformed

end Context

end Eligibility
