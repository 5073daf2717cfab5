import Eligibility.Attribute.Value

/-!
# Attribute data

Rules are evaluated against attributes at dotted paths such as `user.profile.age`. The segments of a
path lead through groups to a value, and a name in a group holds either a value or a group, never
both: writing a path replaces what stood in its way.

## Main definitions

* `Context` — the attributes; `Context.insert`, `Context.get?` — write and read a path.
* `segments` — the segments of a path.
-/

set_option relaxedAutoImplicit false
set_option autoImplicit false

namespace Eligibility

/-- The segments of a dotted path, of which there is always one. -/
def segments (path : String) : List String :=
  (path.toList.splitOn '.').map String.ofList

/-- What a name in a group of attributes holds. -/
inductive Entry where
  | value (v : Value)
  | group (entries : List (String × Entry))

namespace Entry

/-- Makes a name hold an entry in place of whatever it held. -/
def put (name : String) (e : Entry) (entries : List (String × Entry)) : List (String × Entry) :=
  (name, e) :: entries.filter (·.1 ≠ name)

/-- The group that a name holds, empty if it holds none. -/
def groupAt (name : String) (entries : List (String × Entry)) : List (String × Entry) :=
  match entries.lookup name with
  | some (group inner) => inner
  | _ => []

/-- The group after a value is written at a path. -/
def insert (v : Value) : List String → List (String × Entry) → List (String × Entry)
  | [], entries => entries
  | [name], entries => put name (value v) entries
  | name :: path, entries => put name (group (insert v path (groupAt name entries))) entries

/-- The value at a path. -/
def get? : List String → List (String × Entry) → Option Value
  | [], _ => none
  | [name], entries =>
    match entries.lookup name with
    | some (value v) => some v
    | _ => none
  | name :: path, entries =>
    match entries.lookup name with
    | some (group inner) => get? path inner
    | _ => none

end Entry

/-- Attributes by path. -/
structure Context where
  entries : List (String × Entry)

namespace Context

/-- No attributes. -/
def empty : Context := ⟨[]⟩

/-- Whether there are no attributes. -/
def isEmpty (ctx : Context) : Bool := ctx.entries.isEmpty

/-- The attributes after a value is written at the path with the given segments. -/
def insertAt (ctx : Context) (path : List String) (v : Value) : Context :=
  ⟨Entry.insert v path ctx.entries⟩

/-- The attributes after a value is written at a dotted path. -/
def insert (ctx : Context) (path : String) (v : Value) : Context :=
  ctx.insertAt (segments path) v

/-- The value at a dotted path. A path to a group has none. -/
def get? (ctx : Context) (path : String) : Option Value :=
  Entry.get? (segments path) ctx.entries

/-- The attributes that a list of writes leaves, the first one first. -/
def ofList (writes : List (String × Value)) : Context :=
  writes.foldl (fun ctx (path, v) => ctx.insert path v) empty

end Context

end Eligibility
