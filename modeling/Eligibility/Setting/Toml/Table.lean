import Eligibility.Setting.Toml.Scalar

/-!
# Tables in TOML

A document is a table, and a table holds values and tables by key. Pairs and headers make tables
grow, and no key gets two values.

## Main definitions

* `Toml.Node`, `Toml.Entries` — what a key holds, and the entries of a table.
* `Toml.define?` — a table after a pair.
* `Toml.openTable?`, `Toml.extendTables?` — a document after a header.
* `Toml.Node.setting?` — what a node says as a setting.

## Implementation notes

A table can come into being in four ways that differ in how it can grow: as the path to a header
(`[a.b]` for `a`), as a header of its own, as the path of a dotted key, and in braces. The first
becomes the second when its own header comes. A dotted key leads through tables of the first and
third kind and through the last one of a list of tables, but the value must come to stand in one of
the third. Headers lead through all but those in braces.
-/

set_option relaxedAutoImplicit false
set_option autoImplicit false

namespace Eligibility

namespace Toml

/-- How a table came into being. -/
inductive Origin where
  | pathOfHeader
  | header
  | dottedKey
  | braces
deriving DecidableEq

/-- What a key holds. -/
inductive Node where
  /-- A string in quotes. -/
  | text (s : String)
  /-- An unquoted scalar. -/
  | scalar (v : Setting)
  | list (items : List Node)
  | table (origin : Origin) (entries : List (String × Node))
  /-- A list of tables with headers of their own, of which the last one can grow. -/
  | tables (earlier : List Node) (last : List (String × Node))

/-- The entries of a table. -/
abbrev Entries := List (String × Node)

/-- Makes a key hold a node in place of whatever it held. -/
def put (key : String) (node : Node) (entries : Entries) : Entries :=
  (key, node) :: entries.filter (·.1 ≠ key)

/-! ## Growth -/

/-- The table after a dotted key is given a value. -/
def define? (v : Node) : List String → Entries → Option Entries
  | [], _ => none
  | [key], entries => if (entries.lookup key).isSome then none else some (put key v entries)
  | key :: next :: path, entries =>
    match entries.lookup key with
    | none =>
      (define? v (next :: path) []).map fun inner => put key (.table .dottedKey inner) entries
    | some (.table .dottedKey inner) =>
      (define? v (next :: path) inner).map fun inner => put key (.table .dottedKey inner) entries
    | some (.table .pathOfHeader inner) =>
      if path.isEmpty then none
      else
        (define? v (next :: path) inner).map fun inner =>
          put key (.table .pathOfHeader inner) entries
    | some (.tables earlier last) =>
      if path.isEmpty then none
      else (define? v (next :: path) last).map fun last => put key (.tables earlier last) entries
    | _ => none

/-- The table after the table at a path, which is made where it is missing, is changed by
`change`. -/
def within? (change : Entries → Option Entries) : List String → Entries → Option Entries
  | [], entries => change entries
  | key :: path, entries =>
    match entries.lookup key with
    | none => (within? change path []).map fun inner => put key (.table .pathOfHeader inner) entries
    | some (.table .braces _) => none
    | some (.table origin inner) =>
      (within? change path inner).map fun inner => put key (.table origin inner) entries
    | some (.tables earlier last) =>
      (within? change path last).map fun last => put key (.tables earlier last) entries
    | _ => none

/-- The table after a header for one of its keys. -/
def openKey? (key : String) (entries : Entries) : Option Entries :=
  match entries.lookup key with
  | none => some (put key (.table .header []) entries)
  | some (.table .pathOfHeader inner) => some (put key (.table .header inner) entries)
  | _ => none

/-- The table after a header for a further table in the list at one of its keys. -/
def extendKey? (key : String) (entries : Entries) : Option Entries :=
  match entries.lookup key with
  | none => some (put key (.tables [] []) entries)
  | some (.tables earlier last) =>
    some (put key (.tables (.table .header last :: earlier) []) entries)
  | _ => none

/-- The document after a header. -/
def openTable? (path : List String) (entries : Entries) : Option Entries := do
  within? (openKey? (← path.getLast?)) path.dropLast entries

/-- The document after a header for a further table in a list. -/
def extendTables? (path : List String) (entries : Entries) : Option Entries := do
  within? (extendKey? (← path.getLast?)) path.dropLast entries

/-! ## Settings -/

/-- The key of a moment in a table that stands for one. -/
def momentKey : String := "$__toml_private_datetime"

/-- Whether the first key of a table, in increasing order, says that it stands for a moment. -/
def standsForMoment (entries : Entries) : Bool :=
  (entries.lookup momentKey).isSome && entries.all fun (key, _) => decide (momentKey ≤ key)

/-- What a table with the given entries says, which must all say something, unless it stands for a
moment. -/
def tableSetting? (entries : Entries) (settings : List (Option Setting)) : Option Setting :=
  if standsForMoment entries then
    match entries.lookup momentKey with
    | some (.text s) => if isMoment s.toList then some (.text s) else none
    | _ => none
  else if settings.all Option.isSome then some .structured
  else none

mutual

/-- What a node says as a setting, if all its parts say something. -/
def Node.setting? : Node → Option Setting
  | .text s => some (.text s)
  | .scalar v => some v
  | .list items => if (itemSettings items).all Option.isSome then some .structured else none
  | .table _ entries => tableSetting? entries (entrySettings entries)
  | .tables earlier last =>
    if (itemSettings earlier).all Option.isSome then
      (tableSetting? last (entrySettings last)).map fun _ => .structured
    else none

/-- What each item says. -/
def itemSettings : List Node → List (Option Setting)
  | [] => []
  | node :: nodes => node.setting? :: itemSettings nodes

/-- What each entry says. -/
def entrySettings : List (String × Node) → List (Option Setting)
  | [] => []
  | (_, node) :: entries => node.setting? :: entrySettings entries

end

/-- The settings that the entries of a document are. -/
def settingsOf? (entries : Entries) : Option (List (String × Setting)) :=
  if standsForMoment entries then none
  else entries.mapM fun (key, node) => node.setting?.map (key, ·)

end Toml

end Eligibility
