import Eligibility.Setting.Toml.Table

/-!
# TOML documents

A document is a list of pairs and headers, one on a line, and its top level gives settings. Only
scalars have a value there, but the whole text must be TOML.

## Main definitions

* `Toml.key?`, `Toml.path?` — keys and dotted keys.
* `Toml.value?` — values; `Toml.document?` — the entries of a document.
* `Toml.settings?` — the settings at the top level of a text.

## Implementation notes

Between braces, as between brackets, line ends and comments can stand wherever a space can, but not
within a dotted key. Containers nest at most `Toml.maxNesting` deep, and a dotted key has at most as
many parts. Readers that loop recurse on the length of the text, of which each step takes a part.
-/

set_option relaxedAutoImplicit false
set_option autoImplicit false

namespace Eligibility

namespace Toml

/-- The most containers in one another, and the most parts of a key. -/
def maxNesting : Nat := 80

/-! ## Keys -/

/-- Whether an unquoted key can hold the character. -/
def isKeyChar (c : Char) : Bool := c.isAlphanum || c = '-' || c = '_'

/-- The simple key at the start of a text, and the text after it. -/
def key? (cs : List Char) : Option (String × List Char) :=
  match quoted? cs with
  | some (key, rest) => some (.ofList key, rest)
  | none =>
    let key := cs.takeWhile isKeyChar
    if key.isEmpty then none else some (.ofList key, cs.dropWhile isKeyChar)

/-- The key of at most `parts` parts at the start of a text, and the text after it and the space
there. -/
def path? : (parts : Nat) → List Char → Option (List String × List Char)
  | 0, _ => none
  | parts + 1, cs => do
    let (key, cs) ← key? cs
    match skipSpace cs with
    | '.' :: cs =>
      let (path, cs) ← path? parts (skipSpace cs)
      return (key :: path, cs)
    | cs => return ([key], cs)

/-! ## Values -/

mutual

/-- The value at the start of a text, and the text after it, with at most `room` containers in one
another. -/
def value? : (bound room : Nat) → List Char → Option (Node × List Char)
  | 0, _, _ => none
  | bound + 1, room, cs =>
    match cs with
    | '"' :: '"' :: '"' :: cs =>
      (lines? '"' false (skipFirstLineEnd cs)).map fun (s, cs) => (.text (.ofList s), cs)
    | '\'' :: '\'' :: '\'' :: cs =>
      (lines? '\'' false (skipFirstLineEnd cs)).map fun (s, cs) => (.text (.ofList s), cs)
    | '"' :: cs => (basic? cs).map fun (s, cs) => (.text (.ofList s), cs)
    | '\'' :: cs => (raw? cs).map fun (s, cs) => (.text (.ofList s), cs)
    | '[' :: cs =>
      match room with
      | 0 => none
      | room + 1 => (items? bound room cs).map fun (items, cs) => (.list items, cs)
    | '\x7b' :: cs =>
      match room with
      | 0 => none
      | room + 1 => (pairs? bound room [] cs).map fun (entries, cs) => (.table .braces entries, cs)
    | cs => (unquoted? cs).map fun (v, cs) => (.scalar v, cs)

/-- The items of a list behind its opening bracket, and the text after its closing one. -/
def items? : (bound room : Nat) → List Char → Option (List Node × List Char)
  | 0, _, _ => none
  | bound + 1, room, cs => do
    match ← skipLines false cs with
    | ']' :: cs => return ([], cs)
    | cs =>
      let (item, cs) ← value? bound room cs
      match ← skipLines false cs with
      | ']' :: cs => return ([item], cs)
      | ',' :: cs =>
        let (items, cs) ← items? bound room cs
        return (item :: items, cs)
      | _ => none

/-- The entries of a table in braces, given the ones before, and the text after its closing
brace. -/
def pairs? : (bound room : Nat) → Entries → List Char → Option (Entries × List Char)
  | 0, _, _, _ => none
  | bound + 1, room, entries, cs => do
    match ← skipLines false cs with
    | '\x7d' :: cs => return (entries, cs)
    | cs =>
      let (path, cs) ← path? maxNesting cs
      match ← skipLines false cs with
      | '=' :: cs =>
        let (v, cs) ← value? bound room (← skipLines false cs)
        let entries ← define? v path entries
        match ← skipLines false cs with
        | '\x7d' :: cs => return (entries, cs)
        | ',' :: cs => pairs? bound room entries cs
        | _ => none
      | _ => none

end

/-! ## Documents -/

/-- The document that the lines of a text make of one whose last header has the path `header`. -/
def document? : (bound : Nat) → (header : List String) → Entries → List Char → Option Entries
  | 0, _, _, _ => none
  | bound + 1, header, entries, cs => do
    match ← skipLines false cs with
    | [] => return entries
    | '[' :: '[' :: cs =>
      match ← path? maxNesting (skipSpace cs) with
      | (path, ']' :: ']' :: cs) =>
        document? bound path (← extendTables? path entries) (← endLine? cs)
      | _ => none
    | '[' :: cs =>
      match ← path? maxNesting (skipSpace cs) with
      | (path, ']' :: cs) => document? bound path (← openTable? path entries) (← endLine? cs)
      | _ => none
    | cs =>
      match ← path? maxNesting cs with
      | (path, '=' :: cs) =>
        let (v, cs) ← value? cs.length maxNesting (skipSpace cs)
        document? bound header (← within? (define? v path) header entries) (← endLine? cs)
      | _ => none

/-- The text without a byte order mark at its start. -/
def skipMark : List Char → List Char
  | '\ufeff' :: cs => cs
  | cs => cs

/-- The settings at the top level of a text. It may begin with a byte order mark, and so may the
file that holds it. -/
def settings? (text : String) : Option (List (String × Setting)) := do
  let cs := skipMark (skipMark text.toList)
  settingsOf? (← document? (cs.length + 1) [] [] cs)

end Toml

end Eligibility
