import Eligibility.Setting.Basic

/-!
# Names of settings

A setting is named by a word, or by a path that leads into one: `a.b` is the part `b` of `a`, and
`a[0]` the first item of `a`. What is said about a part makes the whole a table or a list.

## Main definitions

* `SettingName.Place`, `SettingName.step` — how far the reading of a path has come.
* `SettingName.isPath` — whether a name is a path.
* `Setting.assign` — what a name and a value say about a whole setting.

## Implementation notes

A name that is no path is taken as it stands, so that it names nothing known.
-/

set_option relaxedAutoImplicit false
set_option autoImplicit false

namespace Eligibility

namespace SettingName

/-- How far the reading of a path has come. -/
inductive Place where
  /-- A word must begin. -/
  | begin
  /-- In a word, which may end. -/
  | word
  /-- In brackets, before the number of an item. -/
  | bracket
  /-- In brackets, after a minus sign. -/
  | minus
  /-- In brackets, in the number of an item. -/
  | digits (negative : Bool) (size : Nat)
  /-- In brackets, after the number of an item. -/
  | spaced
  /-- After brackets. -/
  | closed
deriving DecidableEq

/-- Whether a word can hold the character. -/
def isWordChar (c : Char) : Bool := c.isAlphanum || c = '_' || c = '-'

/-- Whether space in brackets can hold the character. -/
def isSpace (c : Char) : Bool := c = ' ' || c = '\t'

/-- The value of a decimal digit. -/
def digitValue (c : Char) : Nat := c.toNat - '0'.toNat

/-- Whether the number of an item has at most 64 bits. -/
def isIndex (negative : Bool) (size : Nat) : Bool :=
  if negative then size ≤ 2 ^ 63 else size < 2 ^ 63

/-- The place after the word or brackets before a further step. -/
def next? (c : Char) : Option Place :=
  if c = '.' then some .begin else if c = '[' then some .bracket else none

/-- The place after a character, if a path can go on with it. -/
def step (place : Place) (c : Char) : Option Place :=
  match place with
  | .begin => if isWordChar c then some .word else none
  | .word => if isWordChar c then some .word else next? c
  | .closed => next? c
  | .bracket =>
    if isSpace c then some .bracket
    else if c = '-' then some .minus
    else if c.isDigit then some (.digits false (digitValue c))
    else none
  | .minus => if c.isDigit then some (.digits true (digitValue c)) else none
  | .digits negative size =>
    if c.isDigit then some (.digits negative (size * 10 + digitValue c))
    else if !isIndex negative size then none
    else if isSpace c then some .spaced
    else if c = ']' then some .closed
    else none
  | .spaced => if isSpace c then some .spaced else if c = ']' then some .closed else none

/-- Whether a name is a word or leads into one. -/
def isPath (name : List Char) : Bool :=
  match name.foldlM step .begin with
  | some .word => true
  | some .closed => true
  | _ => false

end SettingName

/-- What a name with a value says about a whole setting: about itself, or about the setting that it
leads into, which is then structured. -/
def Setting.assign (name : String) (v : Setting) : String × Setting :=
  let word := name.toList.takeWhile SettingName.isWordChar
  if SettingName.isPath name.toList && word.length < name.toList.length then
    (.ofList word, structured)
  else (name, v)

end Eligibility
