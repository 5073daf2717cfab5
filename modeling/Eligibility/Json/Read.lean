import Eligibility.Json.Lexeme

/-!
# JSON text to documents

The lexemes of a text are taken one at a time. What those taken so far leave behind is a stack of
open containers and the place in the innermost one, so that the depth of a document is bounded by a
limit and not by the reader.

## Main definitions

* `Json.maxDepth` — the most containers that a usable part may stand in.
* `Json.Builder` — what the lexemes so far leave behind; `Json.Builder.step` — the effect of one.
* `Json.parse?` — the document of a text.
-/

set_option relaxedAutoImplicit false
set_option autoImplicit false

namespace Eligibility

namespace Json

/-- The most containers that may be nested in one another. -/
def maxDepth : Nat := 127

/-- A container that is not closed yet, with what it holds so far, the last first. -/
inductive Frame where
  | array (items : List Json)
  /-- The members before the one with the given key, and whether all keys so far have a value. -/
  | object (members : List (String × Json)) (usable : Bool) (key : String)

/-- What may come next. -/
inductive Place where
  /-- A value; also the end of the array, if it has just begun. -/
  | value (first : Bool)
  /-- A key; also the end of the object, if it has just begun. -/
  | key (first : Bool)
  /-- The colon after a key. -/
  | colon
  /-- A comma, or the end of the container. -/
  | separator

/-- What the lexemes so far leave behind: an unfinished document with its open containers, the
innermost first, or a whole one. -/
inductive Builder where
  | open (place : Place) (frames : List Frame)
  | done (document : Json)

namespace Builder

/-- Adds a complete value to the innermost container. -/
def deliver (v : Json) : List Frame → Builder
  | [] => done v
  | .array items :: frames => .open .separator (.array (v :: items) :: frames)
  | .object members usable key :: frames =>
    .open .separator (.object ((key, v) :: members) usable key :: frames)

/-- Closes the innermost container. One that stands too deep, or has a key without a value, is not
usable. -/
def close (container : Json) (usable : Bool) (frames : List Frame) : Builder :=
  deliver (if frames.length < maxDepth && usable then container else .unusable) frames

/-- The effect of a lexeme. -/
def step : Builder → Lexeme → Option Builder
  | .open (.value _) frames, .scalar v => some (deliver v frames)
  | .open (.value _) frames, .text s => some (deliver (s.elim .unusable .string) frames)
  | .open (.value _) frames, .openBracket => some (.open (.value true) (.array [] :: frames))
  | .open (.value _) frames, .openBrace => some (.open (.key true) (.object [] true "" :: frames))
  | .open (.value true) (.array _ :: frames), .closeBracket => some (close (.array []) true frames)
  | .open (.key _) (.object members usable _ :: frames), .text s =>
    some (.open .colon (.object members (usable && s.isSome) (s.getD "") :: frames))
  | .open (.key true) (.object _ _ _ :: frames), .closeBrace =>
    some (close (.object []) true frames)
  | .open .colon frames, .colon => some (.open (.value false) frames)
  | .open .separator (.array items :: frames), .comma =>
    some (.open (.value false) (.array items :: frames))
  | .open .separator (.object members usable key :: frames), .comma =>
    some (.open (.key false) (.object members usable key :: frames))
  | .open .separator (.array items :: frames), .closeBracket =>
    some (close (.array items.reverse) true frames)
  | .open .separator (.object members usable _ :: frames), .closeBrace =>
    some (close (.object members.reverse) usable frames)
  | _, _ => none

end Builder

/-- The document of a list of lexemes. -/
def ofLexemes? (lexemes : List Lexeme) : Option Json :=
  match lexemes.foldlM Builder.step (.open (.value false) []) with
  | some (.done document) => some document
  | _ => none

/-- The document of a text. -/
def parse? (text : String) : Option Json := do
  ofLexemes? (← Lexeme.readAll? text.toList)

end Json

end Eligibility
