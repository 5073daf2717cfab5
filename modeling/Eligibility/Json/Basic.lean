import Eligibility.Number.Numeral

/-!
# JSON documents

Rules, data and settings travel as JSON. A document keeps the members of an object in the order in
which they are written, repetitions included; each reader of documents says what order and
repetition mean to it.

## Main definitions

* `Json` — a document; `Json.isSound` — whether every part of it has a value.
* `Json.text` — the compact text of a document.

## Implementation notes

Text can have the form of JSON and no value: a number beyond the finite range, an escape of half a
surrogate pair, containers nested too deep. Such a part is `Json.unusable`. A reader passes over it
where it ignores the member that holds it, and fails where it needs it.
-/

set_option relaxedAutoImplicit false
set_option autoImplicit false

namespace Eligibility

/-- A JSON document. -/
inductive Json where
  | null
  | bool (b : Bool)
  /-- An integer of at most 64 bits, written without a point or an exponent. -/
  | integer (i : Int)
  /-- Any other finite number. -/
  | number (x : Binary64)
  | string (s : String)
  | array (items : List Json)
  | object (members : List (String × Json))
  /-- A part with the form of JSON and no value. -/
  | unusable

namespace Json

/-! ## Soundness -/

mutual

/-- Whether every part of the document has a value. -/
def isSound : Json → Bool
  | unusable => false
  | array items => itemsSound items
  | object members => membersSound members
  | _ => true

/-- Whether every item is sound. -/
def itemsSound : List Json → Bool
  | [] => true
  | v :: vs => v.isSound && itemsSound vs

/-- Whether the value of every member is sound. -/
def membersSound : List (String × Json) → Bool
  | [] => true
  | (_, v) :: ms => v.isSound && membersSound ms

end

/-! ## Text -/

/-- JSON writes numbers of a moderate size in full and with a point, others with an exponent, and a
number that is not finite as `null`. -/
def numberStyle : NumberStyle where
  tie := .even
  positional e := -5 ≤ e && e < 16
  pointed := true
  nan := "null"
  infinity := "null"
  negativeInfinity := "null"

/-- A hexadecimal digit. -/
def hexDigit (n : Nat) : Char := Nat.digitChar n

/-- The characters that stand for one character between quotes: only quotes, backslashes and control
characters are escaped. -/
def escape (c : Char) : List Char :=
  match c with
  | '"' => ['\\', '"']
  | '\\' => ['\\', '\\']
  | '\x08' => ['\\', 'b']
  | '\x0c' => ['\\', 'f']
  | '\n' => ['\\', 'n']
  | '\x0d' => ['\\', 'r']
  | '\t' => ['\\', 't']
  | c =>
    if c.toNat < 0x20 then ['\\', 'u', '0', '0', hexDigit (c.toNat / 16), hexDigit (c.toNat % 16)]
    else [c]

/-- A string between quotes. -/
def quote (s : String) : String :=
  "\"" ++ .ofList (s.toList.flatMap escape) ++ "\""

mutual

/-- The compact text of a document. -/
def text : Json → String
  | null => "null"
  | bool true => "true"
  | bool false => "false"
  | integer i => i.repr
  | number x => numberStyle.write x
  | string s => quote s
  | array items => "[" ++ itemsText items ++ "]"
  | object members => "\x7b" ++ membersText members ++ "\x7d"
  | unusable => "null"

/-- The texts of items with commas between them. -/
def itemsText : List Json → String
  | [] => ""
  | [v] => v.text
  | v :: vs => v.text ++ "," ++ itemsText vs

/-- The texts of members with commas between them. -/
def membersText : List (String × Json) → String
  | [] => ""
  | [(key, v)] => quote key ++ ":" ++ v.text
  | (key, v) :: ms => quote key ++ ":" ++ v.text ++ "," ++ membersText ms

end

end Json

end Eligibility
