/-!
# Blank characters

The characters that separate the tokens of rule text: those with the Unicode property `White_Space`.

## Main definitions

* `blankCharacters` — the list of them; `isBlank` — membership.
-/

set_option relaxedAutoImplicit false
set_option autoImplicit false

namespace Eligibility

/-- The characters with the property `White_Space`, by increasing code point. -/
def blankCharacters : List Char :=
  ['\t', '\n', '\x0b', '\x0c', '\x0d', ' ', '\x85', '\xa0', '\u1680',
    '\u2000', '\u2001', '\u2002', '\u2003', '\u2004', '\u2005', '\u2006', '\u2007', '\u2008',
    '\u2009', '\u200a', '\u2028', '\u2029', '\u202f', '\u205f', '\u3000']

/-- Whether a character separates tokens. -/
def isBlank (c : Char) : Bool := blankCharacters.contains c

example : blankCharacters.length = 25 := rfl

example : blankCharacters.Pairwise (· < ·) := by decide

end Eligibility
