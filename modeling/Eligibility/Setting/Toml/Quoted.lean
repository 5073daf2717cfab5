/-!
# Space and strings in TOML

Readers for what stands between the tokens of TOML and for strings in quotes. A reader takes a text
and returns what it has read with the text after it, or no answer if the text is no TOML.

## Main definitions

* `Toml.skipSpace`, `Toml.skipLines`, `Toml.endLine?` — space, line ends and comments.
* `Toml.basic?`, `Toml.raw?` — strings of one line, with and without escapes.
* `Toml.lines?` — strings of several lines.
-/

set_option relaxedAutoImplicit false
set_option autoImplicit false

namespace Eligibility

namespace Toml

/-! ## Space -/

/-- Whether a comment or a string can hold the character. -/
def isText (c : Char) : Bool := c = '\t' || (0x20 ≤ c.toNat && c.toNat ≠ 0x7f)

/-- The text after spaces and tabs. -/
def skipSpace (cs : List Char) : List Char := cs.dropWhile fun c => c = ' ' || c = '\t'

/-- The text after spaces, line ends and comments; the flag says that it starts in a comment. -/
def skipLines (inComment : Bool) : List Char → Option (List Char)
  | [] => some []
  | '\x0d' :: '\n' :: cs => skipLines false cs
  | c :: cs =>
    if c = '\n' then skipLines false cs
    else if inComment then if isText c then skipLines true cs else none
    else if c = ' ' || c = '\t' then skipLines false cs
    else if c = '#' then skipLines true cs
    else some (c :: cs)

/-- The text after the rest of a line that holds nothing more than space and a comment. -/
def endLine? (cs : List Char) : Option (List Char) :=
  match skipSpace cs with
  | [] => some []
  | '\n' :: cs => some cs
  | '\x0d' :: '\n' :: cs => some cs
  | '#' :: cs =>
    match cs.dropWhile isText with
    | [] => some []
    | '\n' :: cs => some cs
    | '\x0d' :: '\n' :: cs => some cs
    | _ => none
  | _ => none

/-! ## Escapes -/

/-- The number that hexadecimal digits spell. -/
def hexadecimal? (cs : List Char) : Option Nat :=
  cs.foldlM (fun n c =>
    if c.isDigit then some (n * 16 + (c.toNat - '0'.toNat))
    else if 'a' ≤ c ∧ c ≤ 'f' then some (n * 16 + (c.toNat - 'a'.toNat + 10))
    else if 'A' ≤ c ∧ c ≤ 'F' then some (n * 16 + (c.toNat - 'A'.toNat + 10))
    else none) 0

/-- The character with a code point in hexadecimal. -/
def character? (cs : List Char) : Option Char := do
  let n ← hexadecimal? cs
  if h : n.isValidChar then some (Char.ofNatAux n h) else none

/-- The character that a backslash and one character stand for. -/
def unescape? : Char → Option Char
  | 'b' => some '\x08'
  | 't' => some '\t'
  | 'n' => some '\n'
  | 'f' => some '\x0c'
  | 'r' => some '\x0d'
  | 'e' => some '\x1b'
  | '"' => some '"'
  | '\\' => some '\\'
  | _ => none

/-! ## Strings of one line -/

/-- The text of a string with escapes behind its opening quote, and the text after its closing
one. -/
def basic? : List Char → Option (List Char × List Char)
  | [] => none
  | '"' :: rest => some ([], rest)
  | '\\' :: 'x' :: a :: b :: rest => do
    let char ← character? [a, b]
    let (s, rest) ← basic? rest
    return (char :: s, rest)
  | '\\' :: 'u' :: a :: b :: c :: d :: rest => do
    let char ← character? [a, b, c, d]
    let (s, rest) ← basic? rest
    return (char :: s, rest)
  | '\\' :: 'U' :: a :: b :: c :: d :: e :: f :: g :: h :: rest => do
    let char ← character? [a, b, c, d, e, f, g, h]
    let (s, rest) ← basic? rest
    return (char :: s, rest)
  | '\\' :: c :: rest => do
    let char ← unescape? c
    let (s, rest) ← basic? rest
    return (char :: s, rest)
  | c :: rest =>
    if isText c && c ≠ '\\' then (basic? rest).map fun (s, rest) => (c :: s, rest) else none

/-- The text of a string without escapes behind its opening quote, and the text after its closing
one. -/
def raw? : List Char → Option (List Char × List Char)
  | [] => none
  | '\'' :: rest => some ([], rest)
  | c :: rest => if isText c then (raw? rest).map fun (s, rest) => (c :: s, rest) else none

/-- The text of a quoted string of one line, and the text after it. -/
def quoted? : List Char → Option (List Char × List Char)
  | '"' :: cs => basic? cs
  | '\'' :: cs => raw? cs
  | _ => none

/-! ## Strings of several lines -/

/-- The text after a line end that directly follows the opening quotes of a string of several
lines. -/
def skipFirstLineEnd : List Char → List Char
  | '\n' :: cs => cs
  | '\x0d' :: '\n' :: cs => cs
  | cs => cs

/-- Whether a backslash before this text ends its line. -/
def foldsLine (cs : List Char) : Bool :=
  match skipSpace cs with
  | '\n' :: _ => true
  | '\x0d' :: '\n' :: _ => true
  | _ => false

/-- The quotes that still belong to a string after its first three in a row, of which there can be
two, and the text after them. -/
def lastQuotes (quote : Char) (cs : List Char) : List Char × List Char :=
  let quotes := (cs.take 2).takeWhile (· = quote)
  (quotes, cs.drop quotes.length)

/-- The text of a string of several lines between quotes of the given kind, and the text after it.
The flag says that a folded line end is being passed over. The first three quotes in a row end the
string, together with at most two more, which are its last characters. -/
def lines? (quote : Char) (folding : Bool) : List Char → Option (List Char × List Char)
  | [] => none
  | c :: rest =>
    if c = '\n' || (c = '\x0d' && rest.head? = some '\n') then
      if folding then lines? quote true rest
      else (lines? quote false rest).map fun (s, rest) => (c :: s, rest)
    else if folding && (c = ' ' || c = '\t') then lines? quote true rest
    else if c = quote && rest.take 2 = [quote, quote] then some (lastQuotes quote (rest.drop 2))
    else if c = '\\' && quote = '"' then
      match rest with
      | 'x' :: a :: b :: rest => do
        let char ← character? [a, b]
        let (s, rest) ← lines? quote false rest
        return (char :: s, rest)
      | 'u' :: a :: b :: c :: d :: rest => do
        let char ← character? [a, b, c, d]
        let (s, rest) ← lines? quote false rest
        return (char :: s, rest)
      | 'U' :: a :: b :: c :: d :: e :: f :: g :: h :: rest => do
        let char ← character? [a, b, c, d, e, f, g, h]
        let (s, rest) ← lines? quote false rest
        return (char :: s, rest)
      | c :: rest =>
        if foldsLine (c :: rest) then lines? quote true rest
        else do
          let char ← unescape? c
          let (s, rest) ← lines? quote false rest
          return (char :: s, rest)
      | [] => none
    else if isText c then (lines? quote false rest).map fun (s, rest) => (c :: s, rest)
    else none

end Toml

end Eligibility
