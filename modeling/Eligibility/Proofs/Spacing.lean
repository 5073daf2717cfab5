import Eligibility.Proofs.CanonicalText

/-!
# Tokens with blanks between them

A list of tokens can be written out whether or not a formula is derived from it: the texts of the
tokens in a row, with at least one blank between any two. Scanning finds the tokens again. A blank
ends whatever a token could have gone on with, and what is read of a token depends neither on the
tokens before it nor on those behind it.

## Main definitions

* `Token.Lexable` — a token that has a spelling.
* `Token.Gap` — blanks that separate tokens.
* `Token.Spacing` — blanks around and between tokens; `Token.Spacing.text` — the tokens written with
  them.

## Main results

* `Token.spelled_interleave` — tokens with gaps between them are spelled by their texts.
* `Token.scan_spaced` — the tokens that are found in such a text.
-/

set_option relaxedAutoImplicit false
set_option autoImplicit false

namespace Eligibility

namespace Token

/-! ## Tokens with a spelling -/

/-- A token has a spelling: a condition if its parts have one, and every other token does. -/
def Lexable : Token → Prop
  | condition c => c.Lexable
  | openParen | closeParen | connective _ => True

/-- Whether a token has a spelling can be told: only conditions can have none. -/
instance : DecidablePred Lexable
  | .condition c => inferInstanceAs (Decidable c.Lexable)
  | .openParen | .closeParen | .connective _ => inferInstanceAs (Decidable True)

/-- **The text of a token is a spelling of it**, if it has any. -/
theorem Lexable.spelling {t : Token} (h : t.Lexable) {rest : List Char}
    (hrest : Scan.StopsAt Scan.isNameChar rest) : t.Spelling t.text.toList rest := by
  cases t with
  | openParen => exact .openParen rest
  | closeParen => exact .closeParen rest
  | connective op => exact .connective op hrest
  | condition c => exact Condition.Lexable.spelling h hrest

/-- The tokens that a text spells have a spelling. -/
theorem Spelled.forall_lexable {ts : List Token} {cs : List Char} (h : Spelled ts cs) :
    ∀ t ∈ ts, t.Lexable := by
  intro t ht
  cases t with
  | condition c => exact h.lexable ht
  | openParen | closeParen | connective => trivial

/-! ## Texts with gaps -/

/-- Blanks that separate two tokens, of which there must be one. -/
structure Gap where
  chars : List Char
  ne_nil : chars ≠ []
  blank : ∀ c ∈ chars, isBlank c = true

/-- What follows a gap goes on with no word before it. -/
theorem Gap.stopsAt (gap : Gap) (rest : List Char) :
    Scan.StopsAt Scan.isNameChar (gap.chars ++ rest) := by
  obtain ⟨c, cs, hchars⟩ := List.exists_cons_of_ne_nil gap.ne_nil
  have hc : isBlank c = true := gap.blank c (by simp [hchars])
  rw [hchars]
  exact Scan.stopsAt_cons.mpr (Scan.isNameChar_of_isBlank hc)

/-- Texts in a row with the gaps between them, in their order. -/
def interleave : List (List Char) → List Gap → List Char
  | [], _ => []
  | s :: texts, [] => s ++ interleave texts []
  | s :: texts, gap :: gaps => s ++ (gap.chars ++ interleave texts gaps)

/-- Blanks to write `n` tokens with: a run before the first, a gap between any two that follow each
other, and a run behind the last. The two runs may be empty. -/
structure Spacing (n : Nat) where
  before : List Char
  between : List Gap
  after : List Char
  before_blank : ∀ c ∈ before, isBlank c = true
  after_blank : ∀ c ∈ after, isBlank c = true
  length_between : between.length = n - 1

/-- Tokens written with blanks around them. -/
def Spacing.text {n : Nat} (spacing : Spacing n) (ts : List Token) : String :=
  .ofList (spacing.before ++
    (interleave (ts.map fun t => t.text.toList) spacing.between ++ spacing.after))

/-- **Tokens with gaps between them are spelled by their texts.**

**Proof sketch.** By induction on the tokens. A token is spelled by its text before anything that no
word goes on with: a gap, or the blanks behind the last token. -/
theorem spelled_interleave {ts : List Token} (hts : ∀ t ∈ ts, t.Lexable) {gaps : List Gap}
    (hlength : gaps.length = ts.length - 1) {after : List Char}
    (hafter : ∀ c ∈ after, isBlank c = true) :
    Spelled ts (interleave (ts.map fun t => t.text.toList) gaps ++ after) := by
  induction ts generalizing gaps with
  | nil => exact .nil hafter
  | cons t ts ih =>
    obtain ⟨ht, hts⟩ := List.forall_mem_cons.mp hts
    rw [List.length_cons, Nat.add_sub_cancel] at hlength
    cases gaps with
    | nil =>
      obtain rfl : ts = [] := List.length_eq_zero_iff.mp hlength.symm
      have hstop := Scan.stopsAt_isNameChar_blanks hafter (Scan.stopsAt_nil _)
      rw [List.append_nil] at hstop
      simpa [interleave] using Spelled.token (ht.spelling hstop) (.nil hafter)
    | cons gap gaps =>
      have hothers : gaps.length = ts.length - 1 := by
        rw [List.length_cons] at hlength
        omega
      have hrest := (ih hts hothers).blanks gap.blank
      simpa [interleave] using Spelled.token (ht.spelling (gap.stopsAt _)) hrest

/-- **Scanning undoes writing tokens out.** Tokens in any order, with a blank at least between any
two, are found again if all have a spelling, and only then.

**Proof sketch.** A token that has a spelling is spelled in front of whatever begins with a blank,
so that spelled tokens with blanks between them are spelled together. Conversely every token of a
spelled list has a spelling. -/
theorem scan_spaced (ts : List Token) (spacing : Spacing ts.length) :
    scan (spacing.text ts) = .ok ts ↔ ∀ t ∈ ts, t.Lexable := by
  rw [scan_eq_ok_iff_tokens, Scan.tokens_eq_ok_iff]
  refine ⟨Spelled.forall_lexable, fun hts => ?_⟩
  rw [Spacing.text, String.toList_ofList]
  exact (spelled_interleave hts spacing.length_between spacing.after_blank).blanks
    spacing.before_blank

/-- Tokens from which no formula is derived, with a parenthesis and a keyword inside a text, an
attribute that starts like a keyword, and blanks of several kinds. -/
theorem scan_spaced_disorder :
    let ts : List Token := [.closeParen, .connective .or,
      .condition ⟨"ANDROID.v", .atLeast, .number (.ofBits 0xc004000000000000)⟩,
      .condition ⟨"b", .equal, .text "x) AND (y >"⟩, .openParen, .connective .and]
    let text := "\u3000) OR\n\tANDROID.v >= -2.5\xa0b = 'x) AND (y >' ( \u2028AND"
    ∃ spacing : Spacing ts.length, spacing.text ts = text ∧ scan text = .ok ts := by
  intro ts text
  -- decided over the list, since `∀ c` would go through all characters
  let spacing : Spacing ts.length :=
    ⟨['\u3000'], [⟨[' '], by decide, List.all_eq_true.mp rfl⟩,
      ⟨['\n', '\t'], by decide, List.all_eq_true.mp rfl⟩,
      ⟨['\xa0'], by decide, List.all_eq_true.mp rfl⟩,
      ⟨[' '], by decide, List.all_eq_true.mp rfl⟩,
      ⟨[' ', '\u2028'], by decide, List.all_eq_true.mp rfl⟩], [],
      List.all_eq_true.mp rfl, List.all_eq_true.mp rfl, rfl⟩
  have htext : spacing.text ts = text := by decide +kernel
  have hts : ∀ t ∈ ts, t.Lexable := by decide +kernel
  exact ⟨spacing, htext, htext ▸ (scan_spaced ts spacing).mpr hts⟩

end Token

end Eligibility
