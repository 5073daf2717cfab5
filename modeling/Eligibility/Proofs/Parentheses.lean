import Eligibility.Proofs.CanonicalText
import Mathlib.Order.Basic

/-!
# The fewest parentheses

Canonical text has parentheses around an operand only where the grammar would otherwise read another
formula. Any other way to write the formula has a pair around the same operand, and may have more.
So the canonical text has the fewest pairs of all texts of its formula, nests them least, and is
read under every limit under which some text of the formula is read.

## Main definitions

* `Formula.pairs` — the pairs of parentheses that the canonical text has.
* `Affords` — tokens with as many and as deep parentheses as a formula needs to be a phrase.

## Main results

* `Formula.count_text`, `Formula.count_tokens` — the canonical text has these pairs and no others.
* `Derives.affords` — every derivation has the parentheses that its formula needs.
* `Formula.fewest_parentheses` — no tokens that give the formula have fewer pairs or nest them less.
* `Formula.parse_text_of_parse` — the canonical text of what was parsed is parsed within the same
  limit.

## Implementation notes

A formula that stands in parentheses may need none, so that a bound on its own parentheses says
nothing about the pair around it. The bound has to be one on the phrase that the tokens are derived
as.
-/

set_option relaxedAutoImplicit false
set_option autoImplicit false

namespace Eligibility

/-! ## The pairs of the canonical text -/

namespace Formula

/-- The pairs of parentheses in the canonical text: one for every operand that needs them. -/
def pairs : Formula → Nat
  | condition _ => 0
  | join op left right =>
    left.pairs + (left.needsParens op .left).toNat +
      (right.pairs + (right.needsParens op .right).toNat)

/-- Parentheses around a text add one that opens. -/
theorem count_enclose (parens : Bool) (s : String) :
    (enclose parens s).toList.count '(' = s.toList.count '(' + parens.toNat := by
  cases parens with
  | false => rfl
  | true => simp [enclose, Nat.add_comm]

/-- **The canonical text opens a parenthesis for every pair**, and has no others but those in its
conditions. -/
theorem count_text (f : Formula) :
    f.text.toList.count '(' = f.pairs + (f.conditions.flatMap (·.text.toList)).count '(' := by
  induction f with
  | condition c => simp [text, pairs, conditions]
  | join op left right ihleft ihright =>
    have hkeyword : op.keyword.toList.count '(' = 0 := by cases op <;> decide
    have hblank : " ".toList.count '(' = 0 := by decide
    simp only [text, String.toList_append, List.count_append, count_enclose, hkeyword,
      hblank, ihleft, ihright, pairs, conditions, List.flatMap_append]
    omega

/-- Parentheses around tokens add one that opens. -/
theorem count_encloseTokens (parens : Bool) (ts : List Token) :
    (encloseTokens parens ts).count .openParen = ts.count .openParen + parens.toNat := by
  cases parens with
  | false => rfl
  | true => simp [encloseTokens]

/-- The tokens of the canonical text open a parenthesis for every pair. -/
theorem count_tokens (f : Formula) : f.tokens.count .openParen = f.pairs := by
  induction f with
  | condition c => simp [tokens, pairs]
  | join op left right ihleft ihright =>
    simp [tokens, pairs, count_encloseTokens, ihleft, ihright]

/-! ## What the grammar needs -/

/-- A formula needs no parentheses to be the phrase of its connective. -/
theorem needsParensAs_phrase (f : Formula) : f.needsParensAs f.phrase = false := by
  match f with
  | condition _ => rfl
  | join .and _ _ => rfl
  | join .or _ _ => rfl

/-- What is a factor without parentheses is a term without them. -/
theorem needsParensAs_term_le (f : Formula) :
    (f.needsParensAs .term).toNat ≤ (f.needsParensAs .factor).toNat := by
  match f with
  | condition _ => exact Nat.le_refl _
  | join .and _ _ => exact Nat.zero_le _
  | join .or _ _ => exact Nat.le_refl _

end Formula

/-- Tokens with the parentheses that a formula needs to be a phrase: as many, and as deep. -/
structure Affords (phrase : Phrase) (ts : List Token) (f : Formula) : Prop where
  pairs : f.pairs + (f.needsParensAs phrase).toNat ≤ ts.count .openParen
  nesting (opened : Nat) :
    opened + f.nesting + (f.needsParensAs phrase).toNat ≤ Token.nestingFrom opened ts

/-! ## What derivations have -/

/-- Tokens that have the parentheses for one phrase have them for a phrase that asks for no more. -/
theorem Affords.mono {phrase phrase' : Phrase} {ts : List Token} {f : Formula}
    (h : Affords phrase ts f)
    (hle : (f.needsParensAs phrase').toNat ≤ (f.needsParensAs phrase).toNat) :
    Affords phrase' ts f := by
  refine ⟨?_, fun opened => ?_⟩
  · have := h.pairs
    omega
  · have := h.nesting opened
    omega

/-- The pair around an expression is one that its formula may need to be a factor. -/
theorem affords_parens {ts : List Token} {f : Formula} (hf : Derives .expression ts f)
    (h : Affords .expression ts f) : Affords .factor (.openParen :: (ts ++ [.closeParen])) f := by
  have hone := (f.needsParensAs .factor).toNat_le
  refine ⟨?_, fun opened => ?_⟩
  · have hcount : (Token.openParen :: (ts ++ [.closeParen])).count .openParen =
        ts.count .openParen + 1 := by simp
    have := h.pairs
    omega
  · have := h.nesting (opened + 1)
    rw [hf.nestingFrom_parens]
    omega

/-- **Operands bring the parentheses that they need**, and their join needs no others to be the
phrase of its connective. -/
theorem affords_join {phrase : Phrase} {ts us : List Token} {f g : Formula} (op : Connective)
    (hf : Derives phrase ts f) (ihf : Affords (op.operand .left) ts f)
    (ihg : Affords (op.operand .right) us g) :
    Affords (Formula.join op f g).phrase (ts ++ .connective op :: us) (.join op f g) := by
  have hno := (Formula.join op f g).needsParensAs_phrase
  refine ⟨?_, fun opened => ?_⟩
  · have hcount : (ts ++ .connective op :: us).count .openParen =
        ts.count .openParen + us.count .openParen := by simp
    have hleft := ihf.pairs
    have hright := ihg.pairs
    rw [hno, hcount, Formula.pairs, Formula.needsParens_eq, Formula.needsParens_eq,
      Bool.toNat_false]
    omega
  · have hleft := ihf.nesting opened
    have hright := ihg.nesting opened
    rw [hno, hf.nestingFrom_join, Formula.nesting, Formula.needsParens_eq, Formula.needsParens_eq,
      Bool.toNat_false]
    omega

/-- **Every derivation has the parentheses that its formula needs** to be the phrase.

**Proof sketch.** By induction on the derivation. A factor that is no condition stands in
parentheses, and this pair is the one that its formula may need; everywhere else the operands bring
theirs. -/
theorem Derives.affords {phrase : Phrase} {ts : List Token} {f : Formula}
    (h : Derives phrase ts f) :
    Affords phrase ts f := by
  induction h with
  | condition c => exact ⟨Nat.zero_le _, fun opened => Nat.le_refl opened⟩
  | parens hf ih => exact affords_parens hf ih
  | factor _ ih => exact ih.mono (Formula.needsParensAs_term_le _)
  | and hf _ ihf ihg => exact affords_join .and hf ihf ihg
  | term _ ih => exact ih.mono (Nat.zero_le _)
  | or hf _ ihf ihg => exact affords_join .or hf ihf ihg

namespace Formula

/-! ## The canonical text -/

/-- The canonical text nests no deeper than any tokens that derive the formula. -/
theorem nesting_le_of_derives {ts : List Token} {f : Formula} (h : Derives .expression ts f) :
    f.nesting ≤ Token.nesting ts := by
  have hnesting := h.affords.nesting 0
  rw [Token.nesting]
  omega

/-- **The canonical text has the fewest parentheses.** Tokens that give a formula open at least as
many parentheses as its canonical text has pairs, which are one for every operand that needs them,
and nest them at least as deep. The canonical text itself gives the formula under the same limit
with just these pairs.

**Proof sketch.** By induction on the derivation (`Derives.affords`): wherever an operand needs
parentheses, the phrase that it has to be is derived only with a pair around it. The canonical text
has these pairs and no others. -/
theorem fewest_parentheses {limit : Nat} {ts : List Token} {f : Formula}
    (h : ofTokens limit ts = .ok f) :
    f.pairs ≤ ts.count .openParen ∧ f.nesting ≤ Token.nesting ts ∧
      f.text.toList.count '(' = f.pairs + (f.conditions.flatMap (·.text.toList)).count '(' ∧
      ofTokens limit f.tokens = .ok f ∧ f.tokens.count .openParen = f.pairs ∧
      Token.nesting f.tokens = f.nesting := by
  obtain ⟨hderives, hlimit, hdepth⟩ := ofTokens_eq_ok_iff.mp h
  have hpairs := hderives.affords.pairs
  have hnesting := nesting_le_of_derives hderives
  have htokens : Token.nesting f.tokens = f.nesting := by
    rw [Token.nesting, nestingFrom_tokens, Nat.zero_add]
  refine ⟨Nat.le_of_add_right_le hpairs, hnesting, f.count_text, ?_, f.count_tokens, htokens⟩
  exact ofTokens_eq_ok_iff.mpr ⟨f.derives_tokens, htokens ▸ Nat.le_trans hnesting hlimit, hdepth⟩

/-- Two pairs that are needed, and two more around the whole and around a condition. -/
theorem fewest_parentheses_redundant :
    let a : Condition := ⟨"a", .equal, .text "("⟩
    let ts : List Token := [.openParen, .openParen, .condition a, .connective .or, .openParen,
      .condition a, .closeParen, .closeParen, .connective .and, .openParen, .condition a,
      .connective .and, .condition a, .closeParen, .closeParen]
    let f : Formula := .join .and (.join .or (.condition a) (.condition a))
      (.join .and (.condition a) (.condition a))
    ofTokens 3 ts = .ok f ∧ f.pairs = 2 ∧ 2 ≤ ts.count .openParen ∧ f.nesting = 1 ∧
      1 ≤ Token.nesting ts ∧ f.text.toList.count '(' = 6 := by
  intro a ts f
  have hts : ofTokens 3 ts = .ok f := by decide +kernel
  obtain ⟨hpairs, hnesting, htext, -⟩ := fewest_parentheses hts
  exact ⟨hts, rfl, hpairs, rfl, hnesting, htext.trans (by decide +kernel)⟩

/-- **Canonical text stays within the limit of the author**: whatever text a formula was parsed
from, its canonical text parses to the formula under the same limit.

**Proof sketch.** The text was scanned to tokens that derive the formula, so that the formula has a
spelling. The canonical tokens nest no deeper than these (`nesting_le_of_derives`), and they did not
nest too deep. -/
theorem parse_text_of_parse {limit : Nat} {s : String} {f : Formula} (h : parse limit s = .ok f) :
    parse limit f.text = .ok f := by
  obtain ⟨ts, -, hderives, hlimit, hdepth⟩ := parse_eq_ok_iff.mp h
  exact parse_text (lexable_of_parse h) hdepth
    (Nat.le_trans (nesting_le_of_derives hderives) hlimit)

/-- A text that nests as deep as the limit allows, where its formula needs one pair only. -/
theorem parse_text_of_parse_redundant :
    let s := "((a='x' OR(b<2.50)))AND c >= -3"
    let f : Formula := .join .and
      (.join .or (.condition ⟨"a", .equal, .text "x"⟩)
        (.condition ⟨"b", .less, .number (.ofBits 0x4004000000000000)⟩))
      (.condition ⟨"c", .atLeast, .number (.ofBits 0xc008000000000000)⟩)
    parse 3 s = .ok f ∧ f.text = "(a = 'x' OR b < 2.5) AND c >= -3" ∧ parse 3 f.text = .ok f := by
  intro s f
  have hs : parse 3 s = .ok f := by decide +kernel
  exact ⟨hs, by decide +kernel, parse_text_of_parse hs⟩

end Formula

end Eligibility
