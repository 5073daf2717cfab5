import Eligibility.Formula.Parse
import Eligibility.Proofs.Reading
import Eligibility.Proofs.Spelling

/-!
# Canonical text reads back

The canonical text of a formula spells tokens that derive the formula, and their parentheses nest as
deep as the formula says. So the text reads back as the formula wherever the limits allow it, and is
refused for the limit elsewhere.

## Main definitions

* `Formula.tokens` — the tokens of the canonical text.
* `Connective.operand`, `Formula.needsParensAs` — the phrase that an operand has to be, and the
  formulas that are this phrase only in parentheses.
* `Formula.Lexable` — a formula whose conditions have a spelling.

## Main results

* `Formula.needsParens_eq` — the parentheses that are written are those that the grammar needs.
* `Formula.derives_tokens` — the tokens of the canonical text derive the formula.
* `Formula.nestingFrom_tokens` — their parentheses nest as deep as `Formula.nesting` says.
* `Formula.scan_text` — the canonical text scans to them.
* `Formula.parse_eq_ok_iff` — what is parsed.
* `Formula.parse_text_within_limits` — what reading the canonical text gives, at every limit.
-/

set_option relaxedAutoImplicit false
set_option autoImplicit false

namespace Eligibility

namespace Formula

/-! ## The tokens of canonical text -/

/-- The tokens of an operand, in parentheses where they are needed. -/
def encloseTokens (parens : Bool) (ts : List Token) : List Token :=
  if parens then .openParen :: (ts ++ [.closeParen]) else ts

/-- The tokens of the canonical text of a formula. -/
def tokens : Formula → List Token
  | condition c => [.condition c]
  | join op left right =>
    encloseTokens (left.needsParens op .left) left.tokens ++
      .connective op :: encloseTokens (right.needsParens op .right) right.tokens

/-- What the canonical text of a formula is without parentheses around it. -/
def phrase : Formula → Phrase
  | condition _ => .factor
  | join .and _ _ => .term
  | join .or _ _ => .expression

end Formula

/-- What an operand of a connective has to be. -/
def Connective.operand : Connective → Formula.Side → Phrase
  | .and, .left => .term
  | .and, .right => .factor
  | .or, .left => .expression
  | .or, .right => .term

namespace Formula

/-- Whether a formula is a phrase only in parentheses. -/
def needsParensAs : Phrase → Formula → Bool
  | .factor, join _ _ _ => true
  | .term, join .or _ _ => true
  | _, _ => false

/-- **An operand needs parentheses where the grammar does not derive it otherwise.** -/
theorem needsParens_eq (op : Connective) (side : Side) (f : Formula) :
    f.needsParens op side = f.needsParensAs (op.operand side) := by
  cases f with
  | condition c => cases op <;> cases side <;> rfl
  | join inner left right => cases op <;> cases side <;> cases inner <;> rfl

end Formula

/-- Every phrase is an expression. -/
theorem Derives.toExpression {phrase : Phrase} {ts : List Token} {f : Formula}
    (h : Derives phrase ts f) : Derives .expression ts f := by
  cases phrase with
  | expression => exact h
  | term => exact .term h
  | factor => exact .term (.factor h)

namespace Formula

/-- What stands in parentheses is a factor. -/
theorem derives_enclosed {phrase : Phrase} {ts : List Token} {f : Formula}
    (h : Derives phrase ts f) : Derives .factor (encloseTokens true ts) f :=
  .parens h.toExpression

/-- With the parentheses it needs, a formula is any phrase. -/
theorem derives_as {f : Formula} (h : Derives f.phrase f.tokens f) (phrase : Phrase) :
    Derives phrase (encloseTokens (f.needsParensAs phrase) f.tokens) f := by
  match phrase, f, h with
  | .expression, _, h => exact h.toExpression
  | .term, condition _, h => exact .factor h
  | .term, join .and _ _, h => exact h
  | .term, join .or _ _, h => exact .factor (derives_enclosed h)
  | .factor, condition _, h => exact h
  | .factor, join _ _ _, h => exact derives_enclosed h

/-- An operand with the parentheses it needs is what its connective asks for. -/
theorem derives_operand {f : Formula} (h : Derives f.phrase f.tokens f) (op : Connective)
    (side : Side) :
    Derives (op.operand side) (encloseTokens (f.needsParens op side) f.tokens) f := by
  rw [needsParens_eq]
  exact derives_as h (op.operand side)

/-- The tokens of the canonical text derive the formula, as the phrase of its connective. -/
theorem derives_phrase (f : Formula) : Derives f.phrase f.tokens f := by
  induction f with
  | condition c => exact .condition c
  | join op left right ihleft ihright =>
    cases op with
    | and => exact .and (derives_operand ihleft .and .left) (derives_operand ihright .and .right)
    | or => exact .or (derives_operand ihleft .or .left) (derives_operand ihright .or .right)

/-- **The tokens of the canonical text derive the formula.** -/
theorem derives_tokens (f : Formula) : Derives .expression f.tokens f :=
  f.derives_phrase.toExpression

/-! ## Nesting -/

/-- Parentheses around an operand add a level. -/
theorem nestingFrom_encloseTokens (parens : Bool) {ts : List Token} {f : Formula}
    (h : Derives .expression ts f) (opened : Nat) :
    Token.nestingFrom opened (encloseTokens parens ts) =
      Token.nestingFrom (opened + parens.toNat) ts := by
  cases parens with
  | false => rfl
  | true => exact h.nestingFrom_parens opened

/-- An operand with the parentheses it needs derives its formula. -/
theorem derives_encloseTokens (parens : Bool) (f : Formula) :
    Derives .expression (encloseTokens parens f.tokens) f := by
  cases parens with
  | false => exact f.derives_tokens
  | true => exact (derives_enclosed f.derives_tokens).toExpression

/-- **The parentheses of the canonical text nest as deep as the formula says.** -/
theorem nestingFrom_tokens (f : Formula) (opened : Nat) :
    Token.nestingFrom opened f.tokens = opened + f.nesting := by
  induction f generalizing opened with
  | condition c => rfl
  | join op left right ihleft ihright =>
    have hleft := derives_encloseTokens (left.needsParens op .left) left
    rw [tokens, hleft.nestingFrom_join, nestingFrom_encloseTokens _ left.derives_tokens,
      nestingFrom_encloseTokens _ right.derives_tokens, ihleft, ihright, nesting]
    omega

/-- The canonical text nests as deep as the formula says. -/
theorem nesting_tokens (f : Formula) : Token.nesting f.tokens = f.nesting := by
  rw [Token.nesting, nestingFrom_tokens, Nat.zero_add]

/-! ## Spelling -/

/-- The conditions of the formula have a spelling. -/
def Lexable (f : Formula) : Prop := ∀ c ∈ f.conditions, c.Lexable

/-- Whether a formula has a spelling can be told from its conditions. -/
instance : DecidablePred Lexable := fun f =>
  inferInstanceAs (Decidable (∀ c ∈ f.conditions, c.Lexable))

/-- A joined formula has a spelling when both operands have. -/
theorem lexable_join {op : Connective} {left right : Formula} :
    (join op left right).Lexable ↔ left.Lexable ∧ right.Lexable := by
  simp [Lexable, conditions, or_imp, forall_and]

end Formula

/-- Blanks may stand before a text. -/
theorem Token.Spelled.blanks {ts : List Token} {cs blanks : List Char} (h : Token.Spelled ts cs)
    (hblanks : ∀ c ∈ blanks, isBlank c = true) : Token.Spelled ts (blanks ++ cs) := by
  have happend {more : List Char} (hmore : ∀ c ∈ more, isBlank c = true) :
      ∀ c ∈ blanks ++ more, isBlank c = true :=
    fun c hc => (List.mem_append.mp hc).elim (hblanks c) (hmore c)
  cases h with
  | nil hmore => exact .nil (happend hmore)
  | cons hmore hspelling hrest =>
    rw [← List.append_assoc]
    exact .cons (happend hmore) hspelling hrest

/-- A token may stand before a text without a blank between them, where its spelling allows it. -/
theorem Token.Spelled.token {t : Token} {ts : List Token} {s rest : List Char}
    (hspelling : t.Spelling s rest) (h : Token.Spelled ts rest) :
    Token.Spelled (t :: ts) (s ++ rest) := by
  have hblanks : ∀ c ∈ ([] : List Char), isBlank c = true := by simp
  exact .cons hblanks hspelling h

namespace Formula

/-- The text of a formula in parentheses spells its tokens in parentheses. -/
theorem spelled_enclose {f : Formula}
    (ih : ∀ {ts : List Token} {rest : List Char}, Scan.StopsAt Scan.isNameChar rest →
      Token.Spelled ts rest → Token.Spelled (f.tokens ++ ts) (f.text.toList ++ rest))
    (parens : Bool) {ts : List Token} {rest : List Char} (hstop : Scan.StopsAt Scan.isNameChar rest)
    (hrest : Token.Spelled ts rest) :
    Token.Spelled (encloseTokens parens f.tokens ++ ts)
      ((enclose parens f.text).toList ++ rest) := by
  cases parens with
  | false => exact ih hstop hrest
  | true =>
    have hclose : Token.Spelled (.closeParen :: ts) (')' :: rest) :=
      .token (.closeParen rest) hrest
    have hinner := ih (Scan.stopsAt_cons.mpr (by decide)) hclose
    simpa [encloseTokens, enclose] using
      Token.Spelled.token (.openParen (f.text.toList ++ ')' :: rest)) hinner

/-- **The canonical text spells its tokens**, before any text that does not go on with a word.

**Proof sketch.** By induction on the formula. A condition must not run into a word, and what
follows an operand is a blank, a closing parenthesis or the text after the formula. -/
theorem spelled_text {f : Formula} (hf : f.Lexable) {ts : List Token} {rest : List Char}
    (hstop : Scan.StopsAt Scan.isNameChar rest) (hrest : Token.Spelled ts rest) :
    Token.Spelled (f.tokens ++ ts) (f.text.toList ++ rest) := by
  induction f generalizing ts rest with
  | condition c =>
    have hc : c.Lexable := hf c (by simp [conditions])
    exact .token (hc.spelling hstop) hrest
  | join op left right ihleft ihright =>
    obtain ⟨hleft, hright⟩ := lexable_join.mp hf
    have hblank : ∀ c ∈ [' '], isBlank c = true := List.forall_mem_singleton.mpr (by decide)
    have hspace (cs : List Char) : Scan.StopsAt Scan.isNameChar (' ' :: cs) :=
      Scan.stopsAt_cons.mpr (by decide)
    have hafter := (spelled_enclose (ihright hright) (right.needsParens op .right) hstop
      hrest).blanks hblank
    have hkeyword := (Token.Spelled.token (.connective op (hspace _)) hafter).blanks hblank
    simpa [tokens, text] using
      spelled_enclose (ihleft hleft) (left.needsParens op .left) (hspace _) hkeyword

/-- The canonical text of a formula spells its tokens. -/
theorem spelled_tokens {f : Formula} (hf : f.Lexable) : Token.Spelled f.tokens f.text.toList := by
  have hend : Token.Spelled [] [] := .nil (by simp)
  have hspelled := spelled_text hf (Scan.stopsAt_nil _) hend
  rwa [List.append_nil, List.append_nil] at hspelled

/-- The canonical text scans to its tokens. -/
theorem scan_text {f : Formula} (hf : f.Lexable) : Token.scan f.text = .ok f.tokens :=
  Token.scan_eq_ok_iff_tokens.mpr (Scan.tokens_of_spelled (spelled_tokens hf))

/-! ## Reading back -/

/-- Text that scans is parsed by its tokens. -/
theorem parse_of_scan {limit : Nat} {s : String} {ts : List Token} (h : Token.scan s = .ok ts) :
    parse limit s = (ofTokens limit ts).mapError .grammatical := by
  rw [parse, h]
  dsimp only
  cases ofTokens limit ts <;> rfl

/-- **What is parsed**: a formula within the depth limit, derived from tokens that the text spells
and that nest within the limit.

**Proof sketch.** Parsing is scanning and then reading, and each of the two is known from both
sides. -/
theorem parse_eq_ok_iff {limit : Nat} {s : String} {f : Formula} :
    parse limit s = .ok f ↔ ∃ ts, Token.Spelled ts s.toList ∧ Derives .expression ts f ∧
      Token.nesting ts ≤ limit ∧ f.depth ≤ maxDepth := by
  constructor
  · intro h
    cases hscan : Token.scan s with
    | error e => simp [parse, hscan] at h
    | ok ts =>
      rw [parse_of_scan hscan] at h
      cases hof : ofTokens limit ts with
      | error e =>
        have herror : Except.error (RuleTextError.grammatical e) = Except.ok f := by rwa [hof] at h
        cases herror
      | ok g =>
        have hok : (Except.ok g : Except RuleTextError Formula) = .ok f := by rwa [hof] at h
        obtain rfl := Except.ok.inj hok
        have htokens := Token.scan_eq_ok_iff_tokens.mp hscan
        exact ⟨ts, Scan.spelled_of_tokens htokens, ofTokens_eq_ok_iff.mp hof⟩
  · rintro ⟨ts, hspelled, hderives⟩
    have hscan := Token.scan_eq_ok_iff_tokens.mpr (Scan.tokens_of_spelled hspelled)
    rw [parse_of_scan hscan, ofTokens_eq_ok_iff.mpr hderives]
    rfl

/-- The conditions of a formula that was parsed have a spelling. -/
theorem lexable_of_parse {limit : Nat} {s : String} {f : Formula} (h : parse limit s = .ok f) :
    f.Lexable := by
  obtain ⟨ts, hspelled, hderives, -⟩ := parse_eq_ok_iff.mp h
  intro c hc
  rw [hderives.conditions_eq, List.mem_filterMap] at hc
  obtain ⟨t, ht, htc⟩ := hc
  cases t with
  | condition d =>
    obtain rfl : d = c := Option.some.inj htc
    exact hspelled.lexable ht
  | openParen => cases htc
  | closeParen => cases htc
  | connective op => cases htc

/-- The canonical text of a formula within the limits reads back. -/
theorem parse_text {f : Formula} (hf : f.Lexable) {limit : Nat} (hdepth : f.depth ≤ maxDepth)
    (hnesting : f.nesting ≤ limit) : parse limit f.text = .ok f := by
  have hlimit : Token.nesting f.tokens ≤ limit := f.nesting_tokens.symm ▸ hnesting
  exact parse_eq_ok_iff.mpr ⟨f.tokens, spelled_tokens hf, f.derives_tokens, hlimit, hdepth⟩

/-- **Reading undoes writing, limits included**: the canonical text of a formula whose conditions
have a spelling reads back as the formula when its depth and its nesting are within the limits, and
is refused for one of the two limits when they are not.

**Proof sketch.** The canonical text scans to the canonical tokens, which derive the formula and
nest as deep as it does. So they are read within the limits, and refused for what exceeds them. -/
theorem parse_text_within_limits (f : Formula) (hf : f.Lexable) (limit : Nat) :
    (f.depth ≤ maxDepth ∧ f.nesting ≤ limit → parse limit f.text = .ok f) ∧
    (¬ (f.depth ≤ maxDepth ∧ f.nesting ≤ limit) → ∃ position,
      parse limit f.text = .error (.grammatical ⟨position, .nestingTooDeep limit⟩) ∨
      parse limit f.text = .error (.grammatical ⟨position, .expressionTooDeep maxDepth⟩)) := by
  refine ⟨fun h => parse_text hf h.1 h.2, fun h => ?_⟩
  have hparse : parse limit f.text = _ := parse_of_scan (scan_text hf)
  rcases ofTokens_of_derives limit f.derives_tokens with ⟨hwithin, _⟩ | ⟨e, he, herror⟩
  · have hnesting := hwithin.nesting
    rw [nestingFrom_tokens, Nat.zero_add] at hnesting
    exact absurd ⟨hwithin.depth, hnesting⟩ h
  · rw [herror] at hparse
    cases he with
    | nesting position _ => exact ⟨position, .inl hparse⟩
    | depth position _ => exact ⟨position, .inr hparse⟩

/-- A formula that needs one pair of parentheses, with parentheses and a keyword inside a text. -/
theorem parse_text_one_pair :
    let f : Formula := .join .and
      (.join .or (.condition ⟨"a", .equal, .text "x) AND (y"⟩)
        (.condition ⟨"b_1", .less, .number (.ofBits 0xc004000000000000)⟩))
      (.condition ⟨"ORDER.id", .atLeast, .number (.ofBits 0x4008000000000000)⟩)
    f.Lexable ∧ (f.depth ≤ maxDepth ∧ f.nesting ≤ 1) ∧ parse 1 f.text = .ok f ∧
      ¬ (f.depth ≤ maxDepth ∧ f.nesting ≤ 0) ∧ ∃ position,
        parse 0 f.text = .error (.grammatical ⟨position, .nestingTooDeep 0⟩) ∨
        parse 0 f.text = .error (.grammatical ⟨position, .expressionTooDeep maxDepth⟩) := by
  intro f
  have hf : f.Lexable := by decide
  have hwithin : f.depth ≤ maxDepth ∧ f.nesting ≤ 1 := by decide
  have hexceeds : ¬ (f.depth ≤ maxDepth ∧ f.nesting ≤ 0) := by decide
  exact ⟨hf, hwithin, (parse_text_within_limits f hf 1).1 hwithin, hexceeds,
    (parse_text_within_limits f hf 0).2 hexceeds⟩

end Formula

end Eligibility
