import Eligibility.Formula.Grammar

/-!
# Derivations

The grammar of rule text as a relation between lists of tokens and formulas, apart from any way of
reading it. A repetition is derived one operand at a time, which folds its formula to the left.

## Main definitions

* `Derives` — the tokens derive the formula as an expression, a term or a factor.
* `Chain` — one or more operands with a connective between them, folded to the left.
* `Token.nesting` — how deep the parentheses of a list of tokens nest.

## Main results

* `Derives.term_iff_chain`, `Derives.expression_iff_chain` — a term is a chain of factors and an
  expression a chain of terms.
* `Derives.conditions_eq` — the leaves of the formula are the conditions among the tokens, in order.
* `Derives.nestingFrom_append` — the tokens of a phrase open what they close.
-/

set_option relaxedAutoImplicit false
set_option autoImplicit false

namespace Eligibility

/-- What a list of tokens can be within rule text. -/
inductive Phrase where
  | expression
  | term
  | factor

/-- **The grammar of rule text**: the tokens make up the phrase and their tree is the formula. -/
inductive Derives : Phrase → List Token → Formula → Prop where
  | condition (c : Condition) : Derives .factor [.condition c] (.condition c)
  | parens {ts : List Token} {f : Formula} :
    Derives .expression ts f → Derives .factor (.openParen :: (ts ++ [.closeParen])) f
  | factor {ts : List Token} {f : Formula} : Derives .factor ts f → Derives .term ts f
  | and {ts us : List Token} {f g : Formula} : Derives .term ts f → Derives .factor us g →
    Derives .term (ts ++ .connective .and :: us) (.join .and f g)
  | term {ts : List Token} {f : Formula} : Derives .term ts f → Derives .expression ts f
  | or {ts us : List Token} {f g : Formula} : Derives .expression ts f → Derives .term us g →
    Derives .expression (ts ++ .connective .or :: us) (.join .or f g)

/-! ## Repetitions -/

/-- One or more operands with a connective between them, their formulas joined from the left. -/
inductive Chain (op : Connective) (operand : Phrase) : List Token → Formula → Prop where
  | intro {ts : List Token} {f : Formula} (rest : List (List Token × Formula)) :
    Derives operand ts f → (∀ p ∈ rest, Derives operand p.1 p.2) →
    Chain op operand (ts ++ rest.flatMap fun p => .connective op :: p.1)
      (rest.foldl (fun left p => .join op left p.2) f)

/-- A chain goes on with one more operand. -/
theorem Chain.snoc {op : Connective} {operand : Phrase} {ts us : List Token} {f g : Formula}
    (h : Chain op operand ts f) (hg : Derives operand us g) :
    Chain op operand (ts ++ .connective op :: us) (.join op f g) := by
  obtain @⟨ts, f, rest, hf, hrest⟩ := h
  have hall : ∀ p ∈ rest ++ [(us, g)], Derives operand p.1 p.2 := by
    intro p hp
    rcases List.mem_append.mp hp with hp | hp
    · exact hrest p hp
    · rw [List.mem_singleton.mp hp]
      exact hg
  have hsnoc : Chain op operand _ _ := .intro (rest ++ [(us, g)]) hf hall
  simpa using hsnoc

/-- A single operand is a chain. -/
theorem Chain.single {op : Connective} {operand : Phrase} {ts : List Token} {f : Formula}
    (h : Derives operand ts f) : Chain op operand ts f := by
  have hsingle : Chain op operand _ _ := .intro [] h (by simp)
  simpa using hsingle

/-- What holds of single operands and is kept by one more operand holds of chains. -/
theorem Chain.induction {op : Connective} {operand : Phrase} {P : List Token → Formula → Prop}
    (one : ∀ ts f, Derives operand ts f → P ts f)
    (more : ∀ ts us f g, P ts f → Derives operand us g →
      P (ts ++ .connective op :: us) (.join op f g))
    {ts : List Token} {f : Formula} (h : Chain op operand ts f) : P ts f := by
  obtain @⟨ts, f, rest, hf, hrest⟩ := h
  have hP := one ts f hf
  clear hf
  induction rest generalizing ts f with
  | nil => simpa using hP
  | cons p rest ih =>
    have hp := more ts p.1 f p.2 hP (hrest p List.mem_cons_self)
    simpa using ih (fun q hq => hrest q (List.mem_cons_of_mem p hq)) hp

namespace Derives

/-- A term is one or more factors with `AND` between them, joined from the left. -/
theorem term_iff_chain {ts : List Token} {f : Formula} :
    Derives .term ts f ↔ Chain .and .factor ts f := by
  constructor
  · intro h
    generalize hphrase : Phrase.term = phrase at h
    induction h with
    | factor hf => exact .single hf
    | and _ hg ih => exact (ih rfl).snoc hg
    | condition | parens | term | or => cases hphrase
  · exact Chain.induction (fun _ _ => factor) (fun _ _ _ _ => and)

/-- An expression is one or more terms with `OR` between them, joined from the left. -/
theorem expression_iff_chain {ts : List Token} {f : Formula} :
    Derives .expression ts f ↔ Chain .or .term ts f := by
  constructor
  · intro h
    generalize hphrase : Phrase.expression = phrase at h
    induction h with
    | term hf => exact .single hf
    | or _ hg ih => exact (ih rfl).snoc hg
    | condition | parens | factor | and => cases hphrase
  · exact Chain.induction (fun _ _ => term) (fun _ _ _ _ => or)

/-! ## Leaves -/

/-- A phrase has at least one token. -/
theorem ne_nil {phrase : Phrase} {ts : List Token} {f : Formula} (h : Derives phrase ts f) :
    ts ≠ [] := by
  induction h with
  | condition | parens => exact List.cons_ne_nil _ _
  | factor _ ih | term _ ih => exact ih
  | and | or => simp

end Derives

namespace Token

/-- The condition that a token is, if it is one. -/
def condition? : Token → Option Condition
  | condition c => some c
  | _ => none

/-- An opening parenthesis is no condition. -/
@[simp] theorem condition?_openParen : condition? openParen = none := rfl

/-- A closing parenthesis is no condition. -/
@[simp] theorem condition?_closeParen : condition? closeParen = none := rfl

/-- A connective is no condition. -/
@[simp] theorem condition?_connective (op : Connective) : condition? (connective op) = none := rfl

/-- A condition is the condition of its token. -/
@[simp] theorem condition?_condition (c : Condition) : condition? (condition c) = some c := rfl

end Token

/-- The leaves of a derived formula are the conditions among its tokens, from left to right. -/
theorem Derives.conditions_eq {phrase : Phrase} {ts : List Token} {f : Formula}
    (h : Derives phrase ts f) : f.conditions = ts.filterMap Token.condition? := by
  induction h with
  | condition c => rfl
  | parens _ ih => simp [ih, List.filterMap_cons]
  | factor _ ih | term _ ih => exact ih
  | and _ _ ihf ihg | or _ _ ihf ihg => simp [Formula.conditions, ihf, ihg, List.filterMap_cons]

/-! ## Nesting -/

namespace Token

/-- How deep parentheses nest while tokens are read, when some are open already. -/
def nestingFrom (opened : Nat) : List Token → Nat
  | [] => opened
  | openParen :: ts => nestingFrom (opened + 1) ts
  | closeParen :: ts => max opened (nestingFrom (opened - 1) ts)
  | connective _ :: ts => nestingFrom opened ts
  | condition _ :: ts => nestingFrom opened ts

/-- How deep the parentheses of a list of tokens nest. -/
def nesting (ts : List Token) : Nat := nestingFrom 0 ts

/-- The parentheses that are open already count. -/
theorem le_nestingFrom (opened : Nat) (ts : List Token) : opened ≤ nestingFrom opened ts := by
  induction ts generalizing opened with
  | nil => exact Nat.le_refl _
  | cons t ts ih =>
    cases t with
    | openParen => exact Nat.le_trans (Nat.le_succ _) (ih _)
    | closeParen => exact Nat.le_max_left ..
    | connective | condition => exact ih opened

end Token

open Token in
/-- The tokens of a phrase close all parentheses that they open, so what follows starts at the same
level.

**Proof sketch.** By induction on the derivation. Behind a closing parenthesis the count is where it
was before the opening one. -/
theorem Derives.nestingFrom_append {phrase : Phrase} {ts : List Token} {f : Formula}
    (h : Derives phrase ts f) (opened : Nat) (rest : List Token) :
    nestingFrom opened (ts ++ rest) = max (nestingFrom opened ts) (nestingFrom opened rest) := by
  induction h generalizing opened rest with
  | condition c => simp [nestingFrom, le_nestingFrom]
  | @parens ts f _ ih =>
    have hclosed : nestingFrom opened (.openParen :: (ts ++ [.closeParen])) =
        max (nestingFrom (opened + 1) ts) (max (opened + 1) opened) :=
      ih (opened + 1) [.closeParen]
    have hrest : nestingFrom opened (.openParen :: (ts ++ .closeParen :: rest)) =
        max (nestingFrom (opened + 1) ts) (max (opened + 1) (nestingFrom opened rest)) :=
      ih (opened + 1) (.closeParen :: rest)
    have := le_nestingFrom opened rest
    simp only [List.cons_append, List.append_assoc, List.nil_append, hclosed, hrest]
    omega
  | factor _ ih | term _ ih => exact ih opened rest
  | and _ _ ihf ihg | or _ _ ihf ihg =>
    simp only [List.append_assoc, List.cons_append, ihf, nestingFrom, ihg, Nat.max_assoc]

end Eligibility
