import Eligibility.Proofs.Derivation
import Mathlib.Data.Set.Card

/-!
# Parentheses that are never closed

A parenthesis is never closed if, however far one reads on, no more parentheses are closed than were
opened after it. Reading the tokens once with a stack of positions finds these parentheses: one that
opens is put on the stack, one that closes takes off the innermost.

## Main definitions

* `Token.StaysOpen` — the parenthesis at a position is never closed.
* `Token.unclosed` — the positions on the stack after all tokens, the innermost first.

## Main results

* `Token.mem_unclosed_iff` — the stack holds the parentheses that are never closed.
* `Token.ncard_staysOpen`, `Token.innermost_of_unclosed` — its length is their number, and its head
  is the innermost of them.
* `Derives.unclosedFrom_eq` — a phrase of the grammar leaves the stack as it is.
-/

set_option relaxedAutoImplicit false
set_option autoImplicit false

namespace Eligibility

namespace Token

/-! ## The stack -/

/-- The parenthesis at a position opens and is never closed: however far one reads on, no more are
closed than were opened after it. -/
def StaysOpen (ts : List Token) (i : Nat) : Prop :=
  ts[i]? = some openParen ∧
    ∀ us, us <+: ts.drop (i + 1) → us.count closeParen ≤ us.count openParen

/-- The positions of the parentheses that are open after tokens from `position` on, the innermost
first, when some are open before them. -/
def unclosedFrom : (position : Nat) → (opened : List Nat) → List Token → List Nat
  | _, opened, [] => opened
  | position, opened, openParen :: ts => unclosedFrom (position + 1) (position :: opened) ts
  | position, opened, closeParen :: ts => unclosedFrom (position + 1) opened.tail ts
  | position, opened, connective _ :: ts => unclosedFrom (position + 1) opened ts
  | position, opened, condition _ :: ts => unclosedFrom (position + 1) opened ts

/-- The positions of the parentheses that are never closed, the innermost first. -/
def unclosed (ts : List Token) : List Nat := unclosedFrom 0 [] ts

/-- How many parentheses are closed that were not opened among the tokens. -/
def excess : List Token → Nat
  | [] => 0
  | openParen :: ts => excess ts - 1
  | closeParen :: ts => excess ts + 1
  | connective _ :: ts => excess ts
  | condition _ :: ts => excess ts

/-- Parentheses that were open before are closed from the innermost on, as many as are closed in
excess.

**Proof sketch.** By induction on the tokens. A parenthesis that opens comes to stand above those
that were open before, and one that closes takes the uppermost away. -/
theorem unclosedFrom_eq_append (position : Nat) (opened : List Nat) (ts : List Token) :
    unclosedFrom position opened ts = unclosedFrom position [] ts ++ opened.drop (excess ts) := by
  induction ts generalizing position opened with
  | nil => rfl
  | cons t ts ih =>
    cases t with
    | openParen =>
      simp only [unclosedFrom, excess]
      rw [ih _ (position :: opened), ih _ [position], List.append_assoc]
      cases excess ts <;> simp
    | closeParen =>
      simp only [unclosedFrom, excess]
      rw [ih _ opened.tail, ih _ [].tail, List.drop_tail]
      simp
    | connective | condition =>
      simp only [unclosedFrom, excess]
      exact ih _ opened

/-! ## What the stack holds -/

/-- The excess is the most by which the closed parentheses outnumber the opened ones.

**Proof sketch.** By induction on the tokens. The beginnings of the list are the empty one and those
of the rest with the first token in front, which adds to one of the two counts if it is a
parenthesis. -/
theorem excess_le_iff (n : Nat) (ts : List Token) :
    excess ts ≤ n ↔ ∀ us, us <+: ts → us.count closeParen ≤ us.count openParen + n := by
  induction ts generalizing n with
  | nil => simp [excess]
  | cons t ts ih =>
    have hcons : (∀ us, us <+: t :: ts → us.count closeParen ≤ us.count openParen + n) ↔
        ∀ us, us <+: ts → (t :: us).count closeParen ≤ (t :: us).count openParen + n := by
      constructor
      · intro h us hus
        exact h (t :: us) (List.cons_prefix_cons.mpr ⟨rfl, hus⟩)
      · intro h us hus
        rcases List.prefix_cons_iff.mp hus with rfl | ⟨vs, rfl, hvs⟩
        · exact Nat.zero_le _
        · exact h vs hvs
    rw [hcons]
    cases t with
    | openParen =>
      rw [excess, Nat.sub_le_iff_le_add, ih]
      simp [Nat.add_right_comm, Nat.add_assoc]
    | closeParen =>
      cases n with
      | zero =>
        simp only [excess]
        constructor
        · intro h
          omega
        · intro h
          simpa using h [] List.nil_prefix
      | succ n =>
        rw [excess, Nat.add_le_add_iff_right, ih]
        simp [← Nat.add_assoc]
    | connective | condition =>
      rw [excess, ih]
      simp

/-- The first token stays open if it opens and nothing is closed in excess after it. -/
theorem staysOpen_zero_iff (t : Token) (ts : List Token) :
    StaysOpen (t :: ts) 0 ↔ t = openParen ∧ excess ts = 0 := by
  have hexcess := excess_le_iff 0 ts
  simp only [Nat.le_zero, Nat.add_zero] at hexcess
  simp [StaysOpen, hexcess]

/-- A token in front does not change which parentheses after it stay open. -/
theorem staysOpen_succ_iff (t : Token) (ts : List Token) (i : Nat) :
    StaysOpen (t :: ts) (i + 1) ↔ StaysOpen ts i := by
  simp [StaysOpen]

/-- Reading the parentheses finds those that are never closed, wherever the tokens start.

**Proof sketch.** By induction on the tokens. A first parenthesis lies at the bottom of the stack
and is left there if nothing is closed in excess after it. -/
theorem mem_unclosedFrom_iff (position : Nat) (ts : List Token) (i : Nat) :
    i ∈ unclosedFrom position [] ts ↔ ∃ j, i = position + j ∧ StaysOpen ts j := by
  induction ts generalizing position with
  | nil => simp [unclosedFrom, StaysOpen]
  | cons t ts ih =>
    -- the parentheses after the first token, counted from the first token on
    have hsucc : (∃ j, i = position + j ∧ StaysOpen (t :: ts) j) ↔
        (i = position ∧ t = openParen ∧ excess ts = 0) ∨
          ∃ j, i = position + 1 + j ∧ StaysOpen ts j := by
      constructor
      · rintro ⟨_ | j, hi, hj⟩
        · exact .inl ⟨hi, (staysOpen_zero_iff t ts).mp hj⟩
        · exact .inr ⟨j, by omega, (staysOpen_succ_iff t ts j).mp hj⟩
      · rintro (⟨hi, hopen⟩ | ⟨j, hi, hj⟩)
        · exact ⟨0, hi, (staysOpen_zero_iff t ts).mpr hopen⟩
        · exact ⟨j + 1, by omega, (staysOpen_succ_iff t ts j).mpr hj⟩
    rw [hsucc, ← ih]
    cases t with
    | openParen =>
      rw [unclosedFrom, unclosedFrom_eq_append, List.mem_append, or_comm]
      cases excess ts <;> simp
    | closeParen | connective | condition => simp [unclosedFrom]

/-- **The open parentheses are those that are never closed.** -/
theorem mem_unclosed_iff {ts : List Token} {i : Nat} : i ∈ unclosed ts ↔ StaysOpen ts i := by
  rw [unclosed, mem_unclosedFrom_iff]
  simp

/-- Positions of open parentheses decrease, and stand before what follows. -/
theorem pairwise_unclosedFrom {position : Nat} {opened : List Nat} (ts : List Token)
    (hopened : opened.Pairwise (· > ·)) (hlt : ∀ i ∈ opened, i < position) :
    (unclosedFrom position opened ts).Pairwise (· > ·) := by
  induction ts generalizing position opened with
  | nil => exact hopened
  | cons t ts ih =>
    have hlater : ∀ i ∈ opened, i < position + 1 := fun i hi => Nat.lt_succ_of_lt (hlt i hi)
    cases t with
    | openParen =>
      refine ih (List.pairwise_cons.mpr ⟨hlt, hopened⟩) ?_
      simpa using hlater
    | closeParen => exact ih hopened.tail fun i hi => hlater i (List.mem_of_mem_tail hi)
    | connective | condition => exact ih hopened hlater

/-- The innermost open parenthesis is the last one. -/
theorem pairwise_unclosed (ts : List Token) : (unclosed ts).Pairwise (· > ·) :=
  pairwise_unclosedFrom ts .nil (by simp)

/-- The list of open parentheses is as long as there are parentheses that are never closed. -/
theorem ncard_staysOpen (ts : List Token) : {i | StaysOpen ts i}.ncard = (unclosed ts).length := by
  have hset : {i | StaysOpen ts i} = ((unclosed ts).toFinset : Set Nat) := by
    ext i
    simp [mem_unclosed_iff]
  have hnodup : (unclosed ts).Nodup := (pairwise_unclosed ts).imp Nat.ne_of_gt
  rw [hset, Set.ncard_coe_finset, List.toFinset_card_of_nodup hnodup]

/-- The head of the list is the innermost of the parentheses that are never closed. -/
theorem innermost_of_unclosed {ts : List Token} {i : Nat} {is : List Nat}
    (h : unclosed ts = i :: is) :
    StaysOpen ts i ∧ ∀ j, StaysOpen ts j → j ≤ i := by
  refine ⟨mem_unclosed_iff.mp (h ▸ List.mem_cons_self), fun j hj => ?_⟩
  have hmem := mem_unclosed_iff.mpr hj
  have hpairwise := pairwise_unclosed ts
  rw [h] at hmem hpairwise
  rcases List.mem_cons.mp hmem with rfl | hmem
  · exact Nat.le_refl _
  · exact Nat.le_of_lt ((List.pairwise_cons.mp hpairwise).1 j hmem)

/-! ## Phrases -/

/-- Open parentheses are found one list after the other. -/
theorem unclosedFrom_append (position : Nat) (opened : List Nat) (ts us : List Token) :
    unclosedFrom position opened (ts ++ us) =
      unclosedFrom (position + ts.length) (unclosedFrom position opened ts) us := by
  induction ts generalizing position opened with
  | nil => rfl
  | cons t ts ih =>
    have hlength : position + (t :: ts).length = position + 1 + ts.length := by
      simp only [List.length_cons]
      omega
    rw [hlength]
    cases t <;> exact ih _ _

end Token

/-- A phrase closes exactly the parentheses that it opens. -/
theorem Derives.unclosedFrom_eq {phrase : Phrase} {ts : List Token} {f : Formula}
    (h : Derives phrase ts f) (position : Nat) (opened : List Nat) :
    Token.unclosedFrom position opened ts = opened := by
  induction h generalizing position opened with
  | condition c => rfl
  | parens _ ih => simp [Token.unclosedFrom, Token.unclosedFrom_append, ih]
  | factor _ ih | term _ ih => exact ih position opened
  | and _ _ ihf ihg | or _ _ ihf ihg =>
    simp [Token.unclosedFrom_append, Token.unclosedFrom, ihf, ihg]

end Eligibility
