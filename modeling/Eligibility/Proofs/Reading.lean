import Eligibility.Proofs.Derivation

/-!
# Reading finds the derivation

Reading tokens one at a time gives the formula that the grammar derives, exactly when the tokens and
the formula stay within the bounds.

## Main definitions

* `Reading.read` — the reading after some tokens.
* `Within`, `Exceeds` — tokens and a formula that stay within the bounds, and an error that says
  which bound they exceed.
* `Reading.Accounts` — the tokens that a reading stands for, each at its place in a derivation.

## Main results

* `Derives.run_start` — derived tokens are read, or exceed a bound and are refused for it.
* `Reading.step_accounts`, `Reading.derives_of_run` — what one token and what all tokens keep.
* `Derives.unique` — tokens derive at most one formula.
* `Formula.ofTokens_iff_derives` — tokens give the formula that they derive within the limits.
-/

set_option relaxedAutoImplicit false
set_option autoImplicit false

namespace Eligibility

/-! ## Bounds -/

/-- The tokens, read inside some open parentheses, and the formula stay within the bounds. -/
structure Within (bounds : Bounds) (opened : Nat) (ts : List Token) (f : Formula) : Prop where
  nesting : Token.nestingFrom opened ts ≤ bounds.nesting
  depth : f.depth ≤ bounds.depth

/-- The error names a bound that the tokens, read inside some open parentheses, or the formula
exceed. -/
inductive Exceeds (bounds : Bounds) (opened : Nat) (ts : List Token) (f : Formula) :
    GrammarError → Prop where
  | nesting (position : Nat) : bounds.nesting < Token.nestingFrom opened ts →
    Exceeds bounds opened ts f ⟨position, .nestingTooDeep bounds.nesting⟩
  | depth (position : Nat) : bounds.depth < f.depth →
    Exceeds bounds opened ts f ⟨position, .expressionTooDeep bounds.depth⟩

variable {bounds : Bounds}

/-- What exceeds a bound is not within the bounds. -/
theorem Exceeds.not_within {opened : Nat} {ts : List Token} {f : Formula} {e : GrammarError}
    (h : Exceeds bounds opened ts f e) : ¬ Within bounds opened ts f := by
  intro hw
  cases h with
  | nesting _ h => exact Nat.not_le.mpr h hw.nesting
  | depth _ h => exact Nat.not_le.mpr h hw.depth

/-- More tokens and a larger formula exceed a bound for the same reason. -/
theorem Exceeds.mono {opened opened' : Nat} {ts ts' : List Token} {f f' : Formula}
    {e : GrammarError} (h : Exceeds bounds opened ts f e)
    (hts : Token.nestingFrom opened ts ≤ Token.nestingFrom opened' ts') (hf : f.depth ≤ f'.depth) :
    Exceeds bounds opened' ts' f' e := by
  cases h with
  | nesting position h => exact .nesting position (Nat.lt_of_lt_of_le h hts)
  | depth position h => exact .depth position (Nat.lt_of_lt_of_le h hf)

/-- The nesting of tokens in parentheses is that of what stands between them. -/
theorem Derives.nestingFrom_parens {ts : List Token} {f : Formula} (h : Derives .expression ts f)
    (opened : Nat) : Token.nestingFrom opened (.openParen :: (ts ++ [.closeParen])) =
      Token.nestingFrom (opened + 1) ts := by
  have happend : Token.nestingFrom opened (.openParen :: (ts ++ [.closeParen])) =
      max (Token.nestingFrom (opened + 1) ts) (max (opened + 1) opened) :=
    h.nestingFrom_append (opened + 1) [.closeParen]
  have := Token.le_nestingFrom (opened + 1) ts
  omega

/-- The nesting of two operands is that of the one that nests deeper. -/
theorem Derives.nestingFrom_join {phrase : Phrase} {ts : List Token} {f : Formula}
    (h : Derives phrase ts f) (opened : Nat) (op : Connective) (us : List Token) :
    Token.nestingFrom opened (ts ++ .connective op :: us) =
      max (Token.nestingFrom opened ts) (Token.nestingFrom opened us) :=
  h.nestingFrom_append opened (.connective op :: us)

namespace Reading

/-! ## Reading some of the tokens -/

/-- The reading after some tokens, the first of them at `position`. -/
def read (bounds : Bounds) : (position : Nat) → Reading → List Token → Except GrammarError Reading
  | _, reading, [] => .ok reading
  | position, reading, t :: ts => do
    read bounds (position + 1) (← reading.step bounds position t) ts

/-- Tokens are read one list after the other. -/
theorem read_append (position : Nat) (r : Reading) (ts us : List Token) :
    read bounds position r (ts ++ us) =
      (read bounds position r ts).bind (read bounds (position + ts.length) · us) := by
  induction ts generalizing position r with
  | nil => rfl
  | cons t ts ih =>
    simp only [List.cons_append, read, List.length_cons]
    cases step bounds position r t with
    | error e => rfl
    | ok r' =>
      have hlen : position + (ts.length + 1) = position + 1 + ts.length := by omega
      rw [hlen]
      exact ih (position + 1) r'

/-- All tokens are read before the reading is finished. -/
theorem run_eq_read (position : Nat) (r : Reading) (ts : List Token) :
    run bounds position r ts =
      (read bounds position r ts).bind (finish bounds (position + ts.length)) := by
  induction ts generalizing position r with
  | nil => rfl
  | cons t ts ih =>
    simp only [run, read, List.length_cons]
    cases step bounds position r t with
    | error e => rfl
    | ok r' =>
      have hlen : position + (ts.length + 1) = position + 1 + ts.length := by omega
      rw [hlen]
      exact ih (position + 1) r'

/-- An operand that waits is joined where the tree stays within the bounds. -/
theorem join_some (op : Connective) (w : Waiting) (right : Formula) :
    join bounds op (some w) right =
      if (Formula.join op w.left right).depth ≤ bounds.depth then .ok (.join op w.left right)
      else .error ⟨w.position, .expressionTooDeep bounds.depth⟩ := rfl

/-! ## Derived tokens are read

The three kinds of phrase leave different readings behind. A factor is joined with the operand that
waits for it at once, a term ends as the last operand of a disjunction, and an expression is only
joined when the token after it shows that it is complete. -/

/-- Joining the operands of derived tokens gives their formula, or it exceeds a bound. -/
def Settles (bounds : Bounds) (opened : Nat) (ts : List Token) (f : Formula)
    (joined : Except GrammarError Formula) : Prop :=
  (Within bounds opened ts f ∧ joined = .ok f) ∨
    ∃ e, Exceeds bounds opened ts f e ∧ joined = .error e

/-- **How tokens of a phrase are read** where an operand is expected: as their formula, unless a
bound is exceeded. -/
def Follows (bounds : Bounds) : Phrase → List Token → Formula → Prop
  | .factor, ts, f => ∀ position level outer, outer.length ≤ bounds.nesting →
    (Within bounds outer.length ts f ∧
      read bounds position (expecting level outer) ts = factor bounds level outer f) ∨
    ∃ e, Exceeds bounds outer.length ts f e ∧
      read bounds position (expecting level outer) ts = .error e
  | .term, ts, f => ∀ position disjunction outer, outer.length ≤ bounds.nesting →
    (Within bounds outer.length ts f ∧
      read bounds position (expecting ⟨disjunction, none⟩ outer) ts =
        .ok (complete disjunction f outer)) ∨
    ∃ e, Exceeds bounds outer.length ts f e ∧
      read bounds position (expecting ⟨disjunction, none⟩ outer) ts = .error e
  | .expression, ts, f => ∀ position outer, outer.length ≤ bounds.nesting →
    (∃ disjunction term,
      read bounds position (expecting ⟨none, none⟩ outer) ts =
        .ok (complete disjunction term outer) ∧
      Settles bounds outer.length ts f (join bounds .or disjunction term)) ∨
    ∃ e, Exceeds bounds outer.length ts f e ∧
      read bounds position (expecting ⟨none, none⟩ outer) ts = .error e

/-- A condition is read wherever an operand is expected. -/
theorem follows_condition (c : Condition) :
    Follows bounds .factor [.condition c] (.condition c) := by
  intro position level outer houter
  have hread : read bounds position (expecting level outer) [.condition c] =
      factor bounds level outer (.condition c) := by
    simp only [read, step]
    cases factor bounds level outer (.condition c) <;> rfl
  exact .inl ⟨⟨houter, bounds.depth_pos⟩, hread⟩

/-- An expression in parentheses is read as a factor, unless the parentheses nest too deep.

**Proof sketch.** While there is room for one more parenthesis, the expression within is read with
the level around it put aside, and the closing parenthesis hands the formula to this level.
Otherwise the opening one is refused, and the tokens nest too deep. -/
theorem follows_parens {ts : List Token} {f : Formula} (hf : Derives .expression ts f)
    (ih : Follows bounds .expression ts f) :
    Follows bounds .factor (.openParen :: (ts ++ [.closeParen])) f := by
  intro position level outer houter
  have hnesting := hf.nestingFrom_parens outer.length
  by_cases hopen : outer.length < bounds.nesting
  · have hread :
        read bounds position (expecting level outer) (.openParen :: (ts ++ [.closeParen])) =
        (read bounds (position + 1) (expecting ⟨none, none⟩ ((level, position) :: outer)) ts).bind
          (read bounds (position + 1 + ts.length) · [.closeParen]) := by
      rw [← read_append]
      simp only [read, step, if_pos hopen]
      rfl
    rcases ih (position + 1) ((level, position) :: outer) hopen with
      ⟨disjunction, term, hts, hjoin⟩ | ⟨e, he, hts⟩
    · have hclose : read bounds (position + 1 + ts.length)
          (complete disjunction term ((level, position) :: outer)) [.closeParen] =
            (join bounds .or disjunction term).bind (factor bounds level outer) := by
        simp only [read, step]
        cases join bounds .or disjunction term with
        | error e => rfl
        | ok g =>
          show (factor bounds level outer g).bind _ = factor bounds level outer g
          cases factor bounds level outer g <;> rfl
      rw [hread, hts]
      rcases hjoin with ⟨hwithin, hjoin⟩ | ⟨e, he, hjoin⟩
      · refine .inl ⟨⟨hnesting ▸ hwithin.nesting, hwithin.depth⟩, ?_⟩
        exact hclose.trans (by rw [hjoin]; rfl)
      · refine .inr ⟨e, he.mono (Nat.le_of_eq hnesting.symm) (Nat.le_refl _), ?_⟩
        exact hclose.trans (by rw [hjoin]; rfl)
    · refine .inr ⟨e, he.mono (Nat.le_of_eq hnesting.symm) (Nat.le_refl _), ?_⟩
      rw [hread, hts]
      rfl
  · have hdeep : bounds.nesting <
        Token.nestingFrom outer.length (.openParen :: (ts ++ [.closeParen])) := by
      have := Token.le_nestingFrom (outer.length + 1) ts
      omega
    refine .inr ⟨_, .nesting position hdeep, ?_⟩
    simp only [read, step, if_neg hopen]
    rfl

/-- A factor on its own is read as a term. -/
theorem follows_factor {ts : List Token} {f : Formula} (ih : Follows bounds .factor ts f) :
    Follows bounds .term ts f :=
  fun position disjunction outer houter => ih position ⟨disjunction, none⟩ outer houter

/-- A term on its own is read as an expression. -/
theorem follows_term {ts : List Token} {f : Formula} (ih : Follows bounds .term ts f) :
    Follows bounds .expression ts f := by
  intro position outer houter
  rcases ih position none outer houter with ⟨hwithin, hread⟩ | hread
  · exact .inl ⟨none, f, hread, .inl ⟨hwithin, rfl⟩⟩
  · exact .inr hread

/-- Two operands within the bounds are joined, unless their tree exceeds the depth. -/
theorem settles_join {phrase : Phrase} {opened : Nat} {ts us : List Token} {f g : Formula}
    (hderives : Derives phrase ts f) (hf : Within bounds opened ts f)
    (hg : Within bounds opened us g) (op : Connective) (position : Nat) :
    Settles bounds opened (ts ++ .connective op :: us) (.join op f g)
      (join bounds op (some ⟨f, position⟩) g) := by
  rw [join_some]
  by_cases hdepth : (Formula.join op f g).depth ≤ bounds.depth
  · refine .inl ⟨⟨?_, hdepth⟩, if_pos hdepth⟩
    rw [hderives.nestingFrom_join]
    exact Nat.max_le.mpr ⟨hf.nesting, hg.nesting⟩
  · exact .inr ⟨_, .depth position (Nat.lt_of_not_le hdepth), if_neg hdepth⟩

/-- What exceeds a bound in the left operand exceeds it in the whole. -/
theorem exceeds_of_left {phrase : Phrase} {opened : Nat} {ts us : List Token} {f g : Formula}
    {e : GrammarError} (hderives : Derives phrase ts f) (h : Exceeds bounds opened ts f e)
    (op : Connective) : Exceeds bounds opened (ts ++ .connective op :: us) (.join op f g) e := by
  refine h.mono ?_ ?_
  · rw [hderives.nestingFrom_join]
    exact Nat.le_max_left ..
  · exact Nat.le_succ_of_le (Nat.le_max_left ..)

/-- What exceeds a bound in the right operand exceeds it in the whole. -/
theorem exceeds_of_right {phrase : Phrase} {opened : Nat} {ts us : List Token} {f g : Formula}
    {e : GrammarError} (hderives : Derives phrase ts f) (h : Exceeds bounds opened us g e)
    (op : Connective) : Exceeds bounds opened (ts ++ .connective op :: us) (.join op f g) e := by
  refine h.mono ?_ ?_
  · rw [hderives.nestingFrom_join]
    exact Nat.le_max_right ..
  · exact Nat.le_succ_of_le (Nat.le_max_right ..)

/-- A term goes on with `AND` and a factor.

**Proof sketch.** The term is read first and waits for the factor, which is read with the level
around both put aside. Where both are within the bounds their join is, or it is too deep at the
connective; what exceeds the bounds in one of them exceeds them in both together. -/
theorem follows_and {ts us : List Token} {f g : Formula} (hf : Derives .term ts f)
    (ihf : Follows bounds .term ts f) (ihg : Follows bounds .factor us g) :
    Follows bounds .term (ts ++ .connective .and :: us) (.join .and f g) := by
  intro position disjunction outer houter
  rcases ihf position disjunction outer houter with ⟨hwithin, hts⟩ | ⟨e, he, hts⟩
  · let at_ := position + ts.length
    have hread : read bounds position (expecting ⟨disjunction, none⟩ outer)
        (ts ++ .connective .and :: us) =
          read bounds (at_ + 1) (expecting ⟨disjunction, some ⟨f, at_⟩⟩ outer) us := by
      rw [read_append, hts]
      rfl
    rcases ihg (at_ + 1) ⟨disjunction, some ⟨f, at_⟩⟩ outer houter with
      ⟨hwithin', hus⟩ | ⟨e, he, hus⟩
    · rcases settles_join hf hwithin hwithin' .and at_ with ⟨hall, hjoin⟩ | ⟨e, he, hjoin⟩
      · refine .inl ⟨hall, hread.trans (hus.trans ?_)⟩
        rw [factor, hjoin]
        rfl
      · refine .inr ⟨e, he, hread.trans (hus.trans ?_)⟩
        rw [factor, hjoin]
        rfl
    · exact .inr ⟨e, exceeds_of_right hf he .and, hread.trans hus⟩
  · refine .inr ⟨e, exceeds_of_left hf he .and, ?_⟩
    rw [read_append, hts]
    rfl

/-- An expression goes on with `OR` and a term.

**Proof sketch.** The connective makes the expression before it wait, and the term after it is read
next to it. What exceeds the bounds in one of the two exceeds them in both together. -/
theorem follows_or {ts us : List Token} {f g : Formula} (hf : Derives .expression ts f)
    (ihf : Follows bounds .expression ts f) (ihg : Follows bounds .term us g) :
    Follows bounds .expression (ts ++ .connective .or :: us) (.join .or f g) := by
  intro position outer houter
  let at_ := position + ts.length
  rcases ihf position outer houter with ⟨disjunction, term, hts, hjoin⟩ | ⟨e, he, hts⟩
  · have hread : read bounds position (expecting ⟨none, none⟩ outer)
        (ts ++ .connective .or :: us) =
          (join bounds .or disjunction term).bind fun left =>
            read bounds (at_ + 1) (expecting ⟨some ⟨left, at_⟩, none⟩ outer) us := by
      rw [read_append, hts]
      simp only [Except.bind, read, step]
      cases join bounds .or disjunction term <;> rfl
    rw [hread]
    rcases hjoin with ⟨hwithin, hjoin⟩ | ⟨e, he, hjoin⟩
    · rw [hjoin]
      rcases ihg (at_ + 1) (some ⟨f, at_⟩) outer houter with ⟨hwithin', hus⟩ | ⟨e, he, hus⟩
      · exact .inl ⟨_, g, hus, settles_join hf hwithin hwithin' .or at_⟩
      · exact .inr ⟨e, exceeds_of_right hf he .or, hus⟩
    · refine .inr ⟨e, exceeds_of_left hf he .or, ?_⟩
      rw [hjoin]
      rfl
  · refine .inr ⟨e, exceeds_of_left hf he .or, ?_⟩
    rw [read_append, hts]
    rfl

/-- Derived tokens are read as their phrase says. -/
theorem follows_of_derives {phrase : Phrase} {ts : List Token} {f : Formula}
    (h : Derives phrase ts f) : Follows bounds phrase ts f := by
  induction h with
  | condition c => exact follows_condition c
  | parens hf ih => exact follows_parens hf ih
  | factor _ ih => exact follows_factor ih
  | and hf _ ihf ihg => exact follows_and hf ihf ihg
  | term _ ih => exact follows_term ih
  | or hf _ ihf ihg => exact follows_or hf ihf ihg

end Reading

/-- **Derived tokens give their formula**, unless they or the formula exceed a bound. Then the error
names the bound.

**Proof sketch.** By induction on the derivation, every phrase is read as `Reading.Follows` says.
At the end of the expression no parenthesis is open, so what was read is the formula. -/
theorem Derives.run_start {ts : List Token} {f : Formula} (h : Derives .expression ts f)
    (bounds : Bounds) :
    (Within bounds 0 ts f ∧ Reading.start.run bounds 0 ts = .ok f) ∨
      ∃ e, Exceeds bounds 0 ts f e ∧ Reading.start.run bounds 0 ts = .error e := by
  rw [Reading.run_eq_read]
  rcases Reading.follows_of_derives h 0 [] (Nat.zero_le _) with
    ⟨disjunction, term, hread, ⟨hwithin, hjoin⟩ | ⟨e, he, hjoin⟩⟩ | ⟨e, he, hread⟩
  · refine .inl ⟨hwithin, ?_⟩
    simp [Reading.start, hread, Except.bind, Reading.finish, hjoin, bind]
  · refine .inr ⟨e, he, ?_⟩
    simp [Reading.start, hread, Except.bind, Reading.finish, hjoin, bind]
  · refine .inr ⟨e, he, ?_⟩
    simp [Reading.start, hread, Except.bind]

namespace Reading

/-! ## What is read was derived

Every reading stands for the tokens that led to it. Outside each open parenthesis there are at most
an expression before an `OR` and, after it, a term before an `AND`. -/

/-- The tokens of an operand and of the connective after it, if an operand waits. The first token
stands at `start`. -/
inductive Waits (op : Connective) (phrase : Phrase) (start : Nat) :
    Option Waiting → List Token → Prop where
  | none : Waits op phrase start none []
  | some {ts : List Token} {f : Formula} : Derives phrase ts f →
    Waits op phrase start (some ⟨f, start + ts.length⟩) (ts ++ [.connective op])

/-- The tokens of all operands of a level that wait. -/
inductive LevelWaits (start : Nat) : Level → List Token → Prop where
  | intro {disjunction conjunction : Option Waiting} {ts us : List Token} :
    Waits .or .expression start disjunction ts →
    Waits .and .term (start + ts.length) conjunction us →
    LevelWaits start ⟨disjunction, conjunction⟩ (ts ++ us)

/-- The tokens up to the innermost open parenthesis. -/
inductive Opens : List (Level × Nat) → List Token → Prop where
  | nil : Opens [] []
  | cons {level : Level} {outer : List (Level × Nat)} {ts us : List Token} :
    Opens outer ts → LevelWaits ts.length level us →
    Opens ((level, (ts ++ us).length) :: outer) (ts ++ us ++ [.openParen])

/-- **The tokens that a reading stands for**, each at its place in a derivation that is not
complete. -/
inductive Accounts : Reading → List Token → Prop where
  | expecting {level : Level} {outer : List (Level × Nat)} {ts us : List Token} :
    Opens outer ts → LevelWaits ts.length level us → Accounts (expecting level outer) (ts ++ us)
  | complete {disjunction : Option Waiting} {term : Formula} {outer : List (Level × Nat)}
    {ts us vs : List Token} : Opens outer ts → Waits .or .expression ts.length disjunction us →
    Derives .term vs term → Accounts (complete disjunction term outer) (ts ++ us ++ vs)

/-- At the start no token has been read. -/
theorem accounts_start : Accounts start [] :=
  .expecting .nil (.intro .none .none)

/-- Joining derives the larger phrase from the operand that waits and the one after it. -/
theorem derives_of_join {op : Connective} {phrase operand : Phrase}
    (one : ∀ {ts f}, Derives operand ts f → Derives phrase ts f)
    (more : ∀ {ts us f g}, Derives phrase ts f → Derives operand us g →
      Derives phrase (ts ++ .connective op :: us) (.join op f g))
    {start : Nat} {waiting : Option Waiting} {ts us : List Token} {right f : Formula}
    (hwaiting : Waits op phrase start waiting ts) (hright : Derives operand us right)
    (h : join bounds op waiting right = .ok f) : Derives phrase (ts ++ us) f := by
  cases hwaiting with
  | none =>
    injection h with h
    exact h ▸ one hright
  | @some ts left hleft =>
    rw [join_some] at h
    split at h
    · injection h with h
      rw [← h, List.append_assoc]
      exact more hleft hright
    · cases h

/-- An expression is complete when its last term is. -/
theorem derives_expression {start : Nat} {disjunction : Option Waiting} {ts us : List Token}
    {term f : Formula} (hdisjunction : Waits .or .expression start disjunction ts)
    (hterm : Derives .term us term) (h : join bounds .or disjunction term = .ok f) :
    Derives .expression (ts ++ us) f :=
  derives_of_join .term .or hdisjunction hterm h

/-- A factor where an operand is expected completes a term. -/
theorem accounts_factor {level : Level} {outer : List (Level × Nat)} {ts us vs : List Token}
    {f : Formula} {r : Reading} (houter : Opens outer ts) (hlevel : LevelWaits ts.length level us)
    (hf : Derives .factor vs f) (h : factor bounds level outer f = .ok r) :
    Accounts r (ts ++ us ++ vs) := by
  obtain @⟨disjunction, conjunction, us, ws, hdisjunction, hconjunction⟩ := hlevel
  cases hjoin : join bounds .and conjunction f with
  | error e =>
    rw [factor, hjoin] at h
    cases h
  | ok g =>
    rw [factor, hjoin] at h
    injection h with h
    rw [← h, ← List.append_assoc, List.append_assoc (ts ++ us)]
    exact .complete houter hdisjunction (derives_of_join .factor .and hconjunction hf hjoin)

/-- **What one token keeps**: the reading after it stands for one token more.

**Proof sketch.** By cases on the reading and the token. A condition and a closing parenthesis
complete a factor; a connective makes what was complete wait; an opening parenthesis puts the level
aside. Every other token is refused. -/
theorem step_accounts {r r' : Reading} {ts : List Token} {t : Token} (h : Accounts r ts)
    (hstep : step bounds ts.length r t = .ok r') : Accounts r' (ts ++ [t]) := by
  cases h with
  | @expecting level outer ts us houter hlevel =>
    cases t with
    | condition c => exact accounts_factor houter hlevel (.condition c) hstep
    | openParen =>
      rw [step] at hstep
      split at hstep
      · injection hstep with hstep
        rw [← hstep, ← List.append_nil (ts ++ us ++ [Token.openParen])]
        exact .expecting (.cons houter hlevel) (.intro .none .none)
      · cases hstep
    | closeParen | connective => cases hstep
  | @complete disjunction term outer ts us vs houter hdisjunction hterm =>
    have hlength : (ts ++ us ++ vs).length = ts.length + (us ++ vs).length := by
      rw [List.append_assoc, List.length_append]
    cases t with
    | condition | openParen =>
      simp only [step, bind, Except.bind] at hstep
      split at hstep <;> cases hstep
    | connective op =>
      cases op with
      | and =>
        injection hstep with hstep
        have hlength : (ts ++ us ++ vs).length = ts.length + us.length + vs.length := by
          rw [List.length_append, List.length_append]
        rw [← hstep, hlength, List.append_assoc, List.append_assoc]
        exact .expecting houter (.intro hdisjunction (.some hterm))
      | or =>
        cases hjoin : join bounds .or disjunction term with
        | error e => simp [step, hjoin, bind, Except.bind] at hstep
        | ok f =>
          simp only [step, hjoin, bind, Except.bind, Except.ok.injEq] at hstep
          have hf := derives_expression hdisjunction hterm hjoin
          have hlevel : LevelWaits ts.length ⟨some ⟨f, ts.length + (us ++ vs).length⟩, none⟩
              (us ++ vs ++ [.connective .or] ++ []) := .intro (.some hf) .none
          rw [← hstep, hlength]
          simpa using Accounts.expecting houter hlevel
    | closeParen =>
      cases hjoin : join bounds .or disjunction term with
      | error e => simp [step, hjoin, bind, Except.bind] at hstep
      | ok f =>
        have hf := derives_expression hdisjunction hterm hjoin
        simp only [step, hjoin, bind, Except.bind] at hstep
        cases houter with
        | nil => cases hstep
        | cons houter hlevel => simpa using accounts_factor houter hlevel (.parens hf) hstep

/-- **What all tokens keep**: the formula is derived by the tokens before and after a reading.

**Proof sketch.** By induction on the tokens that are left. Each token keeps the account
(`step_accounts`), and at the end it is one without open parentheses. -/
theorem derives_of_run {r : Reading} {ts us : List Token} {f : Formula} (h : Accounts r ts)
    (hrun : run bounds ts.length r us = .ok f) : Derives .expression (ts ++ us) f := by
  induction us generalizing r ts with
  | nil =>
    cases h with
    | expecting => cases hrun
    | @complete disjunction term outer ts us vs houter hdisjunction hterm =>
      cases hjoin : join bounds .or disjunction term with
      | error e => simp [run, finish, hjoin, bind, Except.bind] at hrun
      | ok g =>
        simp only [run, finish, hjoin, bind, Except.bind] at hrun
        cases houter with
        | nil =>
          injection hrun with hrun
          simpa [← hrun] using derives_expression hdisjunction hterm hjoin
        | cons => cases hrun
  | cons t us ih =>
    cases hstep : step bounds ts.length r t with
    | error e => simp [run, hstep, bind, Except.bind] at hrun
    | ok r' =>
      simp only [run, hstep, bind, Except.bind] at hrun
      have hlength : ts.length + 1 = (ts ++ [t]).length := by simp
      rw [hlength] at hrun
      simpa using ih (step_accounts h hstep) hrun

end Reading

/-! ## The formula of a list of tokens -/

/-- Reading all tokens gives a formula exactly when they derive it within the bounds. -/
theorem Reading.run_start_iff {ts : List Token} {f : Formula} :
    start.run bounds 0 ts = .ok f ↔ Derives .expression ts f ∧ Within bounds 0 ts f := by
  constructor
  · intro h
    have hderives := derives_of_run accounts_start h
    rcases hderives.run_start bounds with ⟨hwithin, _⟩ | ⟨e, _, hrun⟩
    · exact ⟨hderives, hwithin⟩
    · rw [List.nil_append, h] at hrun
      cases hrun
  · rintro ⟨hderives, hwithin⟩
    rcases hderives.run_start bounds with ⟨_, hrun⟩ | ⟨e, he, _⟩
    · exact hrun
    · exact absurd hwithin he.not_within

/-- **The grammar is unambiguous**: tokens derive at most one formula.

**Proof sketch.** Reading is a function, and bounds that hold both formulas let it find both. -/
theorem Derives.unique {ts : List Token} {f g : Formula} (hf : Derives .expression ts f)
    (hg : Derives .expression ts g) : f = g := by
  let bounds : Bounds :=
    ⟨Token.nesting ts, max f.depth g.depth + 1, Nat.succ_pos _⟩
  have hfwithin : Within bounds 0 ts f :=
    ⟨Nat.le_refl _, Nat.le_succ_of_le (Nat.le_max_left ..)⟩
  have hgwithin : Within bounds 0 ts g :=
    ⟨Nat.le_refl _, Nat.le_succ_of_le (Nat.le_max_right ..)⟩
  have hrunf := Reading.run_start_iff.mpr ⟨hf, hfwithin⟩
  rw [Reading.run_start_iff.mpr ⟨hg, hgwithin⟩] at hrunf
  injection hrunf with h
  exact h.symm

namespace Formula

/-- Tokens are read from the start, if there are any. -/
theorem ofTokens_eq_run (limit : Nat) {ts : List Token} (hts : ts ≠ []) :
    ofTokens limit ts = Reading.start.run (.ofNesting limit) 0 ts := by
  rw [ofTokens, if_neg (by simpa using hts)]

/-- Tokens give a formula exactly when they derive it within the limits. -/
theorem ofTokens_eq_ok_iff {limit : Nat} {ts : List Token} {f : Formula} :
    ofTokens limit ts = .ok f ↔
      Derives .expression ts f ∧ Token.nesting ts ≤ limit ∧ f.depth ≤ maxDepth := by
  by_cases hts : ts = []
  · constructor
    · intro h
      rw [hts] at h
      cases h
    · intro h
      exact absurd hts h.1.ne_nil
  · rw [ofTokens_eq_run limit hts, Reading.run_start_iff]
    exact and_congr_right fun _ => ⟨fun h => ⟨h.nesting, h.depth⟩, fun h => ⟨h.1, h.2⟩⟩

/-- Derived tokens give their formula or the error that names the limit exceeded. -/
theorem ofTokens_of_derives (limit : Nat) {ts : List Token} {f : Formula}
    (h : Derives .expression ts f) :
    (Within (.ofNesting limit) 0 ts f ∧ ofTokens limit ts = .ok f) ∨
      ∃ e, Exceeds (.ofNesting limit) 0 ts f e ∧ ofTokens limit ts = .error e := by
  rw [ofTokens_eq_run limit h.ne_nil]
  exact h.run_start _

/-- A higher limit on the nesting gives the same formula. -/
theorem ofTokens_mono {limit limit' : Nat} (hlimit : limit ≤ limit') {ts : List Token} {f : Formula}
    (h : ofTokens limit ts = .ok f) : ofTokens limit' ts = .ok f := by
  obtain ⟨hderives, hnesting, hdepth⟩ := ofTokens_eq_ok_iff.mp h
  exact ofTokens_eq_ok_iff.mpr ⟨hderives, Nat.le_trans hnesting hlimit, hdepth⟩

/-- **Reading finds exactly the derivation of the grammar**: tokens give a formula if and only if
they derive it as an expression, nest at most `limit` deep and the formula has at most
`Formula.maxDepth` levels. Tokens derive no two formulas, the leaves are the conditions among the
tokens, and a higher limit changes no formula.

**Proof sketch.** Reading the tokens of a derivation succeeds within the bounds and exceeds one of
them otherwise (`ofTokens_of_derives`); conversely a reading accounts for all tokens that it has
passed. The bounds are compared with numbers that do not depend on the limit. -/
theorem ofTokens_iff_derives (limit : Nat) (ts : List Token) (f : Formula) :
    (ofTokens limit ts = .ok f ↔
      Derives .expression ts f ∧ Token.nesting ts ≤ limit ∧ f.depth ≤ maxDepth) ∧
    (∀ g, Derives .expression ts f → Derives .expression ts g → f = g) ∧
    (Derives .expression ts f → f.conditions = ts.filterMap Token.condition?) ∧
    (∀ limit', limit ≤ limit' → ofTokens limit ts = .ok f → ofTokens limit' ts = .ok f) :=
  ⟨ofTokens_eq_ok_iff, fun _ hf hg => hf.unique hg, Derives.conditions_eq,
    fun _ hlimit => ofTokens_mono hlimit⟩

end Formula

end Eligibility
