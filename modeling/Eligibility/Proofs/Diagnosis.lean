import Eligibility.Proofs.OpenParentheses
import Eligibility.Proofs.Reading

/-!
# Where rule text goes wrong

An author is told the index of one token. For a fault of the grammar it is the first token with
which no rule text goes on: what stands before it begins some rule text, and no longer with it. For
a parenthesis that is never closed it is the innermost of those, and for the two limits it is the
token that exceeds them.

## Main definitions

* `Token.Viable` — tokens with which some expression begins.
* `GrammarError.Faults` — what is wrong with the token after those that were read.
* `GrammarError.Locates` — what each error says about the tokens.

## Main results

* `Reading.Accounts.viable`, `Reading.Accounts.unclosed_eq` — tokens that were read begin an
  expression, and the reading knows their open parentheses.
* `Reading.step_meets`, `Reading.exists_faults_of_run` — what one token does, and where a list of
  tokens is refused.
* `Reading.read_raise` — higher limits change only what was refused for a limit.
* `Formula.ofTokens_error_locates` — every error points at the token that it is about.

## Implementation notes

That no expression begins with some tokens is shown by reading: an expression is read under limits
high enough for it, and under these limits the same token is refused for the same reason.
-/

set_option relaxedAutoImplicit false
set_option autoImplicit false

namespace Eligibility

namespace Token

/-! ## Beginnings of expressions -/

/-- Tokens with which some expression of the grammar begins, whatever its nesting and depth. -/
def Viable (ts : List Token) : Prop :=
  ∃ us f, Derives .expression us f ∧ ts <+: us

/-- What a viable list of tokens begins with is viable. -/
theorem Viable.of_append {ts us : List Token} (h : Viable (ts ++ us)) : Viable ts := by
  obtain ⟨vs, f, hf, hvs⟩ := h
  exact ⟨vs, f, hf, (List.prefix_append ts us).trans hvs⟩

end Token

namespace Reading

/-! ## What was read begins an expression -/

/-- An operand that waits makes a larger phrase with an operand after it. -/
theorem Waits.derives {op : Connective} {phrase operand : Phrase}
    (one : ∀ {ts f}, Derives operand ts f → Derives phrase ts f)
    (more : ∀ {ts us f g}, Derives phrase ts f → Derives operand us g →
      Derives phrase (ts ++ .connective op :: us) (.join op f g))
    {start : Nat} {waiting : Option Waiting} {ts us : List Token} {right : Formula}
    (h : Waits op phrase start waiting ts) (hright : Derives operand us right) :
    ∃ f, Derives phrase (ts ++ us) f := by
  cases h with
  | none => exact ⟨right, one hright⟩
  | @some ts left hleft =>
    refine ⟨.join op left right, ?_⟩
    rw [List.append_assoc]
    exact more hleft hright

/-- The operands that wait on a level make an expression with a factor after them. -/
theorem LevelWaits.derives {start : Nat} {level : Level} {us vs : List Token} {f : Formula}
    (h : LevelWaits start level us) (hf : Derives .factor vs f) :
    ∃ g, Derives .expression (us ++ vs) g := by
  obtain @⟨disjunction, conjunction, us, ws, hdisjunction, hconjunction⟩ := h
  obtain ⟨g, hg⟩ := hconjunction.derives .factor .and hf
  rw [List.append_assoc]
  exact hdisjunction.derives .term .or hg

/-- An expression inside open parentheses can be completed: the parentheses are closed one by one.

**Proof sketch.** By induction on the open parentheses, the innermost first. The expression in the
innermost pair is a factor of the level around it. -/
theorem Opens.viable {outer : List (Level × Nat)} {ts us : List Token} {f : Formula}
    (h : Opens outer ts) (hf : Derives .expression us f) : Token.Viable (ts ++ us) := by
  induction h generalizing us f with
  | nil => exact ⟨us, f, hf, List.prefix_rfl⟩
  | @cons level outer ts vs _ hlevel ih =>
    obtain ⟨g, hg⟩ := hlevel.derives (.parens hf)
    have hclosed : Token.Viable (ts ++ vs ++ [.openParen] ++ us ++ [.closeParen]) := by
      simpa using ih hg
    exact hclosed.of_append

/-- **Tokens that were read begin an expression.** -/
theorem Accounts.viable {r : Reading} {ts : List Token} (h : Accounts r ts) : Token.Viable ts := by
  cases h with
  | @expecting level outer ts us houter hlevel =>
    -- any condition can stand where an operand is expected
    obtain ⟨g, hg⟩ := hlevel.derives (.condition ⟨"a", .equal, .text ""⟩)
    have hviable := houter.viable hg
    rw [← List.append_assoc] at hviable
    exact hviable.of_append
  | @complete disjunction term outer ts us vs houter hdisjunction hterm =>
    obtain ⟨g, hg⟩ := hdisjunction.derives .term .or hterm
    rw [List.append_assoc]
    exact houter.viable hg

/-! ## What was read knows its open parentheses -/

/-- The levels outside the open parentheses. -/
def outer : Reading → List (Level × Nat)
  | expecting _ outer => outer
  | complete _ _ outer => outer

/-- An operand that waits closes the parentheses that it opens. -/
theorem Waits.unclosedFrom_eq {op : Connective} {phrase : Phrase} {start : Nat}
    {waiting : Option Waiting} {ts : List Token} (h : Waits op phrase start waiting ts)
    (position : Nat) (opened : List Nat) : Token.unclosedFrom position opened ts = opened := by
  cases h with
  | none => rfl
  | some hf => simp [Token.unclosedFrom_append, Token.unclosedFrom, hf.unclosedFrom_eq]

/-- The operands that wait on a level close the parentheses that they open. -/
theorem LevelWaits.unclosedFrom_eq {start : Nat} {level : Level} {us : List Token}
    (h : LevelWaits start level us) (position : Nat) (opened : List Nat) :
    Token.unclosedFrom position opened us = opened := by
  obtain ⟨hdisjunction, hconjunction⟩ := h
  rw [Token.unclosedFrom_append, hdisjunction.unclosedFrom_eq, hconjunction.unclosedFrom_eq]

/-- The positions that a reading keeps are those of the open parentheses. -/
theorem Opens.unclosed_eq {outer : List (Level × Nat)} {ts : List Token} (h : Opens outer ts) :
    Token.unclosed ts = outer.map (·.2) := by
  induction h with
  | nil => rfl
  | @cons level outer ts us _ hlevel ih =>
    rw [Token.unclosed] at ih
    simp only [Token.unclosed, Token.unclosedFrom_append, hlevel.unclosedFrom_eq, ih]
    simp [Token.unclosedFrom]

/-- **A reading knows its open parentheses.** -/
theorem Accounts.unclosed_eq {r : Reading} {ts : List Token} (h : Accounts r ts) :
    Token.unclosed ts = r.outer.map (·.2) := by
  cases h with
  | expecting houter hlevel =>
    rw [Token.unclosed, Token.unclosedFrom_append, hlevel.unclosedFrom_eq]
    exact houter.unclosed_eq
  | complete houter hdisjunction hterm =>
    rw [Token.unclosed, Token.unclosedFrom_append, Token.unclosedFrom_append, hterm.unclosedFrom_eq,
      hdisjunction.unclosedFrom_eq]
    exact houter.unclosed_eq

end Reading

/-! ## What a refusal is about -/

namespace GrammarError

/-- The error is about a limit and not about the grammar. -/
def AboutLimit (e : GrammarError) : Prop :=
  ∃ limit, e.cause = .nestingTooDeep limit ∨ e.cause = .expressionTooDeep limit

/-- **What is wrong with the next token** after tokens that were read, or with the end after
them. -/
inductive Faults (bounds : Bounds) (ts : List Token) (next : Option Token) :
    GrammarError → Prop where
  /-- The next token does not continue the expression. -/
  | here {cause : Cause} :
      cause = .expectedOperand ∨ cause = .unmatchedClose ∨ cause = .trailingTokens →
    Faults bounds ts next ⟨ts.length, cause⟩
  /-- The innermost parenthesis is still open at the end. -/
  | unclosed {i : Nat} {is : List Nat} : next = none → Token.unclosed ts = i :: is →
    Faults bounds ts next ⟨i, .unmatchedOpen⟩
  /-- The next token opens a parenthesis where as many are open as may be. -/
  | nesting : next = some .openParen → (Token.unclosed ts).length = bounds.nesting →
    Faults bounds ts next ⟨ts.length, .nestingTooDeep bounds.nesting⟩
  /-- A connective that was read makes the tree too deep. -/
  | depth {i : Nat} {op : Connective} : ts[i]? = some (.connective op) →
    Faults bounds ts next ⟨i, .expressionTooDeep bounds.depth⟩

end GrammarError

namespace Reading

variable {bounds bounds' : Bounds}

/-- An error has the first property, a value the second. -/
def Meets {α : Type} (P : GrammarError → Prop) (Q : α → Prop) : Except GrammarError α → Prop
  | .error e => P e
  | .ok a => Q a

/-- One step after another meets what the second step meets. -/
theorem Meets.bind {α β : Type} {P : GrammarError → Prop} {Q : α → Prop} {R : β → Prop}
    {x : Except GrammarError α} {next : α → Except GrammarError β} (hx : Meets P Q x)
    (hnext : ∀ a, Q a → Meets P R (next a)) : Meets P R (x >>= next) := by
  cases x with
  | error e => exact hx
  | ok a => exact hnext a hx

/-- What meets a property meets a weaker one. -/
theorem Meets.mono {α : Type} {P : GrammarError → Prop} {Q R : α → Prop} {x : Except GrammarError α}
    (hx : Meets P Q x) (h : ∀ a, Q a → R a) : Meets P R x := by
  cases x with
  | error e => exact hx
  | ok a => exact h a hx

/-- The connective of an operand that waits is the token at the position that goes with it. -/
theorem Waits.getElem?_position {op : Connective} {phrase : Phrase} {ts us : List Token}
    {w : Waiting} (h : Waits op phrase ts.length (Option.some w) us) (vs : List Token) :
    (ts ++ us ++ vs)[w.position]? = Option.some (.connective op) := by
  cases h with
  | some => simp

/-- Joining fails only at the connective of the operand that waits. -/
theorem join_meets (bounds : Bounds) {op : Connective} {phrase : Phrase} {ts us : List Token}
    {waiting : Option Waiting} (h : Waits op phrase ts.length waiting us) (vs : List Token)
    (next : Option Token) (right : Formula) :
    Meets (GrammarError.Faults bounds (ts ++ us ++ vs) next) (fun _ => True)
      (join bounds op waiting right) := by
  cases waiting with
  | none => trivial
  | some w =>
    rw [join_some]
    split
    · trivial
    · exact .depth (h.getElem?_position vs)

/-- A factor fails only at the connective of the operand that waits for it. -/
theorem factor_meets (bounds : Bounds) {level : Level} {ts us : List Token}
    (h : LevelWaits ts.length level us) (vs : List Token) (next : Option Token)
    (outer : List (Level × Nat)) (f : Formula) :
    Meets (GrammarError.Faults bounds (ts ++ us ++ vs) next) (fun r => r.outer = outer)
      (factor bounds level outer f) := by
  obtain @⟨disjunction, conjunction, us, ws, hdisjunction, hconjunction⟩ := h
  rw [← List.length_append] at hconjunction
  have hjoin := join_meets bounds hconjunction vs next f
  rw [← List.append_assoc ts, factor]
  show Meets _ _ (join bounds .and conjunction f >>= fun g => .ok (complete disjunction g outer))
  exact hjoin.bind fun _ _ => rfl

/-- **What one token does**: it opens no parenthesis beyond the limit, or it is refused for what is
wrong with it.

**Proof sketch.** By cases on the reading and the token. A token is refused because it cannot stand
there, because a parenthesis would nest too deep, or because the operands before it make a tree that
is too deep, and each of these is a fault at the tokens read so far. Only an opening parenthesis
adds to the open ones, and only within the limit. -/
theorem step_meets {r : Reading} {ts : List Token} (h : Accounts r ts)
    (hnesting : r.outer.length ≤ bounds.nesting) (t : Token) :
    Meets (GrammarError.Faults bounds ts (some t)) (fun r' => r'.outer.length ≤ bounds.nesting)
      (step bounds ts.length r t) := by
  have hunclosed := h.unclosed_eq
  cases h with
  | @expecting level outer ts us houter hlevel =>
    cases t with
    | condition c =>
      have hfactor := factor_meets bounds hlevel [] (some (.condition c)) outer (.condition c)
      rw [List.append_nil] at hfactor
      exact hfactor.mono fun r' hr' => hr' ▸ hnesting
    | openParen =>
      rw [step]
      split
      · rename_i hopen
        exact hopen
      · rename_i hopen
        refine .nesting rfl ?_
        rw [hunclosed, List.length_map]
        exact Nat.le_antisymm hnesting (Nat.le_of_not_lt hopen)
    | closeParen | connective => exact .here (.inl rfl)
  | @complete disjunction term outer ts us vs houter hdisjunction hterm =>
    cases t with
    | connective op =>
      cases op with
      | and => exact hnesting
      | or => exact (join_meets bounds hdisjunction vs _ term).bind fun _ _ => hnesting
    | condition | openParen =>
      exact (join_meets bounds hdisjunction vs _ term).bind fun _ _ => .here (.inr (.inr rfl))
    | closeParen =>
      refine (join_meets bounds hdisjunction vs _ term).bind fun f _ => ?_
      cases houter with
      | nil => exact .here (.inr (.inl rfl))
      | @cons level outer ts ws houter hlevel =>
        have hfactor :=
          factor_meets bounds hlevel (.openParen :: (us ++ vs)) (some .closeParen) outer f
        have htokens : ts ++ ws ++ [.openParen] ++ us ++ vs =
            ts ++ ws ++ .openParen :: (us ++ vs) := by
          simp
        rw [htokens]
        exact hfactor.mono fun r' hr' => hr' ▸ Nat.le_of_succ_le hnesting

/-- What the end of the tokens does: it is refused for what is wrong there, if it is refused. -/
theorem finish_meets (bounds : Bounds) {r : Reading} {ts : List Token} (h : Accounts r ts) :
    Meets (GrammarError.Faults bounds ts none) (fun _ => True) (finish bounds ts.length r) := by
  have hunclosed := h.unclosed_eq
  cases h with
  | expecting => exact .here (.inl rfl)
  | @complete disjunction term outer ts us vs houter hdisjunction hterm =>
    refine (join_meets bounds hdisjunction vs _ term).bind fun f _ => ?_
    cases outer with
    | nil => trivial
    | cons => exact .unclosed rfl hunclosed

/-- **Where a list of tokens is refused**: some of the tokens are read, and the next one, or the end
after them, is at fault.

**Proof sketch.** By induction on the tokens that are left. A token that is read keeps the account
of the tokens and the limit on open parentheses, so that the others are read under the same
conditions; the first one that is refused is at fault. -/
theorem exists_faults_of_run {r : Reading} {ts us : List Token} {e : GrammarError}
    (h : Accounts r ts) (hnesting : r.outer.length ≤ bounds.nesting)
    (hrun : run bounds ts.length r us = .error e) :
    ∃ vs ws r', us = vs ++ ws ∧ read bounds ts.length r vs = .ok r' ∧ Accounts r' (ts ++ vs) ∧
      GrammarError.Faults bounds (ts ++ vs) ws.head? e ∧
      ∀ t ∈ ws.head?, step bounds (ts ++ vs).length r' t = .error e := by
  induction us generalizing r ts with
  | nil =>
    have hfinish := finish_meets bounds h
    rw [show finish bounds ts.length r = .error e from hrun] at hfinish
    refine ⟨[], [], r, rfl, rfl, ?_, ?_, by simp⟩
    · simpa using h
    · rw [List.append_nil]
      exact hfinish
  | cons t us ih =>
    have hmeets := step_meets h hnesting t
    cases hstep : step bounds ts.length r t with
    | error e' =>
      rw [hstep] at hmeets
      have heq : e' = e := by simpa [run, hstep, bind, Except.bind] using hrun
      subst heq
      refine ⟨[], t :: us, r, rfl, rfl, ?_, ?_, ?_⟩
      · simpa using h
      · rw [List.append_nil]
        exact hmeets
      · simpa using hstep
    | ok r₁ =>
      rw [hstep] at hmeets
      have hlength : ts.length + 1 = (ts ++ [t]).length := by simp
      simp only [run, hstep, bind, Except.bind] at hrun
      rw [hlength] at hrun
      obtain ⟨vs, ws, r', hus, hread, haccounts, hfaults, hnext⟩ :=
        ih (step_accounts h hstep) hmeets hrun
      refine ⟨t :: vs, ws, r', by rw [hus]; rfl, ?_, ?_, ?_, ?_⟩
      · simp only [read, hstep, bind, Except.bind]
        rw [hlength]
        exact hread
      · simpa using haccounts
      · simpa using hfaults
      · simpa using hnext

/-! ## Higher limits -/

/-- A result under higher limits is the same, unless it was a refusal for a limit. -/
def Raised {α : Type} (x x' : Except GrammarError α) : Prop :=
  x = x' ∨ ∃ e, x = .error e ∧ e.AboutLimit

/-- What is the same under higher limits may go on with something that is. -/
theorem Raised.bind {α β : Type} {x x' : Except GrammarError α}
    {next next' : α → Except GrammarError β} (hx : Raised x x')
    (hnext : ∀ a, Raised (next a) (next' a)) : Raised (x >>= next) (x' >>= next') := by
  rcases hx with rfl | ⟨e, rfl, he⟩
  · cases x with
    | error e => exact .inl rfl
    | ok a => exact hnext a
  · exact .inr ⟨e, rfl, he⟩

/-- Under higher limits operands are joined as before, unless their tree was too deep. -/
theorem join_raise (hdepth : bounds.depth ≤ bounds'.depth) (op : Connective)
    (waiting : Option Waiting)
    (right : Formula) : Raised (join bounds op waiting right) (join bounds' op waiting right) := by
  cases waiting with
  | none => exact .inl rfl
  | some w =>
    rw [join_some, join_some]
    by_cases h : (Formula.join op w.left right).depth ≤ bounds.depth
    · rw [if_pos h, if_pos (Nat.le_trans h hdepth)]
      exact .inl rfl
    · rw [if_neg h]
      exact .inr ⟨_, rfl, _, .inr rfl⟩

/-- Under higher limits a factor is read as before, unless a tree was too deep. -/
theorem factor_raise (hdepth : bounds.depth ≤ bounds'.depth) (level : Level)
    (outer : List (Level × Nat)) (f : Formula) :
    Raised (factor bounds level outer f) (factor bounds' level outer f) :=
  (join_raise hdepth .and level.conjunction f).bind fun _ => .inl rfl

/-- Under higher limits a token is read or refused as before, unless it was refused for a limit.

**Proof sketch.** By cases on the reading and the token. The limits are asked only where a
parenthesis opens and where operands are joined. -/
theorem step_raise (hnesting : bounds.nesting ≤ bounds'.nesting)
    (hdepth : bounds.depth ≤ bounds'.depth) (position : Nat) (r : Reading) (t : Token) :
    Raised (step bounds position r t) (step bounds' position r t) := by
  cases r with
  | expecting level outer =>
    cases t with
    | condition c => exact factor_raise hdepth level outer _
    | openParen =>
      rw [step, step]
      by_cases h : outer.length < bounds.nesting
      · rw [if_pos h, if_pos (Nat.lt_of_lt_of_le h hnesting)]
        exact .inl rfl
      · rw [if_neg h]
        exact .inr ⟨_, rfl, _, .inl rfl⟩
    | closeParen | connective => exact .inl rfl
  | complete disjunction term outer =>
    have hjoin := join_raise hdepth .or disjunction term
    cases t with
    | connective op =>
      cases op with
      | and => exact .inl rfl
      | or => exact hjoin.bind fun _ => .inl rfl
    | condition | openParen => exact hjoin.bind fun _ => .inl rfl
    | closeParen =>
      refine hjoin.bind fun f => ?_
      cases outer with
      | nil => exact .inl rfl
      | cons => exact factor_raise hdepth _ _ f

/-- **Higher limits change only what was refused for a limit.** -/
theorem read_raise (hnesting : bounds.nesting ≤ bounds'.nesting)
    (hdepth : bounds.depth ≤ bounds'.depth) (position : Nat) (r : Reading) (ts : List Token) :
    Raised (read bounds position r ts) (read bounds' position r ts) := by
  induction ts generalizing position r with
  | nil => exact .inl rfl
  | cons t ts ih =>
    exact (step_raise hnesting hdepth position r t).bind fun r' => ih (position + 1) r'

/-- Tokens with which an expression begins are read under limits that are high enough for it. -/
theorem exists_read_of_viable (bounds : Bounds) {ts : List Token} (h : Token.Viable ts) :
    ∃ bounds' r, bounds.nesting ≤ bounds'.nesting ∧ bounds.depth ≤ bounds'.depth ∧
      read bounds' 0 start ts = .ok r := by
  obtain ⟨_, f, hf, us, rfl⟩ := h
  let raised : Bounds := ⟨max bounds.nesting (Token.nesting (ts ++ us)), max bounds.depth f.depth,
    Nat.lt_of_lt_of_le bounds.depth_pos (Nat.le_max_left ..)⟩
  have hrun : run raised 0 start (ts ++ us) = .ok f :=
    run_start_iff.mpr ⟨hf, ⟨Nat.le_max_right .., Nat.le_max_right ..⟩⟩
  rw [run_eq_read, read_append] at hrun
  cases hread : read raised 0 start ts with
  | error e =>
    rw [hread] at hrun
    cases hrun
  | ok r => exact ⟨raised, r, Nat.le_max_left .., Nat.le_max_left .., hread⟩

/-- **A token that is at fault begins nothing**: no expression goes on with it. Limits that let one
be read would not change what was refused for the token itself. -/
theorem not_viable_of_step {ts : List Token} {r : Reading} {t : Token} {e : GrammarError}
    (hread : read bounds 0 start ts = .ok r) (hstep : step bounds ts.length r t = .error e)
    (he : ¬ e.AboutLimit) : ¬ Token.Viable (ts ++ [t]) := by
  intro hviable
  obtain ⟨raised, r', hnesting, hdepth, hread'⟩ := exists_read_of_viable bounds hviable
  have hrefused : read bounds 0 start (ts ++ [t]) = .error e := by
    rw [read_append, hread]
    simp [Except.bind, read, hstep, bind]
  rcases read_raise hnesting hdepth 0 start (ts ++ [t]) with h | ⟨e', he', hlimit⟩
  · rw [hrefused, hread'] at h
    cases h
  · rw [hrefused] at he'
    injection he' with he'
    exact he (he' ▸ hlimit)

end Reading

/-! ## What an error says -/

open Token in
/-- **What each error says about the tokens**, read with a limit on the nesting. -/
def GrammarError.Locates (limit : Nat) (ts : List Token) (e : GrammarError) : Prop :=
  match e.cause with
  | .emptyExpression => ts = [] ∧ e.position = 0
  | .expectedOperand | .unmatchedClose | .trailingTokens =>
    e.position ≤ ts.length ∧ Viable (ts.take e.position) ∧
      (e.position < ts.length → ¬ Viable (ts.take (e.position + 1)))
  | .unmatchedOpen =>
    Viable ts ∧ StaysOpen ts e.position ∧ ∀ i, StaysOpen ts i → i ≤ e.position
  | .nestingTooDeep l =>
    l = limit ∧ ts[e.position]? = some .openParen ∧ Viable (ts.take e.position) ∧
      {i | StaysOpen (ts.take e.position) i}.ncard = limit
  | .expressionTooDeep l =>
    l = Formula.maxDepth ∧ ∃ op, ts[e.position]? = some (.connective op)

/-- The first token with which no expression goes on, where one was read before it. -/
theorem Reading.locates_here {bounds : Bounds} {r : Reading} {ts us : List Token}
    {cause : GrammarError.Cause}
    (hcause : cause = .expectedOperand ∨ cause = .unmatchedClose ∨ cause = .trailingTokens)
    (hread : read bounds 0 start ts = .ok r) (h : Accounts r ts)
    (hnext : ∀ t ∈ us.head?, step bounds ts.length r t = .error ⟨ts.length, cause⟩) :
    ts.length ≤ (ts ++ us).length ∧ Token.Viable ((ts ++ us).take ts.length) ∧
      (ts.length < (ts ++ us).length → ¬ Token.Viable ((ts ++ us).take (ts.length + 1))) := by
  refine ⟨by simp, by simpa using h.viable, fun hlt => ?_⟩
  cases us with
  | nil => simp at hlt
  | cons t us =>
    have htake : (ts ++ t :: us).take (ts.length + 1) = ts ++ [t] := by
      rw [List.take_length_add_append]
      rfl
    rw [htake]
    refine not_viable_of_step hread (hnext t rfl) ?_
    rintro ⟨limit, hlimit⟩
    rcases hcause with rfl | rfl | rfl <;> simp at hlimit

/-- What is at fault after tokens that were read is where the error says.

**Proof sketch.** By the kind of fault. What is at fault at the next token is what no expression
goes on with; the others name a parenthesis that is open, or a connective, among the tokens that
were read. -/
theorem GrammarError.Faults.locates {limit : Nat} {r : Reading} {ts us : List Token}
    {e : GrammarError} (h : Faults (.ofNesting limit) ts us.head? e)
    (hread : Reading.read (.ofNesting limit) 0 .start ts = .ok r)
    (haccounts : Reading.Accounts r ts)
    (hnext : ∀ t ∈ us.head?, Reading.step (.ofNesting limit) ts.length r t = .error e) :
    e.Locates limit (ts ++ us) := by
  cases h with
  | @here cause hcause =>
    have hhere := Reading.locates_here hcause hread haccounts hnext
    rcases hcause with rfl | rfl | rfl <;> exact hhere
  | unclosed hnone hunclosed =>
    rw [List.head?_eq_none_iff.mp hnone, List.append_nil]
    exact ⟨haccounts.viable, Token.innermost_of_unclosed hunclosed⟩
  | nesting hopen hlength =>
    obtain ⟨us, rfl⟩ := List.head?_eq_some_iff.mp hopen
    refine ⟨rfl, by simp, by simpa using haccounts.viable, ?_⟩
    rw [List.take_left, Token.ncard_staysOpen, hlength]
    rfl
  | @depth i op hop =>
    refine ⟨rfl, op, ?_⟩
    rw [List.getElem?_append_left (List.getElem?_eq_some_iff.mp hop).1, hop]

namespace Formula

/-- **Every error points at the token that it is about.** The list without tokens, and no other, is
empty, at position 0. A fault of the grammar stands at the first token, or the end, with which no
expression goes on; an open parenthesis is the innermost that is never closed; and the two limits
are exceeded by a parenthesis with as many open before it as may be, and by a connective.

**Proof sketch.** The run that fails is cut before the token at which it does. The tokens before it
are accounted for and begin an expression, and each way to refuse the next one, or the end, says
what no expression does there. -/
theorem ofTokens_error_locates (limit : Nat) (ts : List Token) :
    (∀ p, ofTokens limit ts = .error ⟨p, .emptyExpression⟩ ↔ ts = [] ∧ p = 0) ∧
      ∀ e, ofTokens limit ts = .error e → e.Locates limit ts := by
  have hlocates : ∀ e, ofTokens limit ts = .error e → e.Locates limit ts := by
    intro e h
    by_cases hts : ts = []
    · subst hts
      injection h with h
      exact h ▸ ⟨rfl, rfl⟩
    · rw [ofTokens_eq_run limit hts] at h
      obtain ⟨us, vs, r, rfl, hread, haccounts, hfaults, hnext⟩ :=
        Reading.exists_faults_of_run Reading.accounts_start (Nat.zero_le _) h
      exact hfaults.locates hread haccounts hnext
  refine ⟨fun p => ⟨fun h => hlocates _ h, ?_⟩, hlocates⟩
  rintro ⟨rfl, rfl⟩
  rfl

/-- Two conditions side by side in parentheses: some expression begins like the first, and none goes
on with the second. -/
theorem ofTokens_error_locates_adjacent :
    let a : Token := .condition ⟨"a", .equal, .text "x"⟩
    ofTokens 1 [.openParen, a, a, .closeParen] = .error ⟨2, .trailingTokens⟩ ∧
      Token.Viable [.openParen, a] ∧ ¬ Token.Viable [.openParen, a, a] := by
  intro a
  have h : ofTokens 1 [.openParen, a, a, .closeParen] = .error ⟨2, .trailingTokens⟩ := by
    decide +kernel
  obtain ⟨-, hviable, hnot⟩ := (ofTokens_error_locates 1 _).2 _ h
  exact ⟨h, hviable, hnot (by decide)⟩

end Formula

end Eligibility
