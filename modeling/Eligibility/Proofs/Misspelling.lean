import Eligibility.Proofs.CanonicalText
import Mathlib.Data.List.TakeWhile

/-!
# Where text stops being tokens

An author is told the byte at which rule text stops being a list of tokens, and why. The place lies
between two characters. What stands before it is a list of tokens as soon as the missing end of a
condition is put behind it, and what stands after it is none of the things that could have followed.

## Main definitions

* `LexicalError.Cause.repair` — what can be put in the place of an error.
* `LexicalError.Cause.attribute?` — the attribute that an error names.
* `LexicalError.Cause.Explains` — what each cause says about the text before an error and after it.
* `Scan.Fault.FoundAfter` — a fault that is found behind some text.

## Main results

* `Scan.literal_error`, `Scan.test_error`, `Scan.token_error` — how each part of the reading fails.
* `Scan.Fault.FoundAfter.token` — tokens before a fault stay tokens when the text after it changes.
* `Scan.exists_foundAfter` — how the reading of a whole text fails.
* `Token.scan_error_locates` — every error points at the characters that it is about.
-/

set_option relaxedAutoImplicit false
set_option autoImplicit false

namespace Eligibility

/-! ## What an error says -/

namespace LexicalError.Cause

/-- What can be put in the place of an error to make a list of tokens of the text up to it. -/
def repair : Cause → String
  | unexpectedCharacter _ => ""
  | missingComparator _ => "=0"
  | missingValue _ | unterminatedText | invalidNumber _ => "0"

/-- The attribute that a cause names, if it names one. -/
def attribute? : Cause → Option String
  | missingComparator path | missingValue path => some path
  | unexpectedCharacter _ | unterminatedText | invalidNumber _ => none

open Scan in
/-- **What each cause says** about the text before an error and the text after it. -/
def Explains (before after : List Char) : Cause → Prop
  | unexpectedCharacter c =>
    (∃ tail, after = c :: tail) ∧ isBlank c = false ∧ c ≠ '(' ∧ c ≠ ')' ∧ isNameStart c = false
  | missingComparator path =>
    (∃ front blanks, before = front ++ (path.toList ++ blanks) ∧ ∀ c ∈ blanks, isBlank c = true) ∧
      IsName path.toList ∧ path ≠ "AND" ∧ path ≠ "OR" ∧
      ∀ c : Comparator, ¬ c.symbol.toList <+: after
  | missingValue _ =>
    StopsAt (fun c => decide (c = '\'')) after ∧ StopsAt Char.isDigit after ∧
      ∀ tail, after = '-' :: tail → StopsAt Char.isDigit tail
  | unterminatedText => ∃ tail, after = '\'' :: tail ∧ '\'' ∉ tail
  | invalidNumber text =>
    text.toList <+: after ∧ ∃ n : Numeral, n.WellFormed ∧
      ((∃ word, text.toList = n.chars ++ word ∧ word ≠ [] ∧ ∀ c ∈ word, isNameChar c = true) ∨
        (text.toList = n.chars ∧ n.value.rank = Binary64.infinityRank))

/-- An error is explained whatever stands farther before it. -/
theorem Explains.append {cause : Cause} {before after : List Char} (h : cause.Explains before after)
    (more : List Char) : cause.Explains (more ++ before) after := by
  cases cause with
  | missingComparator path =>
    obtain ⟨⟨front, blanks, rfl, hblanks⟩, hrest⟩ := h
    exact ⟨⟨more ++ front, blanks, by rw [List.append_assoc], hblanks⟩, hrest⟩
  | unexpectedCharacter | missingValue | unterminatedText | invalidNumber => exact h

end LexicalError.Cause

namespace Scan

open LexicalError (Cause)

/-! ## How the parts of a condition fail -/

/-- A number that is not finite is infinite. -/
theorem Numeral.rank_value {n : Numeral} (h : n.value.isFinite = false) :
    n.value.rank = Binary64.infinityRank := by
  have hle : n.value.rank ≤ Binary64.infinityRank := Nat.min_le_right ..
  have hge : Binary64.infinityRank ≤ n.value.rank := by simpa [Binary64.isFinite] using h
  exact Nat.le_antisymm hle hge

/-- No numeral starts where no digit stands, also behind a sign. -/
theorem stopsAt_of_numeral? {cs : List Char} (h : numeral? cs = none) :
    StopsAt Char.isDigit cs ∧ ∀ tail, cs = '-' :: tail → StopsAt Char.isDigit tail := by
  have hunsigned {negative : Bool} {cs : List Char} (h : unsigned? negative cs = none) :
      StopsAt Char.isDigit cs := by
    have hnone : cs.takeWhile Char.isDigit = [] := by simpa [unsigned?] using h
    have hstop := stopsAt_dropWhile Char.isDigit cs
    rwa [← List.nil_append (cs.dropWhile _), ← hnone, List.takeWhile_append_dropWhile] at hstop
  unfold numeral? at h
  split at h
  · refine ⟨stopsAt_cons.mpr (by decide), ?_⟩
    rintro tail ⟨⟩
    exact hunsigned h
  · rename_i hsign
    exact ⟨hunsigned h, fun tail htail => absurd htail (hsign tail)⟩

/-- Where no comparator is read, none starts. -/
theorem not_symbol_of_comparator? {cs : List Char} (h : comparator? cs = none) (c : Comparator) :
    ¬ c.symbol.toList <+: cs := by
  unfold comparator? at h
  split at h
  case h_6 hatLeast hatMost hgreater hless hequal =>
    rintro ⟨rest, rfl⟩
    cases c with
    | greater => exact hgreater rest rfl
    | less => exact hless rest rfl
    | atLeast => exact hatLeast rest rfl
    | atMost => exact hatMost rest rfl
    | equal => exact hequal rest rfl
  all_goals cases h

/-- Where a quoted text is not closed, no quote stands. -/
theorem not_mem_of_quoted? {cs : List Char} (h : quoted? cs = none) : '\'' ∉ cs := by
  unfold quoted? at h
  split at h
  · rename_i hdrop
    intro hquote
    simpa using List.dropWhile_eq_nil_iff.mp hdrop '\'' hquote
  · cases h

/-- **How a literal fails**: the place of the error is where it starts, and a number that starts
there would be one.

**Proof sketch.** By the ways in which the reader of literals fails: at a quote without its partner,
at a number that is not finite or that a word goes on with, and at what is neither. -/
theorem literal_error {path : String} {cs : List Char} {cause : Cause}
    (h : literal path cs = .error cause) (before : List Char) :
    cause.Explains before cs ∧ cause.repair = "0" ∧ ∀ a ∈ cause.attribute?, a = path := by
  unfold literal at h
  split at h
  · rename_i tail
    split at h
    · cases h
    · rename_i hquoted
      obtain rfl := Except.error.inj h
      exact ⟨⟨tail, rfl, not_mem_of_quoted? hquoted⟩, rfl, nofun⟩
  · rename_i hquote
    split at h
    · rename_i n rest hnumeral
      obtain ⟨hn, rfl⟩ := numeral?_spells hnumeral
      unfold number at h
      dsimp only at h
      split at h
      · split at h
        · cases h
        · rename_i hfinite
          obtain rfl := Except.error.inj h
          refine ⟨⟨?_, n, hn, .inr ⟨?_, ?_⟩⟩, rfl, nofun⟩
          · simp
          · simp
          · exact Numeral.rank_value (by simpa using hfinite)
      · rename_i hglued
        obtain rfl := Except.error.inj h
        refine ⟨⟨?_, n, hn, .inl ⟨rest.takeWhile isNameChar, ?_, ?_, ?_⟩⟩, rfl, nofun⟩
        · simpa using List.takeWhile_prefix _
        · simp
        · simpa using hglued
        · exact fun c hc => List.mem_takeWhile_imp hc
    · rename_i hnumeral
      obtain rfl := Except.error.inj h
      refine ⟨⟨?_, stopsAt_of_numeral? hnumeral⟩, rfl, fun a ha => (Option.some.inj ha).symm⟩
      intro c hc
      obtain ⟨tail, rfl⟩ := List.head?_eq_some_iff.mp hc
      exact decide_eq_false fun heq => hquote tail (heq ▸ rfl)

/-! ## How the reading fails -/

/-- A fault that is found behind some text: its cause explains the two sides of the place, and with
the repair the text before it is a list of tokens, of which the last is about the attribute that is
named. -/
structure Fault.FoundAfter (fault : Fault) (before : List Char) (ts : List Token) : Prop where
  explains : fault.cause.Explains before fault.rest
  spelled : Token.Spelled ts (before ++ fault.cause.repair.toList)
  named : ∀ path ∈ fault.cause.attribute?, ∃ c : Condition, c.path = path ∧ [.condition c] <:+ ts
  /-- No token starts with the repair. -/
  repair_or : fault.cause.repair = "" ∨ before ≠ []

/-- A fault in a condition is found behind the attribute and what else was read of the condition,
when the repair completes it. -/
theorem Fault.FoundAfter.condition {cause : Cause} {path : String} {read rest : List Char}
    {comparator : Comparator} {literal : Literal} (hname : IsName path.toList)
    (hexplains : cause.Explains (path.toList ++ read) rest)
    (hnamed : ∀ a ∈ cause.attribute?, a = path)
    (hspelling : Token.Spelling (.condition ⟨path, comparator, literal⟩)
      (path.toList ++ read ++ cause.repair.toList) []) :
    FoundAfter ⟨cause, rest⟩ (path.toList ++ read) [.condition ⟨path, comparator, literal⟩] where
  explains := hexplains
  spelled := by
    have hspelled := Token.Spelled.token hspelling (.nil (by simp))
    rwa [List.append_nil] at hspelled
  named := fun a ha => ⟨_, (hnamed a ha).symm, List.suffix_rfl⟩
  repair_or := by
    refine .inr fun hnil => ?_
    rw [(List.append_eq_nil_iff.mp hnil).1] at hname
    exact hname

/-- Blanks may stand before the text that a fault is found behind. -/
theorem Fault.FoundAfter.blanks {fault : Fault} {before blanks : List Char} {ts : List Token}
    (h : fault.FoundAfter before ts) (hblanks : ∀ c ∈ blanks, isBlank c = true) :
    fault.FoundAfter (blanks ++ before) ts where
  explains := h.explains.append blanks
  spelled := by
    rw [List.append_assoc]
    exact h.spelled.blanks hblanks
  named := h.named
  repair_or := h.repair_or.imp_right (List.append_ne_nil_of_right_ne_nil blanks)

/-- The literal zero. -/
theorem spelling_zero : ∃ zero : Literal, zero.Spelling ['0'] [] :=
  ⟨_, .number (n := ⟨false, ['0'], []⟩) ⟨by simp, by simp, by simp⟩ (by decide) (stopsAt_nil _)⟩

/-- **How the rest of a condition fails.**

**Proof sketch.** Behind a name the comparator can be missing, or the literal behind it can fail.
With a zero put in its place the condition is spelled either way. -/
theorem test_error {path : String} {cs : List Char} {fault : Fault} (hname : IsName path.toList)
    (hand : path ≠ "AND") (hor : path ≠ "OR") (h : test path cs = .error fault) :
    ∃ read c, cs = read ++ fault.rest ∧ fault.FoundAfter (path.toList ++ read) [.condition c] := by
  obtain ⟨zero, hzero⟩ := spelling_zero
  have hblanks (cs : List Char) : ∀ c ∈ cs.takeWhile isBlank, isBlank c = true :=
    fun c hc => List.mem_takeWhile_imp hc
  unfold test at h
  split at h
  · rename_i hcomparator
    obtain rfl := Except.error.inj h
    have hexplains : Cause.Explains (path.toList ++ cs.takeWhile isBlank) (skipBlanks cs)
        (.missingComparator path) :=
      ⟨⟨[], _, rfl, hblanks cs⟩, hname, hand, hor, not_symbol_of_comparator? hcomparator⟩
    have hspelling : Token.Spelling (.condition ⟨path, .equal, zero⟩)
        (path.toList ++ cs.takeWhile isBlank ++ Comparator.equal.symbol.toList ++ [] ++ ['0']) [] :=
      .condition hname hand hor (hblanks cs) (by simp) hzero
    refine ⟨cs.takeWhile isBlank, ⟨path, .equal, zero⟩, List.takeWhile_append_dropWhile.symm,
      .condition hname hexplains (fun a ha => (Option.some.inj ha).symm) ?_⟩
    simpa [Cause.repair, Comparator.symbol] using hspelling
  · rename_i comparator tail hcomparator
    split at h
    · rename_i cause hliteral
      obtain rfl := Except.error.inj h
      have hcs : cs = cs.takeWhile isBlank ++
          (comparator.symbol.toList ++ (tail.takeWhile isBlank ++ skipBlanks tail)) := by
        rw [skipBlanks, List.takeWhile_append_dropWhile, ← comparator?_spells hcomparator,
          skipBlanks, List.takeWhile_append_dropWhile]
      let read := cs.takeWhile isBlank ++ (comparator.symbol.toList ++ tail.takeWhile isBlank)
      obtain ⟨hexplains, hrepair, hnamed⟩ := literal_error hliteral (path.toList ++ read)
      have hspelling : Token.Spelling (.condition ⟨path, comparator, zero⟩) (path.toList ++
          cs.takeWhile isBlank ++ comparator.symbol.toList ++ tail.takeWhile isBlank ++ ['0']) [] :=
        .condition hname hand hor (hblanks cs) (hblanks tail) hzero
      refine ⟨read, ⟨path, comparator, zero⟩, by simpa [read] using hcs,
        .condition hname hexplains hnamed ?_⟩
      rw [hrepair]
      simpa [read] using hspelling
    · cases h

/-- **How a token fails**: at its first character, or in a condition.

**Proof sketch.** By the first character. Parentheses and keywords do not fail, a name can fail as a
condition does, and nothing else begins a token. -/
theorem token_error {c : Char} {cs : List Char} {fault : Fault} (hblank : isBlank c = false)
    (h : token c cs = .error fault) :
    ∃ read ts, c :: cs = read ++ fault.rest ∧ fault.FoundAfter read ts := by
  unfold token at h
  by_cases hopen : c = '('
  · rw [if_pos hopen] at h
    cases h
  rw [if_neg hopen] at h
  by_cases hclose : c = ')'
  · rw [if_pos hclose] at h
    cases h
  rw [if_neg hclose] at h
  by_cases hstart : isNameStart c = true
  · rw [if_pos hstart, word] at h
    let name : String := .ofList (c :: cs.takeWhile isNameChar)
    have hlist : name.toList = c :: cs.takeWhile isNameChar := String.toList_ofList
    have hname : IsName name.toList := by
      rw [hlist]
      exact ⟨hstart, fun d hd => List.mem_takeWhile_imp hd⟩
    cases hop : Connective.ofKeyword? name with
    | some op =>
      rw [hop] at h
      cases h
    | none =>
      rw [hop] at h
      obtain ⟨hand, hor⟩ := Connective.ofKeyword?_eq_none_iff.mp hop
      cases htest : test name (cs.dropWhile isNameChar) with
      | ok found =>
        rw [htest] at h
        cases h
      | error fault' =>
        rw [htest] at h
        obtain rfl := Except.error.inj h
        obtain ⟨read, found, hread, hfound⟩ := test_error hname hand hor htest
        refine ⟨name.toList ++ read, _, ?_, hfound⟩
        rw [List.append_assoc, ← hread, hlist, List.cons_append, List.takeWhile_append_dropWhile]
  · rw [if_neg hstart] at h
    obtain rfl := Except.error.inj h
    exact ⟨[], [], rfl, ⟨⟨cs, rfl⟩, hblank, hopen, hclose, by simpa using hstart⟩,
      .nil (by simp [Cause.repair]), fun a ha => absurd ha (Option.not_mem_none a), .inl rfl⟩

end Scan

/-! ## Tokens before a fault -/

/-- A literal that is spelled before some text is spelled before any other that no word goes on
with. -/
theorem Literal.Spelling.before {l : Literal} {s rest other : List Char} (h : l.Spelling s rest)
    (hother : Scan.StopsAt Scan.isNameChar rest → Scan.StopsAt Scan.isNameChar other) :
    l.Spelling s other := by
  cases h with
  | text _ hs => exact .text other hs
  | number hn hfinite hrest => exact .number hn hfinite (hother hrest)

/-- A token that is spelled before some text is spelled before any other that no word goes on
with. -/
theorem Token.Spelling.before {t : Token} {s rest other : List Char} (h : t.Spelling s rest)
    (hother : Scan.StopsAt Scan.isNameChar rest → Scan.StopsAt Scan.isNameChar other) :
    t.Spelling s other := by
  cases h with
  | openParen => exact .openParen other
  | closeParen => exact .closeParen other
  | connective op hrest => exact .connective op (hother hrest)
  | condition hname hand hor hbefore hafter hvalue =>
    exact .condition hname hand hor hbefore hafter (hvalue.before hother)

namespace Scan

/-- **A token may stand before the text that a fault is found behind**: where the fault itself
follows it, nothing is put in its place. -/
theorem Fault.FoundAfter.token {fault : Fault} {before s : List Char} {t : Token} {ts : List Token}
    (h : fault.FoundAfter before ts) (hspelling : t.Spelling s (before ++ fault.rest)) :
    fault.FoundAfter (s ++ before) (t :: ts) where
  explains := h.explains.append s
  spelled := by
    rw [List.append_assoc]
    refine .token (hspelling.before fun hstop => ?_) h.spelled
    cases before with
    | nil =>
      have hrepair : fault.cause.repair = "" := h.repair_or.resolve_right fun hne => hne rfl
      rw [hrepair]
      exact stopsAt_nil _
    | cons c before => exact stopsAt_cons.mpr (stopsAt_cons.mp hstop)
  named := by
    intro path hpath
    obtain ⟨c, hc, hlast⟩ := h.named path hpath
    exact ⟨c, hc, hlast.trans (List.suffix_cons ..)⟩
  repair_or := h.repair_or.imp_right (List.append_ne_nil_of_right_ne_nil s)

/-- **How the reading of a text fails.**

**Proof sketch.** By induction on the length of the text. A token that was read leaves a shorter
text, whose fault is found behind some part of it, and the token is spelled before this part. -/
theorem exists_foundAfter {cs : List Char} {fault : Fault} (h : tokens cs = .error fault) :
    ∃ before ts, cs = before ++ fault.rest ∧ fault.FoundAfter before ts := by
  have hblanks : ∀ d ∈ cs.takeWhile isBlank, isBlank d = true :=
    fun d hd => List.mem_takeWhile_imp hd
  have hcs : cs.takeWhile isBlank ++ skipBlanks cs = cs := List.takeWhile_append_dropWhile
  cases hskip : skipBlanks cs with
  | nil =>
    rw [tokens_of_blanks hskip] at h
    cases h
  | cons c tail =>
    have hstop : StopsAt isBlank (skipBlanks cs) := stopsAt_dropWhile isBlank cs
    have hblank : isBlank c = false := by
      rw [hskip] at hstop
      exact stopsAt_cons.mp hstop
    rw [tokens_of_cons hskip] at h
    cases htoken : token c tail with
    | error fault' =>
      rw [htoken] at h
      obtain rfl := Except.error.inj h
      obtain ⟨read, ts, hread, hfound⟩ := token_error hblank htoken
      refine ⟨_, ts, ?_, hfound.blanks hblanks⟩
      rw [List.append_assoc, ← hread, ← hskip, hcs]
    | ok result =>
      obtain ⟨t, rest⟩ := result
      have hshorter := token_length_lt hskip htoken
      rw [htoken] at h
      cases hrest : tokens rest with
      | ok us => simp [Except.bind, hrest, Except.map] at h
      | error fault' =>
        have hfault : fault' = fault := by simpa [Except.bind, hrest, Except.map] using h
        subst hfault
        obtain ⟨s, hs, hspelling⟩ := token_spells htoken
        obtain ⟨before, ts, rfl, hfound⟩ := exists_foundAfter hrest
        refine ⟨_, _, ?_, (hfound.token hspelling).blanks hblanks⟩
        rw [List.append_assoc, List.append_assoc, ← hs, ← hskip, hcs]
termination_by cs.length

end Scan

/-- **Every error points at the characters that it is about.** It lies between two characters, and
its cause explains the texts before and after it. With the repair in its place the text before it is
a list of tokens, which ends with a condition on the attribute that the error names, if it names
one.

**Proof sketch.** The fault was found behind tokens that are spelled (`Scan.exists_foundAfter`), and
its position is what the text has more than the rest at the fault. -/
theorem Token.scan_error_locates {text : String} {e : LexicalError}
    (h : Token.scan text = .error e) :
    ∃ before after : String, text = before ++ after ∧ e.position = before.utf8ByteSize ∧
      e.cause.Explains before.toList after.toList ∧
      ∃ ts, Token.scan (before ++ e.cause.repair) = .ok ts ∧
        ∀ path ∈ e.cause.attribute?, ∃ c : Condition, c.path = path ∧ [.condition c] <:+ ts := by
  unfold Token.scan at h
  cases htokens : Scan.tokens text.toList with
  | ok ts =>
    rw [htokens] at h
    cases h
  | error fault =>
    rw [htokens] at h
    obtain rfl := Except.error.inj h
    obtain ⟨before, ts, htext, hfound⟩ := Scan.exists_foundAfter htokens
    have hsplit : text = .ofList before ++ .ofList fault.rest := by
      rw [← String.ofList_append, ← htext, String.ofList_toList]
    refine ⟨.ofList before, .ofList fault.rest, hsplit, ?_, ?_, ts, ?_, hfound.named⟩
    · rw [hsplit, String.utf8ByteSize_append, Nat.add_sub_cancel]
    · rw [String.toList_ofList, String.toList_ofList]
      exact hfound.explains
    · rw [scan_eq_ok_iff_tokens, String.toList_append, String.toList_ofList]
      exact Scan.tokens_of_spelled hfound.spelled

/-- An attribute between blanks of several bytes, with no comparator behind it. -/
theorem Token.scan_error_locates_spaced :
    let text := "(name = 'é' AND\u2003b\u2003≥ 1"
    ∃ before after : String, Token.scan text = .error ⟨23, .missingComparator "b"⟩ ∧
      text = before ++ after ∧ 23 = before.utf8ByteSize ∧
      ∃ ts, Token.scan (before ++ "=0") = .ok ts ∧
        ∃ c : Condition, c.path = "b" ∧ [.condition c] <:+ ts := by
  intro text
  have h : Token.scan text = .error ⟨23, .missingComparator "b"⟩ := by decide +kernel
  obtain ⟨before, after, htext, hposition, -, ts, hts, hnamed⟩ := Token.scan_error_locates h
  exact ⟨before, after, h, htext, hposition, ts, hts, hnamed "b" rfl⟩

end Eligibility
