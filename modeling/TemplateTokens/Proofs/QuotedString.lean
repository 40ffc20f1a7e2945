import TemplateTokens.Proofs.Lexeme.LongestOperator
import TemplateTokens.Proofs.Lexeme.StringUnit
import TemplateTokens.Proofs.Lexer.Advance

/-!
# Strings without an interpolation

A double-quoted string in which no interpolation begins is read in one of two ways: whole, by one
step of an expression, or quote, body and quote one after the other, if its body has the character
that an interpolation begins with. Both ways end in the same state with the same tokens. What may
come between is an operator found at the quote. None begins with one, but an operator that is
written with white space alone is found in front of every character, and where the vocabulary has
such an operator no string is ever read.

Results:

* `Dialect.operatorAt?_quote`, `Dialect.operatorAt?_quote_of_not_visible`: the operator found at a
  quote.
* `Lexicon.StringSteps.unique`: the steps inside of a string lead to one state only.
* `State.leadsOverString_of_quoted`, `State.leadsOverString_of_quote`: the two ways.
* `State.leadsOverString_iff_visible`: they read the string exactly if every operator has a
  character that is not white space.
* `State.exists_not_leadsOverString`: in a dialect without defect whose operator is a space no
  string is read.
-/

namespace TemplateTokens

open Piece

/-! ## Operators at a quote -/

/-- The first character of an operator that is not white space. -/
def firstVisible? (o : Text) : Option Char := o.find? fun c => !isWhiteSpace c

theorem head?_of_splitWords {o w : Text} {ws : List Text} (h : splitWords o = w :: ws) :
    w.head? = firstVisible? o := by
  have hne : w ≠ [] := splitWords_ne_nil (h ▸ List.mem_cons_self)
  obtain ⟨c, w, rfl⟩ := List.exists_cons_of_ne_nil hne
  rw [firstVisible?, ← List.head?_filter, ← flatten_splitWords, h]
  rfl

/-- In front of a character that no word of its begins with, an operator takes up nothing. -/
theorem Operator.eq_nil_of_at?_ofText {o t v : Text} {c : Char} (ho : firstVisible? o ≠ some c)
    (h : (ofText o).at? (c :: t) = some v) : v = [] := by
  cases hwords : splitWords o with
  | nil =>
    obtain ⟨found, hfound, hguard⟩ := Option.bind_eq_some_iff.1 h
    rw [show (ofText o).words = [] from hwords, wordsAt?] at hfound
    cases hfound
    split at hguard
    · cases hguard
    · exact (Option.some.inj hguard).symm
  | cons w ws =>
    obtain ⟨rest, hsplit, -⟩ := exists_of_at? (show (ofText o).words = w :: ws from hwords) h
    have hfirst := head?_of_splitWords hwords
    cases w with
    | nil => exact absurd rfl (splitWords_ne_nil (hwords ▸ List.mem_cons_self))
    | cons b w =>
      obtain rfl : c = b := (List.cons.inj hsplit).1
      exact absurd hfirst.symm ho

/-- An operator of white space takes up nothing in front of every text. -/
theorem Operator.at?_ofText_of_blank {o : Text} (ho : ∀ c ∈ o, isWhiteSpace c = true) (t : Text) :
    (ofText o).at? t = some [] := by
  have hguarded : (ofText o).guarded = false := by
    unfold ofText
    cases hlast : o.getLast? with
    | none => rfl
    | some c =>
      have hletter := isWordChar_of_isWhiteSpace (ho c (List.mem_of_getLast? hlast))
      simp only [isWordChar, isLetter, Bool.or_eq_false_iff] at hletter
      exact hletter.1.1
  rw [at?, show (ofText o).words = [] from splitWords_eq_nil_iff.2 ho, hguarded]
  rfl

/-- Operators of which none begins with a quote take up nothing in front of one. -/
theorem eq_nil_of_operatorAt?_quote {operators : List Text}
    (h : ∀ o ∈ operators, firstVisible? o ≠ some '"') {t v : Text}
    (hv : operatorAt? (vocabulary operators) ('"' :: t) = some v) : v = [] := by
  obtain ⟨operator, hmem, hat⟩ := List.exists_of_findSome?_eq_some hv
  obtain ⟨o, ho, rfl⟩ := List.mem_map.1 hmem
  refine Operator.eq_nil_of_at?_ofText ?_ hat
  rcases mem_withAssignment (mem_largestFirst.1 ho) with ho | rfl
  · exact h o ho
  · decide

namespace Dialect

variable {d : Dialect}

/-- Where every operator can be seen, none is found at a quote. -/
theorem operatorAt?_quote (h : ∀ o ∈ d.operators, firstVisible? o ≠ some '"') (hv : d.Visible)
    (t : Text) : operatorAt? (Lexicon.ofDialect d).ranked ('"' :: t) = none := by
  refine Option.eq_none_iff_forall_ne_some.2 fun v hfound => ?_
  exact operatorAt?_ne_nil hv.lexicon hfound (eq_nil_of_operatorAt?_quote h hfound)

/-- Where one cannot be seen, one with an empty text is found. -/
theorem operatorAt?_quote_of_not_visible (h : ∀ o ∈ d.operators, firstVisible? o ≠ some '"')
    (hv : ¬ d.Visible) (t : Text) :
    operatorAt? (Lexicon.ofDialect d).ranked ('"' :: t) = some [] := by
  obtain ⟨o, ho, hblank⟩ : ∃ o ∈ d.operators, ∀ c ∈ o, isWhiteSpace c = true := by
    simpa [Visible] using hv
  have hmem : Operator.ofText o ∈ (Lexicon.ofDialect d).ranked :=
    List.mem_map.2 ⟨o, mem_largestFirst.2 (mem_withAssignment_iff.2 (Or.inl ho)), rfl⟩
  have hsome : (operatorAt? (Lexicon.ofDialect d).ranked ('"' :: t)).isSome := by
    rw [operatorAt?, List.findSome?_isSome_iff]
    exact ⟨_, hmem, by rw [Operator.at?_ofText_of_blank hblank]; rfl⟩
  obtain ⟨v, hfound⟩ := Option.isSome_iff_exists.1 hsome
  rw [hfound, eq_nil_of_operatorAt?_quote h hfound]

end Dialect

/-- Where no operator is found, a quote begins a whole string or one that is read in pieces. -/
theorem Lexicon.lexemeAt?_of_quote {lx : Lexicon} {t : Text}
    (h : operatorAt? lx.ranked ('"' :: t) = none) :
    lx.lexemeAt? '"' ('"' :: t) = some ((lx.quotedString? ('"' :: t)).elim .quote .quoted) := by
  have hname : name? ('"' :: t) = none := rfl
  have hnumber : number? ('"' :: t) = none := rfl
  rw [lexemeAt?, h, hname, hnumber]
  cases lx.quotedString? ('"' :: t) <;> rfl

/-- The standard dialect with a space for its operator. -/
def Dialect.spaced : Dialect := { Dialect.standard with operators := [[' ']] }

/-! ## Steps -/

/-- The steps of a run inside of a string, up to the first state that is outside of it. -/
inductive Lexicon.StringSteps (lx : Lexicon) : State → State → Prop
  | done {s : State} : s.mode ≠ .string → StringSteps lx s s
  | step {s s₁ s' : State} : s.mode = .string → s.rest ≠ [] → s.step lx = .ok s₁ →
      StringSteps lx s₁ s' → StringSteps lx s s'

/-- The steps inside of a string lead to one state only. -/
theorem Lexicon.StringSteps.unique {lx : Lexicon} {s s' s'' : State} (h : lx.StringSteps s s')
    (h' : lx.StringSteps s s'') : s' = s'' := by
  induction h with
  | done hmode =>
    cases h' with
    | done => rfl
    | step hstring => exact absurd hstring hmode
  | step hstring _ hstep _ ih =>
    cases h' with
    | done hmode => exact absurd hstring hmode
    | step _ _ hstep' hlater =>
      cases hstep.symm.trans hstep'
      exact ih hlater

namespace State

/-- A step of an expression at a quote, and the steps inside of the string to which it leads, read
a quote, a body and a quote. They stop in front of `tail`, and the stacks are as they were. -/
def LeadsOverString (lx : Lexicon) (s : State) (body tail : Text) : Prop :=
  ∃ s₁ s', s.expressionStep lx = .ok s₁ ∧ lx.StringSteps s₁ s' ∧
    s.Reads ([⟨.openingQuote, ['"']⟩] ++
      (unlessEmpty .string body ++ [⟨.closingQuote, ['"']⟩])) s' ∧
    s'.rest = tail ∧ s'.toStacks = s.toStacks

section

variable {d : Dialect} {lx : Lexicon} {s : State} {body tail t : Text}

/-- At a quote a step of an expression takes what is found there. -/
theorem expressionStep_quote (hrest : s.rest = '"' :: t) {l : Lexeme}
    (hl : lx.lexemeAt? '"' ('"' :: t) = some l) : s.expressionStep lx = s.takeLexeme l := by
  have hblank : s.emitBlanks = s := by
    rw [emitBlanks, hrest]
    rfl
  rw [expressionStep, hblank, hrest]
  dsimp only
  rw [hl]

/-! ## Both ways over a string -/

/-- A string that is taken whole. -/
theorem leadsOverString_of_quoted (hmode : s.mode.IsExpression)
    (hrest : s.rest = '"' :: (body ++ '"' :: tail))
    (hl : lx.lexemeAt? '"' ('"' :: (body ++ '"' :: tail)) = some (.quoted ⟨'"', body⟩)) :
    s.LeadsOverString lx body tail := by
  obtain ⟨s', htake, hstacks⟩ : ∃ s', s.takeLexeme (.quoted ⟨'"', body⟩) = .ok s' ∧
      s'.toStacks = s.toStacks := takeLexeme_of_acts .quoted
  obtain ⟨-, hread, -⟩ := takeLexeme_ok (hrest ▸ Lexicon.starts_of_lexemeAt? hl) htake
  refine ⟨s', s', (expressionStep_quote hrest hl).trans htake, .done ?_, hread, ?_, hstacks⟩
  · rw [show s'.mode = s.mode from congrArg Stacks.mode hstacks]
    exact hmode.2
  · exact hread.rest_of_eq (by simp [hrest, Lexeme.pieces])

/-- Inside of a string a body is read by one step, or by none if it is empty. -/
theorem stringSteps_body (hbody : IsBody lx.interpolation.opening body tail)
    (hmode : s.mode = .string) (hrest : s.rest = body ++ '"' :: tail) {s' : State}
    (h : lx.StringSteps (s.emitSome .string body) s') : lx.StringSteps s s' := by
  by_cases hne : body = []
  · subst hne
    exact h
  have hopen : lx.interpolationOpen? s.rest = none := by
    refine Option.eq_none_iff_forall_ne_some.2 fun blank hblank => hbody.not_isPrefix hne ?_
    rw [← hrest]
    exact (List.prefix_append _ blank).trans (Dialect.interpolationOpen?_eq_some hblank)
  have hpiece : stringPiece lx.interpolation.opening s.rest = body := by
    rw [hrest, stringPiece_of_isBody hbody]
  refine .step hmode (by simp [hrest]) ?_ h
  rw [step, hmode]
  dsimp only
  rw [stringStep, hopen]
  dsimp only
  rw [hpiece, emitSome, List.isEmpty_eq_false_iff.2 hne]
  obtain ⟨c, t, rfl⟩ := List.exists_cons_of_ne_nil hne
  rfl

/-- Inside of a string a quote is read that begins no interpolation, and the string is left. -/
theorem step_closingQuote (hopening : ¬ lx.interpolation.opening <+: '"' :: tail)
    (hmode : s.mode = .string) (hcloser : s.quoteCloser = ['"']) (hrest : s.rest = '"' :: tail) :
    s.step lx = .ok (s.closeScope.emit .closingQuote ['"']).leave := by
  have hopen : lx.interpolationOpen? ('"' :: tail) = none := by
    refine Option.eq_none_iff_forall_ne_some.2 fun blank hblank => hopening ?_
    exact (List.prefix_append _ blank).trans (Dialect.interpolationOpen?_eq_some hblank)
  rw [step, hmode]
  dsimp only
  rw [stringStep, hrest, hopen]
  show Except.ok (s.closeScope.emit .closingQuote s.quoteCloser).leave = _
  rw [hcloser]

/-- Inside of a string a body and the quote behind it are read, and the string is left. -/
theorem exists_stringSteps (hbody : IsBody lx.interpolation.opening body tail)
    (hopening : ¬ lx.interpolation.opening <+: '"' :: tail) (hmode : s.mode = .string)
    (hcloser : s.quoteCloser = ['"']) (hrest : s.rest = body ++ '"' :: tail)
    (hleave : s.toStacks.pop.leave.mode ≠ .string) :
    ∃ s', lx.StringSteps s s' ∧
      s.Reads (unlessEmpty .string body ++ [⟨.closingQuote, ['"']⟩]) s' ∧
      s'.toStacks = s.toStacks.pop.leave := by
  have hread := Reads.emitSome .string hrest
  have hstacks : (s.emitSome .string body).toStacks = s.toStacks := toStacks_emitSome _ _ _
  -- Behind the body, if there is one, the string is as it was.
  generalize hs₁ : s.emitSome .string body = s₁ at hread hstacks
  have hrest₁ : s₁.rest = '"' :: tail := hread.rest_of_eq (by rw [texts_unlessEmpty, hrest])
  have hmode₁ : s₁.mode = .string := (congrArg Stacks.mode hstacks).trans hmode
  have hcloser₁ : s₁.quoteCloser = ['"'] := by
    rw [quoteCloser, show s₁.scopes = s.scopes from congrArg Stacks.scopes hstacks]
    exact hcloser
  have hstep := step_closingQuote hopening hmode₁ hcloser₁ hrest₁
  have hread' : s₁.Reads [⟨.closingQuote, ['"']⟩]
      (s₁.closeScope.emit .closingQuote ['"']).leave := reads_closeQuote hrest₁
  have hstacks' : (s₁.closeScope.emit .closingQuote ['"']).leave.toStacks =
      s.toStacks.pop.leave := by
    rw [toStacks_leave, toStacks_emit, toStacks_closeScope, hstacks]
  refine ⟨_, ?_, hread.trans hread', hstacks'⟩
  apply stringSteps_body hbody hmode hrest
  rw [hs₁]
  refine .step hmode₁ (by simp [hrest₁]) hstep (.done ?_)
  intro hstring
  exact hleave ((congrArg Stacks.mode hstacks').symm.trans hstring)

/-- A string that is read in pieces. -/
theorem leadsOverString_of_quote (hmode : s.mode.IsExpression)
    (hbody : IsBody lx.interpolation.opening body tail)
    (hopening : ¬ lx.interpolation.opening <+: '"' :: tail)
    (hrest : s.rest = '"' :: (body ++ '"' :: tail))
    (hl : lx.lexemeAt? '"' ('"' :: (body ++ '"' :: tail)) = some .quote) :
    s.LeadsOverString lx body tail := by
  obtain ⟨s₁, htake, hmode₁, hcloser₁, hstacks₁⟩ : ∃ s₁, s.takeLexeme .quote = .ok s₁ ∧
      s₁.mode = .string ∧ s₁.quoteCloser = ['"'] ∧ s₁.toStacks.pop.leave = s.toStacks :=
    ⟨_, rfl, rfl, rfl, rfl⟩
  obtain ⟨-, hread₁, -⟩ := takeLexeme_ok (hrest ▸ Lexicon.starts_of_lexemeAt? hl) htake
  have hrest₁ : s₁.rest = body ++ '"' :: tail :=
    hread₁.rest_of_eq (by simp [hrest, Lexeme.pieces])
  have hleave : s₁.toStacks.pop.leave.mode ≠ .string := by
    rw [hstacks₁]
    exact hmode.2
  obtain ⟨s', hsteps, hread, hstacks⟩ :=
    exists_stringSteps hbody hopening hmode₁ hcloser₁ hrest₁ hleave
  have hreads := hread₁.trans hread
  refine ⟨s₁, s', (expressionStep_quote hrest hl).trans htake, hsteps, hreads, ?_,
    hstacks.trans hstacks₁⟩
  exact hreads.rest_of_eq (by simp [hrest, Lexeme.pieces])

/-- Where one of the operators cannot be seen, an operator is read at every quote. -/
theorem not_leadsOverString (hoperators : ∀ o ∈ d.operators, firstVisible? o ≠ some '"')
    (hv : ¬ d.Visible) (hmode : s.mode.IsExpression)
    (hrest : s.rest = '"' :: (body ++ '"' :: tail)) :
    ¬ s.LeadsOverString (.ofDialect d) body tail := by
  rintro ⟨s₁, s', hstep, hsteps, -, htail, -⟩
  have hl : (Lexicon.ofDialect d).lexemeAt? '"' ('"' :: (body ++ '"' :: tail)) =
      some (.plain .operator []) := by
    rw [Lexicon.lexemeAt?, Dialect.operatorAt?_quote_of_not_visible hoperators hv]
  rw [expressionStep_quote hrest hl] at hstep
  cases hstep
  cases hsteps with
  | step hstring => exact hmode.2 hstring
  | done =>
    have hsame : (s.emit .operator []).rest = s.rest := rest_emit rfl
    rw [hsame, hrest] at htail
    have hlength := congrArg List.length htail
    simp at hlength
    omega

/-- Whether or not the body of a string has the character that an interpolation begins with, the
string is read between two quotes, exactly if every operator can be seen. -/
theorem leadsOverString_iff_visible (hd : d.defect? = none)
    (hopening : d.interpolation.opening.head? ≠ some '"')
    (hoperators : ∀ o ∈ d.operators, firstVisible? o ≠ some '"')
    (hbody : IsBody d.interpolation.opening body tail) (hmode : s.mode.IsExpression)
    (hrest : s.rest = '"' :: (body ++ '"' :: tail)) :
    s.LeadsOverString (.ofDialect d) body tail ↔ d.Visible := by
  constructor
  · intro h
    by_contra hv
    exact not_leadsOverString hoperators hv hmode hrest h
  · intro hv
    have hne := Dialect.interpolation_opening_ne_nil hd
    obtain ⟨c, opening, hcons⟩ := List.exists_cons_of_ne_nil hne
    have hnone := Dialect.operatorAt?_quote hoperators hv (body ++ '"' :: tail)
    have hl := Lexicon.lexemeAt?_of_quote hnone
    have hwhole := quotedBody?_of_isBody hbody c
    rw [Lexicon.ofDialect_toDialect, Dialect.quotedString?, hcons, List.head?_cons, hwhole] at hl
    by_cases hunit : [c] ∈ units body
    · rw [if_pos hunit] at hl
      refine leadsOverString_of_quote hmode hbody ?_ hrest hl
      rw [Lexicon.ofDialect_toDialect, hcons, List.cons_prefix_cons]
      rintro ⟨rfl, -⟩
      exact hopening (by rw [hcons]; rfl)
    · rw [if_neg hunit] at hl
      exact leadsOverString_of_quoted hmode hrest hl

end

/-- A string with a number sign and escaped quotes in it, which is read in pieces. -/
theorem leadsOverString_numberSign : LeadsOverString (.ofDialect .standard)
    { start .standard "\"# \\\"a\\\"\" | upper".toList with mode := .block, outer := [.data] }
    "# \\\"a\\\"".toList " | upper".toList :=
  (leadsOverString_iff_visible Dialect.defect?_standard (by decide) (by decide) (by decide)
    ⟨by decide, by decide⟩ (by decide)).2 (by decide)

/-- In a dialect without defect whose operator is a space, the string of a print tag is not read
when it is reached. -/
theorem exists_not_leadsOverString : Dialect.spaced.defect? = none ∧
    Dialect.spaced.interpolation.opening.head? = some '#' ∧
    (∀ o ∈ Dialect.spaced.operators, firstVisible? o ≠ some '"') ∧
    IsBody Dialect.spaced.interpolation.opening ['a'] ['}', '}'] ∧
    ∃ s, (start .spaced ['{', '{', '"', 'a', '"', '}', '}']).step (.ofDialect .spaced) = .ok s ∧
      s.mode = .print ∧ s.rest = '"' :: (['a'] ++ '"' :: ['}', '}']) ∧
      ¬ s.LeadsOverString (.ofDialect .spaced) ['a'] ['}', '}'] := by
  refine ⟨by decide, rfl, by decide, by decide, _, rfl, rfl, rfl, ?_⟩
  exact not_leadsOverString (by decide) (by decide) ⟨by decide, by decide⟩ rfl

end State

end TemplateTokens
