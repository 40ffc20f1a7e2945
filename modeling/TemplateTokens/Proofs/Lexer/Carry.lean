import TemplateTokens.Proofs.Lexeme.Extension
import TemplateTokens.Proofs.Lexer.Opened

/-!
# A run inside of another

The run over a template goes on like the run over a part of it, only at other locations, with other
tokens before its own and with more text behind. Two states are related here when one is the other
put into such surroundings. A step keeps them related if nothing that it looks at depends on the
text behind.

Results:

* `State.Carries.of_reads`: two states stay related when both read the same pieces and do the same
  to their stacks.
* `State.Settled`: what a step looks at, and `State.settled_nil`: all of it is settled where no text
  is added.
* `State.Carries.step`: a step that is settled keeps two states related, or fails in both.
-/

namespace TemplateTokens

open Piece

/-! ## Other locations -/

/-- Moving over text commutes with `f`, from the first line on. -/
def Location.Commutes (f : Location → Location) : Prop :=
  ∀ (l : Location) (t : Text), 1 ≤ l.line → f (l.advance t) = (f l).advance t

theorem Location.le_line_advance (l : Location) (t : Text) : l.line ≤ (l.advance t).line := by
  by_cases h : countLineBreaks t = 0
  · exact Nat.le_of_eq (by rw [advance, if_pos h])
  · rw [advance, if_neg h]
    exact Nat.le_add_right _ _

/-- A token put to another location. -/
def Token.relocate (f : Location → Location) (t : Token) : Token :=
  { t with location := f t.location }

/-- A scope opened at another location. -/
def Scope.relocate (f : Location → Location) (scope : Scope) : Scope :=
  { scope with openedAt := f scope.openedAt }

/-- A cause with other locations in it. -/
def SyntaxError.Cause.relocate (f : Location → Location) : SyntaxError.Cause → SyntaxError.Cause
  | .unclosedBracket opener openedAt => .unclosedBracket opener (f openedAt)
  | .unclosed construct openedAt => .unclosed construct (f openedAt)
  | .unclosedScope opener openedAt => .unclosedScope opener (f openedAt)
  | cause => cause

/-- An error at another location. -/
def SyntaxError.relocate (f : Location → Location) (e : SyntaxError) : SyntaxError :=
  ⟨e.cause.relocate f, f e.location⟩

namespace Stacks

/-- Two stacks whose scopes were opened at other locations. -/
def relocate (f : Location → Location) (st : Stacks) : Stacks :=
  { st with scopes := st.scopes.map (Scope.relocate f) }

variable (f : Location → Location) (st : Stacks)

@[simp] theorem relocate_enter (m : Mode) : (st.enter m).relocate f = (st.relocate f).enter m := rfl

@[simp] theorem relocate_leave : st.leave.relocate f = (st.relocate f).leave := rfl

@[simp] theorem relocate_push (scope : Scope) :
    (st.push scope).relocate f = (st.relocate f).push (scope.relocate f) := rfl

@[simp] theorem relocate_pop : st.pop.relocate f = (st.relocate f).pop := by
  simp only [relocate, pop, List.map_tail]

end Stacks

namespace Piece

variable {f : Location → Location} (hf : Location.Commutes f)

include hf

theorem relocate_stop {p p' : Position} (hp : p'.toLocation = f p.toLocation) (hl : 1 ≤ p.line)
    (ps : List Piece) : (stop p' ps).toLocation = f (stop p ps).toLocation := by
  induction ps generalizing p p' with
  | nil => exact hp
  | cons q ps ih =>
    refine ih ?_ (Nat.le_trans hl (Location.le_line_advance _ _))
    rw [Position.toLocation_advance, hp, ← hf _ _ hl, Position.toLocation_advance]

theorem relocate_tokensFrom {l : Location} (hl : 1 ≤ l.line) (ps : List Piece) :
    tokensFrom (f l) ps = (tokensFrom l ps).map (Token.relocate f) := by
  induction ps generalizing l with
  | nil => rfl
  | cons p ps ih =>
    rw [tokensFrom, tokensFrom, List.map_cons, ← hf _ _ hl,
      ih (Nat.le_trans hl (Location.le_line_advance _ _))]
    rfl

end Piece

theorem Piece.le_line_stop (p : Position) (ps : List Piece) : p.line ≤ (stop p ps).line := by
  induction ps generalizing p with
  | nil => exact Nat.le_refl _
  | cons q ps ih => exact Nat.le_trans (Location.le_line_advance _ q.value) (ih (p.advance q.value))

/-! ## Parts of a step -/

namespace State

section

variable {lx : Lexicon} {s : State}

theorem tagStep_eq (lx : Lexicon) (s : State) (kind : Token.Kind)
    (end? : Text → Option TagEnd) :
    s.tagStep lx kind end? =
      match if s.scopes.isEmpty then end? (s.rest.dropWhile isBlank) else none with
      | some e =>
        .ok (s.emitBlanks.emitTrim lx.toDialect e.modifier |>.emit kind e.delimiter |>.leave)
      | none => s.expressionStep lx := by
  have hscopes : s.emitBlanks.scopes = s.scopes := congrArg Stacks.scopes s.toStacks_emitBlanks
  rw [tagStep]
  rw [hscopes, rest_emitBlanks]
  cases (if s.scopes.isEmpty then end? (s.rest.dropWhile isBlank) else none) with
  | none => exact expressionStep_emitBlanks lx s
  | some e => rfl

/-- A state that reads a piece of an expression does so in its step. -/
theorem Expects.step_eq (h : s.Expects lx) : s.step lx = s.expressionStep lx := by
  have hifelse {α : Type} {b : Bool} {x : Option α} (hx : b = true → x = none) :
      (if b then x else none) = none := by
    cases b with
    | false => rfl
    | true => exact hx rfl
  rw [Expects] at h
  rw [step]
  cases hmode : s.mode with
  | data =>
    rw [hmode] at h
    exact h.elim
  | string =>
    rw [hmode] at h
    exact h.elim
  | print =>
    rw [hmode] at h
    dsimp only
    rw [tagStep_eq, hifelse fun hnil => h (List.isEmpty_iff.1 hnil)]
  | block =>
    rw [hmode] at h
    dsimp only
    rw [tagStep_eq, hifelse fun hnil => h (List.isEmpty_iff.1 hnil)]
  | interpolation =>
    rw [hmode] at h
    dsimp only
    rw [interpolationStep, hifelse fun hopener => h (beq_iff_eq.1 hopener)]

/-- If something remains behind the blanks, a step that reads a piece of an expression finds one
there and takes it. -/
theorem Expects.exists_lexeme {s' : State} (h : s.Expects lx) (hstep : s.step lx = .ok s')
    {c : Char} {t : Text} (hrest : s.rest.dropWhile isBlank = c :: t) :
    ∃ l, lx.lexemeAt? c (c :: t) = some l ∧ s.emitBlanks.takeLexeme l = .ok s' := by
  rw [h.step_eq, expressionStep] at hstep
  rw [rest_emitBlanks, hrest] at hstep
  dsimp only at hstep
  cases hl : lx.lexemeAt? c (c :: t) with
  | none =>
    rw [hl] at hstep
    cases hstep
  | some l =>
    rw [hl] at hstep
    exact ⟨l, rfl, hstep⟩

theorem reads_tagEnd {e : TagEnd} {kind : Token.Kind} {rest : Text}
    (h : s.rest = texts (e.pieces lx.toDialect kind) ++ rest) :
    s.Reads (e.pieces lx.toDialect kind)
      (s.emitTrim lx.toDialect e.modifier |>.emit kind e.delimiter) := by
  have hsplit : s.rest = lx.modifierText e.modifier ++ (e.delimiter ++ rest) := by
    simpa [TagEnd.pieces] using h
  exact (Reads.emitTrim hsplit).andEmit kind e.delimiter rest (by simpa using hsplit)

theorem reads_openInterpolation {blank rest : Text}
    (h : s.rest = lx.interpolation.opening ++ (blank ++ rest)) :
    s.Reads ([⟨.interpolationStart, lx.interpolation.opening⟩] ++ unlessEmpty .whitespace blank)
      (s.openScope lx.interpolation.opening lx.interpolation.closing
        |>.emit .interpolationStart lx.interpolation.opening
        |>.emitSome .whitespace blank
        |>.enter .interpolation) := by
  have hread : (s.openScope lx.interpolation.opening lx.interpolation.closing).Reads
      [⟨.interpolationStart, lx.interpolation.opening⟩] _ := .emit _ h
  have hread := hread.andEmitSome .whitespace blank rest (by simpa using h)
  exact hread.of_openScope.enter .interpolation

theorem reads_closeInterpolation {blank rest : Text}
    (h : s.rest = blank ++ (lx.interpolation.closing ++ rest)) :
    s.Reads (unlessEmpty .whitespace blank ++ [⟨.interpolationEnd, lx.interpolation.closing⟩])
      (s.emitSome .whitespace blank
        |>.emit .interpolationEnd lx.interpolation.closing
        |>.closeScope
        |>.leave) := by
  have hread := (Reads.emitSome .whitespace h).andEmit .interpolationEnd lx.interpolation.closing
    rest (by simpa using h)
  exact hread.closeScope.leave

theorem reads_closeQuote {closer rest : Text} (h : s.rest = closer ++ rest) :
    s.Reads [⟨.closingQuote, closer⟩] (s.closeScope.emit .closingQuote closer).leave := by
  have hread : s.closeScope.Reads [⟨.closingQuote, closer⟩]
      (s.closeScope.emit .closingQuote closer) := .emit _ h
  exact hread.of_closeScope.leave

theorem expects_of_tagEnd? {tag : Tag} (htag : tag ≠ .comment) (hmode : s.mode = tag.mode)
    (h : s.scopes = [] → lx.tagEnd? tag (s.rest.dropWhile isBlank) = none) : s.Expects lx := by
  rw [Expects, hmode]
  cases tag with
  | comment => exact absurd rfl htag
  | print => exact h
  | block => exact h

end

end State

/-! ## States in other surroundings -/

namespace State

/-- `s'` is `s` with its locations moved by `f`, the tokens `earlier` before its own, and `more`
behind its rest. Where no tag is open, the location of the last one does not count. -/
structure Carries (f : Location → Location) (earlier : List Token) (more : Text) (s s' : State) :
    Prop where
  rest_eq : s'.rest = s.rest ++ more
  location_eq : s'.position.toLocation = f s.position.toLocation
  line_pos : 1 ≤ s.position.line
  stacks_eq : s'.toStacks = s.toStacks.relocate f
  tokens_eq : s'.tokens.toList = earlier ++ s.tokens.toList.map (Token.relocate f)
  tagOpenedAt_eq : s.mode ≠ .data → s'.tagOpenedAt = f s.tagOpenedAt

/-- Two results of steps from related states. -/
def Follows (f : Location → Location) (earlier : List Token) (more : Text) :
    Except SyntaxError State → Except SyntaxError State → Prop
  | .ok s, .ok s' => Carries f earlier more s s'
  | .error e, .error e' => e' = e.relocate f
  | _, _ => False

namespace Carries

variable {f : Location → Location} {earlier : List Token} {more : Text} {s s' s₁ s₁' : State}
  {ps : List Piece} {lx : Lexicon}

theorem mode_eq (h : Carries f earlier more s s') : s'.mode = s.mode :=
  congrArg Stacks.mode h.stacks_eq

theorem scopes_eq (h : Carries f earlier more s s') :
    s'.scopes = s.scopes.map (Scope.relocate f) := congrArg Stacks.scopes h.stacks_eq

theorem scopes_isEmpty (h : Carries f earlier more s s') :
    s'.scopes.isEmpty = s.scopes.isEmpty := by
  rw [h.scopes_eq]
  cases s.scopes <;> rfl

theorem opener_eq (h : Carries f earlier more s s') :
    s'.scopes.head?.map Scope.opener = s.scopes.head?.map Scope.opener := by
  rw [h.scopes_eq]
  cases s.scopes <;> rfl

theorem quoteCloser_eq (h : Carries f earlier more s s') : s'.quoteCloser = s.quoteCloser := by
  rw [quoteCloser, quoteCloser, h.scopes_eq]
  cases s.scopes <;> rfl

/-- An error at one of two related states is an error at the other. -/
theorem error_eq (h : Carries f earlier more s s') (cause : SyntaxError.Cause) :
    s'.error (cause.relocate f) = (s.error cause).relocate f := by
  rw [error, error, h.location_eq]
  rfl

theorem of_reads (hf : Location.Commutes f) (h : Carries f earlier more s s') (hs : s.Reads ps s₁)
    (hs' : s'.Reads ps s₁') (hstacks : s₁'.toStacks = s₁.toStacks.relocate f)
    (htag : s₁.mode ≠ .data → s₁'.tagOpenedAt = f s₁.tagOpenedAt) :
    Carries f earlier more s₁ s₁' where
  rest_eq := by
    refine hs'.rest_of_eq ?_
    rw [h.rest_eq, hs.rest_eq, List.append_assoc]
  location_eq := by
    rw [hs'.position_eq, hs.position_eq]
    exact relocate_stop hf h.location_eq h.line_pos ps
  line_pos := by
    rw [hs.position_eq]
    exact Nat.le_trans h.line_pos (le_line_stop _ _)
  stacks_eq := hstacks
  tokens_eq := by
    rw [hs'.tokens_eq, hs.tokens_eq, h.tokens_eq, h.location_eq,
      relocate_tokensFrom hf h.line_pos, List.map_append, List.append_assoc]
  tagOpenedAt_eq := htag

/-- States inside a tag stay related when both read the same and neither opens a tag. -/
theorem of_reads_inside (hf : Location.Commutes f) (h : Carries f earlier more s s')
    (hmode : s.mode ≠ .data) (hs : s.Reads ps s₁) (hs' : s'.Reads ps s₁')
    (hstacks : s₁'.toStacks = s₁.toStacks.relocate f) (htag : s₁.tagOpenedAt = s.tagOpenedAt)
    (htag' : s₁'.tagOpenedAt = s'.tagOpenedAt) : Carries f earlier more s₁ s₁' :=
  h.of_reads hf hs hs' hstacks fun _ => by rw [htag, htag', h.tagOpenedAt_eq hmode]

/-! ## Expressions -/

theorem blanks_eq (h : Carries f earlier more s s')
    (hdrop : (s.rest ++ more).dropWhile isBlank = s.rest.dropWhile isBlank ++ more) :
    blanks s'.rest = blanks s.rest := by
  have hall := blanks_append_dropWhile (s.rest ++ more)
  rw [hdrop, ← List.append_assoc] at hall
  rw [h.rest_eq]
  have := List.append_cancel_right hall
  exact List.append_cancel_right (this.trans (blanks_append_dropWhile s.rest).symm)

theorem emitBlanks (hf : Location.Commutes f) (h : Carries f earlier more s s')
    (hdrop : (s.rest ++ more).dropWhile isBlank = s.rest.dropWhile isBlank ++ more)
    (htag : s.mode ≠ .data → s'.tagOpenedAt = f s.tagOpenedAt) :
    Carries f earlier more s.emitBlanks s'.emitBlanks := by
  have hs' := Reads.emitBlanks s'
  rw [h.blanks_eq hdrop] at hs'
  refine h.of_reads hf (Reads.emitBlanks s) hs' ?_ fun hmode => ?_
  · rw [toStacks_emitBlanks, toStacks_emitBlanks, h.stacks_eq]
  · rw [State.emitBlanks, State.emitBlanks, tagOpenedAt_emitSome, tagOpenedAt_emitSome]
    exact htag (s.mode_emitBlanks ▸ hmode)

/-- A closing bracket closes the same scope, or fails alike. -/
theorem closeBracket (hf : Location.Commutes f) (h : Carries f earlier more s s')
    (hmode : s.mode ≠ .data) {bracket : Char} {after : Text} (hrest : s.rest = bracket :: after) :
    Follows f earlier more (s.closeBracket bracket) (s'.closeBracket bracket) := by
  have hrest' : s'.rest = bracket :: (after ++ more) := by rw [h.rest_eq, hrest, List.cons_append]
  have hscopes := h.scopes_eq
  cases hopen : s.scopes with
  | nil =>
    rw [hopen] at hscopes
    rw [State.closeBracket, State.closeBracket, hopen, hscopes]
    exact h.error_eq (.unexpectedClosingBracket bracket)
  | cons scope scopes =>
    rw [hopen, List.map_cons] at hscopes
    rw [State.closeBracket, State.closeBracket, hopen, hscopes]
    dsimp only [Scope.relocate]
    by_cases hcloser : scope.closer = [bracket]
    · rw [if_pos hcloser, if_pos hcloser]
      refine h.of_reads_inside hf hmode (Reads.emit .punctuation hrest).closeScope
        (Reads.emit .punctuation hrest').closeScope ?_ rfl rfl
      rw [toStacks_closeScope, toStacks_emit, toStacks_closeScope, toStacks_emit, h.stacks_eq,
        Stacks.relocate_pop]
    · rw [if_neg hcloser, if_neg hcloser]
      exact h.error_eq (.unclosedBracket scope.opener scope.openedAt)

theorem takeLexeme (hf : Location.Commutes f) (h : Carries f earlier more s s')
    (hmode : s.mode ≠ .data) {l : Lexeme} (hs : lx.Starts s.rest l) (hs' : lx.Starts s'.rest l) :
    Follows f earlier more (s.takeLexeme l) (s'.takeLexeme l) := by
  have hok (s₁ s₁' : State) (h₁ : s.takeLexeme l = .ok s₁) (h₁' : s'.takeLexeme l = .ok s₁')
      (hstacks : s₁'.toStacks = s₁.toStacks.relocate f) :
      Follows f earlier more (s.takeLexeme l) (s'.takeLexeme l) := by
    rw [h₁, h₁']
    exact h.of_reads_inside hf hmode (takeLexeme_ok hs h₁).2.1 (takeLexeme_ok hs' h₁').2.1 hstacks
      (tagOpenedAt_takeLexeme h₁) (tagOpenedAt_takeLexeme h₁')
  cases l with
  | plain kind value => exact hok _ _ rfl rfl h.stacks_eq
  | opening bracket closer =>
    refine hok _ _ rfl rfl ?_
    rw [toStacks_emit, toStacks_openScope, toStacks_emit, toStacks_openScope, h.stacks_eq,
      h.location_eq]
    rfl
  | quoted string =>
    refine hok _ _ rfl rfl ?_
    rw [toStacks_emit, toStacks_emitSome, toStacks_emit, toStacks_emit, toStacks_emitSome,
      toStacks_emit, h.stacks_eq]
  | quote =>
    refine hok _ _ rfl rfl ?_
    rw [toStacks_enter, toStacks_emit, toStacks_openScope, toStacks_enter, toStacks_emit,
      toStacks_openScope, h.stacks_eq, h.location_eq]
    rfl
  | closing bracket =>
    obtain ⟨after, hafter⟩ := hs.texts_isPrefix
    exact h.closeBracket hf hmode hafter.symm

/-- A piece of an expression is read alike if the text behind has no part in it. -/
theorem expressionStep (hf : Location.Commutes f) (h : Carries f earlier more s s')
    (hmode : s.mode ≠ .data)
    (hdrop : (s.rest ++ more).dropWhile isBlank = s.rest.dropWhile isBlank ++ more)
    (hlexeme : ∀ c t, s.rest.dropWhile isBlank = c :: t →
      lx.lexemeAt? c (c :: (t ++ more)) = lx.lexemeAt? c (c :: t))
    (hends : more ≠ [] → ∃ c t, s.rest.dropWhile isBlank = c :: t ∧
      (lx.lexemeAt? c (c :: t)).isSome) :
    Follows f earlier more (s.expressionStep lx) (s'.expressionStep lx) := by
  have hblanks := h.emitBlanks hf hdrop h.tagOpenedAt_eq
  have hrest' := hblanks.rest_eq
  rw [State.expressionStep, State.expressionStep]
  rw [← rest_emitBlanks] at hlexeme hends
  have hmore (hnone : ∀ c t, s.emitBlanks.rest = c :: t → lx.lexemeAt? c (c :: t) = none) :
      more = [] := by
    refine Classical.byContradiction fun hne => ?_
    obtain ⟨c, t, hsplit, hsome⟩ := hends hne
    rw [hnone c t hsplit] at hsome
    cases hsome
  cases hrest : s.emitBlanks.rest with
  | nil =>
    have hnil := hmore fun c t hsplit => by cases hrest.symm.trans hsplit
    rw [hrest, hnil] at hrest'
    rw [hrest']
    exact hblanks
  | cons c t =>
    rw [hrest, List.cons_append] at hrest'
    rw [hrest']
    dsimp only
    rw [hlexeme c t hrest]
    cases hl : lx.lexemeAt? c (c :: t) with
    | none =>
      have hnil := hmore fun c' t' hsplit => by
        cases hrest.symm.trans hsplit
        exact hl
      rw [hnil, List.append_nil]
      exact hblanks.error_eq (.unexpectedCharacter (c :: t))
    | some l =>
      have hs : lx.Starts s.emitBlanks.rest l := hrest ▸ Lexicon.starts_of_lexemeAt? hl
      have hs' : lx.Starts s'.emitBlanks.rest l :=
        hrest' ▸ Lexicon.starts_of_lexemeAt? ((hlexeme c t hrest).trans hl)
      exact hblanks.takeLexeme hf (s.mode_emitBlanks ▸ hmode) hs hs'

/-- The end of a tag is read alike, and so is a piece of an expression where it does not end. -/
theorem tagStep (hf : Location.Commutes f) (h : Carries f earlier more s s') {tag : Tag}
    (htag : tag ≠ .comment) (hmode : s.mode = tag.mode)
    (hdrop : (s.rest ++ more).dropWhile isBlank = s.rest.dropWhile isBlank ++ more)
    (hend : s.scopes = [] → lx.tagEnd? tag (s.rest.dropWhile isBlank ++ more) =
      lx.tagEnd? tag (s.rest.dropWhile isBlank))
    (hexp : s.Expects lx → Follows f earlier more (s.expressionStep lx) (s'.expressionStep lx)) :
    Follows f earlier more (s.tagStep lx tag.endKind (lx.tagEnd? tag))
      (s'.tagStep lx tag.endKind (lx.tagEnd? tag)) := by
  have hdata : s.mode ≠ .data := hmode ▸ (Tag.mode_isExpression htag).1
  rw [tagStep_eq, tagStep_eq, h.scopes_isEmpty, h.rest_eq, hdrop]
  by_cases hnil : s.scopes = []
  · rw [hnil, List.isEmpty_nil, if_pos rfl, if_pos rfl, hend hnil]
    cases he : lx.tagEnd? tag (s.rest.dropWhile isBlank) with
    | none => exact hexp (expects_of_tagEnd? htag hmode fun _ => he)
    | some e =>
      have hblanks := h.emitBlanks hf hdrop h.tagOpenedAt_eq
      obtain ⟨rest, hrest⟩ := Dialect.texts_tagEnd? he
      rw [← rest_emitBlanks] at hrest
      have hrest' : s'.emitBlanks.rest = texts (e.pieces lx.toDialect tag.endKind) ++
          (rest ++ more) := by
        rw [hblanks.rest_eq, ← hrest, List.append_assoc]
      have hmode' : s.emitBlanks.mode ≠ .data := s.mode_emitBlanks ▸ hdata
      refine hblanks.of_reads_inside hf hmode' (reads_tagEnd hrest.symm).leave
        (reads_tagEnd hrest').leave ?_ (tagOpenedAt_emitTrim _ _ _) (tagOpenedAt_emitTrim _ _ _)
      rw [toStacks_leave, toStacks_emit, toStacks_emitTrim, toStacks_leave, toStacks_emit,
        toStacks_emitTrim, hblanks.stacks_eq, Stacks.relocate_leave]
  · rw [List.isEmpty_eq_false_iff.2 hnil]
    exact hexp (expects_of_tagEnd? htag hmode fun h => absurd h hnil)

/-- A string is read alike if its next piece ends in front of the text behind. -/
theorem stringStep (hf : Location.Commutes f) (h : Carries f earlier more s s')
    (hmode : s.mode = .string) (hne : s.rest ≠ []) (hcloser : s.quoteCloser = ['"'])
    (hopen : lx.interpolationOpen? (s.rest ++ more) = lx.interpolationOpen? s.rest)
    (hpiece : lx.interpolationOpen? s.rest = none →
      stringPiece lx.interpolation.opening (s.rest ++ more) =
        stringPiece lx.interpolation.opening s.rest) :
    Carries f earlier more (s.stringStep lx) (s'.stringStep lx) := by
  rw [State.stringStep, State.stringStep, h.rest_eq, hopen]
  have hdata : s.mode ≠ .data := by
    rw [hmode]
    decide
  cases hblank : lx.interpolationOpen? s.rest with
  | some blank =>
    obtain ⟨rest, hrest⟩ := Dialect.interpolationOpen?_eq_some hblank
    rw [List.append_assoc] at hrest
    have hrest' : s'.rest = lx.interpolation.opening ++ (blank ++ (rest ++ more)) := by
      rw [h.rest_eq, ← hrest]
      simp only [List.append_assoc]
    refine h.of_reads_inside hf hdata (reads_openInterpolation hrest.symm)
      (reads_openInterpolation hrest') ?_ (tagOpenedAt_emitSome _ _ _) (tagOpenedAt_emitSome _ _ _)
    rw [toStacks_enter, toStacks_emitSome, toStacks_emit, toStacks_openScope, toStacks_enter,
      toStacks_emitSome, toStacks_emit, toStacks_openScope, h.stacks_eq, h.location_eq]
    rfl
  | none =>
    dsimp only
    rw [hpiece hblank]
    cases hpiece : stringPiece lx.interpolation.opening s.rest with
    | nil =>
      obtain ⟨rest, hrest⟩ : ∃ rest, s.rest = ['"'] ++ rest := by
        obtain hnil | hquote | hpre := eq_nil_of_stringPiece_eq_nil hpiece
        · exact absurd hnil hne
        · exact hquote
        · exact absurd hpre (Dialect.interpolationOpen?_eq_none hblank)
      have hrest' : s'.rest = ['"'] ++ (rest ++ more) := by
        rw [h.rest_eq, hrest, List.append_assoc]
      show Carries f earlier more (s.closeScope.emit .closingQuote s.quoteCloser).leave
        (s'.closeScope.emit .closingQuote s'.quoteCloser).leave
      rw [h.quoteCloser_eq, hcloser]
      refine h.of_reads_inside hf hdata (reads_closeQuote hrest) (reads_closeQuote hrest') ?_ rfl
        rfl
      rw [toStacks_leave, toStacks_emit, toStacks_closeScope, toStacks_leave, toStacks_emit,
        toStacks_closeScope, h.stacks_eq, Stacks.relocate_leave, Stacks.relocate_pop]
    | cons c piece =>
      obtain ⟨rest, hrest⟩ := stringPiece_prefix lx.interpolation.opening s.rest
      rw [hpiece] at hrest
      have hrest' : s'.rest = (c :: piece) ++ (rest ++ more) := by
        rw [h.rest_eq, ← hrest, List.append_assoc]
      exact h.of_reads_inside hf hdata (.emit _ hrest.symm) (.emit _ hrest') h.stacks_eq rfl rfl

/-- The end of an interpolation is read alike, and so is a piece of an expression where it does not
end. -/
theorem interpolationStep (hf : Location.Commutes f) (h : Carries f earlier more s s')
    (hmode : s.mode = .interpolation)
    (hclose : lx.interpolationClose? (s.rest ++ more) = lx.interpolationClose? s.rest)
    (hexp : s.Expects lx → Follows f earlier more (s.expressionStep lx) (s'.expressionStep lx)) :
    Follows f earlier more (s.interpolationStep lx) (s'.interpolationStep lx) := by
  have hdata : s.mode ≠ .data := by
    rw [hmode]
    decide
  rw [State.interpolationStep, State.interpolationStep, h.opener_eq, h.rest_eq, hclose]
  by_cases hscope : s.scopes.head?.map Scope.opener = some lx.interpolation.opening
  · rw [hscope, beq_self_eq_true, if_pos rfl]
    cases hblank : lx.interpolationClose? s.rest with
    | none =>
      refine hexp ?_
      rw [Expects, hmode]
      exact fun _ => hblank
    | some blank =>
      obtain ⟨rest, hrest⟩ := Dialect.interpolationClose?_eq_some hblank
      rw [List.append_assoc] at hrest
      have hrest' : s'.rest = blank ++ (lx.interpolation.closing ++ (rest ++ more)) := by
        rw [h.rest_eq, ← hrest]
        simp only [List.append_assoc]
      refine h.of_reads_inside hf hdata (reads_closeInterpolation hrest.symm)
        (reads_closeInterpolation hrest') ?_ (tagOpenedAt_emitSome _ _ _)
        (tagOpenedAt_emitSome _ _ _)
      rw [toStacks_leave, toStacks_closeScope, toStacks_emit, toStacks_emitSome, toStacks_leave,
        toStacks_closeScope, toStacks_emit, toStacks_emitSome, h.stacks_eq, Stacks.relocate_leave,
        Stacks.relocate_pop]
  · rw [beq_eq_false_iff_ne.2 hscope]
    refine hexp ?_
    rw [Expects, hmode]
    exact fun h => absurd h hscope

/-! ## Comments, verbatim blocks and starts of tags -/

theorem errorAtEnd_eq (hf : Location.Commutes f) (h : Carries f earlier more s s')
    (hmore : more = []) (cause : SyntaxError.Cause) :
    s'.errorAtEnd (cause.relocate f) = (s.errorAtEnd cause).relocate f := by
  rw [errorAtEnd, errorAtEnd, h.location_eq, h.rest_eq, hmore, List.append_nil,
    ← hf _ _ h.line_pos]
  rfl

/-- A comment is read alike if its end stands in front of the text behind. -/
theorem commentStep (hf : Location.Commutes f) (h : Carries f earlier more s s')
    (hmode : s.mode = .data) (htag : s'.tagOpenedAt = f s.tagOpenedAt)
    (hdrop : (s.rest ++ more).dropWhile isBlank = s.rest.dropWhile isBlank ++ more)
    (hend : lx.commentEnd? (s.rest.dropWhile isBlank ++ more) =
      lx.commentEnd? (s.rest.dropWhile isBlank))
    (hmore : lx.commentEnd? (s.rest.dropWhile isBlank) = none → more = []) :
    Follows f earlier more (s.commentStep lx) (s'.commentStep lx) := by
  have hdrop' : s'.rest.dropWhile isBlank = s.rest.dropWhile isBlank ++ more := by
    rw [h.rest_eq, hdrop]
  have hout' := commentStep_eq lx s'
  rw [hdrop', hend, h.blanks_eq hdrop] at hout'
  obtain ⟨e, s₁, he, hstep, hread, hstacks, -⟩ | ⟨he, hstep⟩ := commentStep_eq lx s
  · obtain ⟨e', s₁', he', hstep', hread', hstacks', -⟩ | ⟨he', -⟩ := hout'
    · cases he.symm.trans he'
      rw [hstep, hstep']
      refine h.of_reads hf hread hread' ?_ fun hinside => ?_
      · rw [hstacks', hstacks, h.stacks_eq]
      · exact absurd ((congrArg Stacks.mode hstacks).trans hmode) hinside
    · cases he.symm.trans he'
  · obtain ⟨e', s₁', he', -⟩ | ⟨-, hstep'⟩ := hout'
    · cases he.symm.trans he'
    · rw [hstep, hstep', htag]
      exact (h.emitBlanks hf hdrop h.tagOpenedAt_eq).errorAtEnd_eq hf (hmore he)
        (.unclosed .comment s.tagOpenedAt)

/-- A verbatim block is read alike if its closing tag stands in front of the text behind. -/
theorem verbatimStep (hf : Location.Commutes f) (h : Carries f earlier more s s')
    (hmode : s.mode = .data) (htag : s'.tagOpenedAt = f s.tagOpenedAt) {opening : VerbatimTag}
    {rest : Text} (hrest : s.rest = texts (opening.pieces lx.toDialect) ++ rest)
    (hclose : lx.verbatimClose? (rest ++ more) = lx.verbatimClose? rest)
    (hmore : lx.verbatimClose? rest = none → more = []) :
    Follows f earlier more (s.verbatimStep lx opening) (s'.verbatimStep lx opening) := by
  have hrest' : s'.rest = texts (opening.pieces lx.toDialect) ++ (rest ++ more) := by
    rw [h.rest_eq, hrest, List.append_assoc]
  obtain ⟨body, closing, s₁, hfound, hstep, hread, hstacks, -⟩ | ⟨hfound, hstep⟩ :=
    verbatimStep_eq hrest
  · obtain ⟨body', closing', s₁', hfound', hstep', hread', hstacks', -⟩ | ⟨hfound', -⟩ :=
      verbatimStep_eq hrest'
    · rw [hclose, hfound] at hfound'
      obtain ⟨rfl, rfl⟩ := Prod.mk.inj (Option.some.inj hfound')
      rw [hstep, hstep']
      refine h.of_reads hf hread hread' ?_ fun hinside => ?_
      · rw [hstacks', hstacks, h.stacks_eq]
      · exact absurd ((congrArg Stacks.mode hstacks).trans hmode) hinside
    · cases (hfound'.symm.trans hclose).trans hfound
  · obtain ⟨_, _, _, hfound', -⟩ | ⟨-, hstep'⟩ := verbatimStep_eq hrest'
    · cases (hfound'.symm.trans hclose).trans hfound
    · have hopened : Carries f earlier more (s.emitVerbatimTag lx opening)
          (s'.emitVerbatimTag lx opening) := by
        refine h.of_reads hf (reads_emitVerbatimTag hrest) (reads_emitVerbatimTag hrest') ?_ ?_
        · rw [toStacks_emitVerbatimTag, toStacks_emitVerbatimTag, h.stacks_eq]
        · intro _
          rw [tagOpenedAt_emitVerbatimTag, tagOpenedAt_emitVerbatimTag, htag]
      rw [hstep, hstep', htag]
      exact hopened.errorAtEnd_eq hf (hmore hfound) (.unclosed .verbatim s.tagOpenedAt)

/-- The start of a tag is read alike. -/
theorem begun (hf : Location.Commutes f) (h : Carries f earlier more s s')
    (hopened : s'.tagOpenedAt = f s.tagOpenedAt) {t : TagStart} {after : Text}
    (hrest : s.rest = lx.startText t ++ after) :
    Carries f earlier more
      (s.emit t.tag.startKind (lx.opening t.tag) |>.emitTrim lx.toDialect t.modifier)
      (s'.emit t.tag.startKind (lx.opening t.tag) |>.emitTrim lx.toDialect t.modifier) := by
  have hrest' : s'.rest = lx.startText t ++ (after ++ more) := by
    rw [h.rest_eq, hrest, List.append_assoc]
  refine h.of_reads hf (reads_begun hrest) (reads_begun hrest') ?_ fun _ => ?_
  · rw [toStacks_emitTrim, toStacks_emit, toStacks_emitTrim, toStacks_emit, h.stacks_eq]
  · rw [tagOpenedAt_emitTrim, tagOpenedAt_emitTrim]
    exact hopened

theorem enter (h : Carries f earlier more s s') (hopened : s'.tagOpenedAt = f s.tagOpenedAt)
    (m : Mode) : Carries f earlier more (s.enter m) (s'.enter m) :=
  { h with
    stacks_eq := by rw [toStacks_enter, toStacks_enter, h.stacks_eq, Stacks.relocate_enter]
    tagOpenedAt_eq := fun _ => hopened }

/-- The start of a tag is read alike, and with it a comment or a verbatim block. -/
theorem tagStartStep (hf : Location.Commutes f) (h : Carries f earlier more s s')
    (hmode : s.mode = .data) {t t' : TagStart} {after : Text} (htag : t'.tag = t.tag)
    (hmodifier : t'.modifier = t.modifier) (hrest : s.rest = lx.startText t ++ after)
    (hcomment : t.tag = .comment →
      (after ++ more).dropWhile isBlank = after.dropWhile isBlank ++ more ∧
        lx.commentEnd? (after.dropWhile isBlank ++ more) =
          lx.commentEnd? (after.dropWhile isBlank) ∧
        (lx.commentEnd? (after.dropWhile isBlank) = none → more = []))
    (hopen : t.tag = .block → lx.verbatimOpen? (lx.startText t ++ (after ++ more)) =
      lx.verbatimOpen? (lx.startText t ++ after))
    (hclose : t.tag = .block → ∀ opening rest,
      lx.verbatimOpen? (lx.startText t ++ after) = some opening →
      lx.startText t ++ after = texts (opening.pieces lx.toDialect) ++ rest →
      lx.verbatimClose? (rest ++ more) = lx.verbatimClose? rest ∧
        (lx.verbatimClose? rest = none → more = [])) :
    Follows f earlier more (s.tagStartStep lx t) (s'.tagStartStep lx t') := by
  have hrest' : s'.rest = lx.startText t ++ (after ++ more) := by
    rw [h.rest_eq, hrest, List.append_assoc]
  have hset : Carries f earlier more { s with tagOpenedAt := s.position.toLocation }
      { s' with tagOpenedAt := s'.position.toLocation } :=
    { h with tagOpenedAt_eq := fun _ => h.location_eq }
  have hbegun := hset.begun hf h.location_eq hrest
  have hopened : (({ s' with tagOpenedAt := s'.position.toLocation } : State).emit t.tag.startKind
        (lx.opening t.tag) |>.emitTrim lx.toDialect t.modifier).tagOpenedAt =
      f (({ s with tagOpenedAt := s.position.toLocation } : State).emit t.tag.startKind
        (lx.opening t.tag) |>.emitTrim lx.toDialect t.modifier).tagOpenedAt := by
    rw [tagOpenedAt_emitTrim, tagOpenedAt_emitTrim]
    exact h.location_eq
  rw [State.tagStartStep, State.tagStartStep, htag, hmodifier]
  cases hkind : t.tag with
  | print =>
    rw [hkind] at hbegun hopened
    exact hbegun.enter hopened .print
  | comment =>
    have hafter := (reads_begun (s := { s with tagOpenedAt := s.position.toLocation })
      hrest).rest_of_eq (by rw [TagStart.texts_pieces]; exact hrest)
    have hend := hcomment hkind
    rw [← hafter] at hend
    rw [hkind] at hbegun hopened hend
    refine hbegun.commentStep hf ?_ hopened hend.1 hend.2.1 hend.2.2
    exact (congrArg Stacks.mode (toStacks_emitTrim _ _ _)).trans hmode
  | block =>
    have hverbatim_eq : lx.verbatimOpen? s'.rest = lx.verbatimOpen? s.rest := by
      rw [hrest, hrest', hopen hkind]
    dsimp only
    rw [hverbatim_eq]
    cases hverbatim : lx.verbatimOpen? s.rest with
    | none =>
      rw [hkind] at hbegun hopened
      exact hbegun.enter hopened .block
    | some opening =>
      rw [hrest] at hverbatim
      obtain ⟨rest, hsplit⟩ := Dialect.texts_wordTag? hverbatim
      obtain ⟨hstable, hmore⟩ := hclose hkind opening rest hverbatim hsplit.symm
      exact hset.verbatimStep hf hmode h.location_eq (hrest.trans hsplit.symm) hstable hmore

end Carries

/-! ## Steps -/

/-- Nothing that the next step looks at depends on the text `more` behind the rest. -/
structure Settled (lx : Lexicon) (more : Text) (s : State) : Prop where
  blanks : s.mode.IsExpression →
    (s.rest ++ more).dropWhile isBlank = s.rest.dropWhile isBlank ++ more
  lexeme : s.Expects lx → ∀ c t, s.rest.dropWhile isBlank = c :: t →
    lx.lexemeAt? c (c :: (t ++ more)) = lx.lexemeAt? c (c :: t)
  ends : s.Expects lx → more ≠ [] →
    ∃ c t, s.rest.dropWhile isBlank = c :: t ∧ (lx.lexemeAt? c (c :: t)).isSome
  tagEnd : ∀ tag, tag ≠ .comment → s.mode = tag.mode → s.scopes = [] →
    lx.tagEnd? tag (s.rest.dropWhile isBlank ++ more) = lx.tagEnd? tag (s.rest.dropWhile isBlank)
  interpolationClose : s.mode = .interpolation →
    lx.interpolationClose? (s.rest ++ more) = lx.interpolationClose? s.rest
  interpolationOpen : s.mode = .string →
    lx.interpolationOpen? (s.rest ++ more) = lx.interpolationOpen? s.rest
  stringPiece : s.mode = .string → lx.interpolationOpen? s.rest = none →
    stringPiece lx.interpolation.opening (s.rest ++ more) =
      stringPiece lx.interpolation.opening s.rest
  tagAt : s.mode = .data → search? lx.tagAt? (s.rest ++ more) = search? lx.tagAt? s.rest
  text : s.mode = .data → search? lx.tagAt? s.rest = none → more = []
  comment : ∀ before t after, s.Finds lx.toDialect before t after → t.tag = .comment →
    (after ++ more).dropWhile isBlank = after.dropWhile isBlank ++ more ∧
      lx.commentEnd? (after.dropWhile isBlank ++ more) =
        lx.commentEnd? (after.dropWhile isBlank) ∧
      (lx.commentEnd? (after.dropWhile isBlank) = none → more = [])
  verbatimOpen : ∀ before t after, s.Finds lx.toDialect before t after → t.tag = .block →
    lx.verbatimOpen? (lx.startText t ++ (after ++ more)) =
      lx.verbatimOpen? (lx.startText t ++ after)
  verbatimClose : ∀ before t after opening rest, s.Finds lx.toDialect before t after →
    t.tag = .block → lx.verbatimOpen? (lx.startText t ++ after) = some opening →
    lx.startText t ++ after = texts (opening.pieces lx.toDialect) ++ rest →
    lx.verbatimClose? (rest ++ more) = lx.verbatimClose? rest ∧
      (lx.verbatimClose? rest = none → more = [])

theorem settled_nil (lx : Lexicon) (s : State) : s.Settled lx [] where
  blanks _ := by simp only [List.append_nil]
  lexeme _ _ _ _ := by simp only [List.append_nil]
  ends _ h := absurd rfl h
  tagEnd _ _ _ _ := by simp only [List.append_nil]
  interpolationClose _ := by simp only [List.append_nil]
  interpolationOpen _ := by simp only [List.append_nil]
  stringPiece _ _ := by simp only [List.append_nil]
  tagAt _ := by simp only [List.append_nil]
  text _ _ := rfl
  comment _ _ _ _ _ := by simp only [List.append_nil, true_and, implies_true]
  verbatimOpen _ _ _ _ _ := by simp only [List.append_nil]
  verbatimClose _ _ _ _ _ _ _ _ _ := by simp only [List.append_nil, true_and, implies_true]

/-- The next tag start is what a search from the position finds. -/
def Fresh (d : Dialect) (s : State) : Prop :=
  (s.nextTagStart d).1 = d.firstTagStart? s.position.offset s.rest

theorem Fresh.next_eq_none {d : Dialect} {s : State} (hd : d.defect? = none) (h : s.Fresh d)
    (hsearch : search? d.tagAt? s.rest = none) : (s.nextTagStart d).1 = none := by
  rw [h, Dialect.firstTagStart?_eq_search? hd, hsearch]
  rfl

theorem step_of_no_tag {lx : Lexicon} {s : State} (hmode : s.mode = .data)
    (hnext : (s.nextTagStart lx.toDialect).1 = none) :
    s.step lx = .ok ((s.nextTagStart lx.toDialect).2.emitSome .text s.rest) := by
  have hrest : (s.nextTagStart lx.toDialect).2.rest = s.rest :=
    (reads_nextTagStart s lx.toDialect).rest_of_eq rfl
  rw [step, hmode]
  dsimp only
  rw [State.dataStep]
  rcases hpair : s.nextTagStart lx.toDialect with ⟨found, s₁⟩
  rw [hpair] at hnext hrest
  obtain rfl : found = none := hnext
  dsimp only
  rw [hrest]

theorem Fresh.finds {d : Dialect} {s : State} (hd : d.defect? = none) (h : s.Fresh d)
    (hmode : s.mode = .data) {before after : Text} {tag : Tag} {m : Option Trim}
    (hsearch : search? d.tagAt? s.rest = some (before, tag, m))
    (hrest : s.rest = before ++ (d.opening tag ++ d.modifierText m ++ after)) :
    s.Finds d before ⟨tag, s.position.offset + byteSize before, m⟩ after where
  mode_eq := hmode
  next_eq := by
    rw [h, Dialect.firstTagStart?_eq_search? hd, hsearch]
    rfl
  rest_eq := hrest
  start_eq := rfl

section

variable {f : Location → Location} {earlier : List Token} {more : Text} {s s' : State}
  {lx : Lexicon}

/-- A step between tags that is settled keeps two states related, or fails in both. -/
theorem Carries.dataStep (hd : lx.defect? = none) (hf : Location.Commutes f)
    (h : Carries f earlier more s s') (hmode : s.mode = .data)
    (hset : s.Settled lx more) (hfresh : s.Fresh lx.toDialect) (hfresh' : s'.Fresh lx.toDialect) :
    Follows f earlier more (s.step lx) (s'.step lx) := by
  have hmode' := h.mode_eq.trans hmode
  have hsearch' : search? lx.tagAt? s'.rest = search? lx.tagAt? s.rest := by
    rw [h.rest_eq, hset.tagAt hmode]
  have hstacks (u : State) (text : Text) :
      ((u.nextTagStart lx.toDialect).2.emitSome .text text).mode = u.mode :=
    congrArg Stacks.mode ((toStacks_emitSome _ _ _).trans (toStacks_nextTagStart u _))
  cases hsearch : search? lx.tagAt? s.rest with
  | none =>
    obtain rfl := hset.text hmode hsearch
    have hnext : (s.nextTagStart lx.toDialect).1 = none := hfresh.next_eq_none hd hsearch
    have hnext' : (s'.nextTagStart lx.toDialect).1 = none :=
      hfresh'.next_eq_none hd (hsearch'.trans hsearch)
    have hrest' : s'.rest = s.rest := by rw [h.rest_eq, List.append_nil]
    have hread := (reads_nextTagStart s lx.toDialect).andEmitSome .text s.rest [] (by simp)
    have hread' := (reads_nextTagStart s' lx.toDialect).andEmitSome .text s.rest []
      (by simp [hrest'])
    rw [step_of_no_tag hmode hnext, step_of_no_tag hmode' hnext', hrest']
    refine h.of_reads hf hread hread' ?_ fun hinside => ?_
    · rw [toStacks_emitSome, toStacks_emitSome, toStacks_nextTagStart, toStacks_nextTagStart,
        h.stacks_eq]
    · exact absurd ((hstacks s _).trans hmode) hinside
  | some found =>
    obtain ⟨before, tag, m⟩ := found
    obtain ⟨behind, hsplit, htag⟩ := search?_sound hsearch
    obtain ⟨after, rfl⟩ := Dialect.tagAt?_eq_some htag 0
    have hfind := hfresh.finds hd hmode hsearch hsplit
    have hsplit' : s'.rest =
        before ++ (lx.opening tag ++ lx.modifierText m ++ (after ++ more)) := by
      rw [h.rest_eq, hsplit]
      simp only [Dialect.startText, List.append_assoc]
    have hfind' := hfresh'.finds hd hmode' (hsearch'.trans hsearch) hsplit'
    rw [hfind.step_eq, hfind'.step_eq]
    have hbefore : Carries f earlier more
        ((s.nextTagStart lx.toDialect).2.emitSome .text before)
        ((s'.nextTagStart lx.toDialect).2.emitSome .text before) := by
      refine h.of_reads hf hfind.reads hfind'.reads ?_ fun hinside => ?_
      · rw [toStacks_emitSome, toStacks_emitSome, toStacks_nextTagStart, toStacks_nextTagStart,
          h.stacks_eq]
      · exact absurd ((hstacks s _).trans hmode) hinside
    have hbehind := hfind.reads.rest_of_eq (by rw [texts_unlessEmpty]; exact hfind.rest_eq)
    refine hbefore.tagStartStep hf ((hstacks s _).trans hmode) rfl rfl hbehind
      (hset.comment _ _ _ hfind) (hset.verbatimOpen _ _ _ hfind)
      (fun hblock _ _ => hset.verbatimClose _ _ _ _ _ hfind hblock)

/-- A step that is settled keeps two states related, or fails in both. -/
theorem Carries.step (hd : lx.defect? = none) (hf : Location.Commutes f)
    (h : Carries f earlier more s s') (hne : s.rest ≠ []) (hset : s.Settled lx more)
    (hfresh : s.mode = .data → s.Fresh lx.toDialect)
    (hfresh' : s.mode = .data → s'.Fresh lx.toDialect)
    (hcloser : s.mode = .string → s.quoteCloser = ['"']) :
    Follows f earlier more (s.step lx) (s'.step lx) := by
  have hexp (hexp : s.Expects lx) :
      Follows f earlier more (s.expressionStep lx) (s'.expressionStep lx) :=
    h.expressionStep hf hexp.isExpression.1 (hset.blanks hexp.isExpression) (hset.lexeme hexp)
      (hset.ends hexp)
  have hmode' := h.mode_eq
  cases hmode : s.mode with
  | data => exact h.dataStep hd hf hmode hset (hfresh hmode) (hfresh' hmode)
  | print =>
    rw [State.step, State.step, hmode', hmode]
    have hdrop := hset.blanks (by rw [hmode]; exact ⟨by decide, by decide⟩)
    exact h.tagStep hf (show Tag.print ≠ .comment from by decide) hmode hdrop
      (hset.tagEnd .print (by decide) hmode) hexp
  | block =>
    rw [State.step, State.step, hmode', hmode]
    have hdrop := hset.blanks (by rw [hmode]; exact ⟨by decide, by decide⟩)
    exact h.tagStep hf (show Tag.block ≠ .comment from by decide) hmode hdrop
      (hset.tagEnd .block (by decide) hmode) hexp
  | string =>
    rw [State.step, State.step, hmode', hmode]
    exact h.stringStep hf hmode hne (hcloser hmode) (hset.interpolationOpen hmode)
      (hset.stringPiece hmode)
  | interpolation =>
    rw [State.step, State.step, hmode', hmode]
    exact h.interpolationStep hf hmode (hset.interpolationClose hmode) hexp

end

end State

end TemplateTokens
