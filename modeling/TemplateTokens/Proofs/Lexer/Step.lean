import TemplateTokens.Lexer.Step
import TemplateTokens.Proofs.Lexer.Move

/-!
# What a step does

The definition of a step is taken apart here, part of the template by part, to see that it does
one of the things that a step can do.

Results:

* `State.outcome_step`: every step does one of the things listed or fails in one of the ways
  listed.
-/

namespace TemplateTokens

open Piece

namespace State

/-- A step from `s` to `s'` has read the pieces `ps`. -/
structure Moves (lx : Lexicon) (s : State) (ps : List Piece) (s' : State) : Prop where
  move : lx.Move s ps s'.toStacks
  reads : texts ps <+: s.rest → s.Reads ps s'
  tagStarts_eq : s'.tagStarts =
    if s.mode = .data then (s.nextTagStart lx.toDialect).2.tagStarts else s.tagStarts

/-- What may come out of a step. -/
def Outcome (lx : Lexicon) (s : State) : Except SyntaxError State → Prop
  | .ok s' => ∃ ps, s.Moves lx ps s'
  | .error e => ∃ ps cause skipped, lx.Fails s ps cause skipped ∧
      e = ⟨cause, (stop s.position ps).toLocation.advance skipped⟩

/-! ## Steps inside a tag -/

section Expressions

variable {lx : Lexicon} {s s' : State}

theorem rest_emitBlanks (s : State) : s.emitBlanks.rest = s.rest.dropWhile isBlank := by
  have h := (Reads.emitBlanks s).rest_eq
  rw [texts_unlessEmpty] at h
  exact (List.append_cancel_left ((blanks_append_dropWhile s.rest).trans h)).symm

theorem emitBlanks_emitBlanks (s : State) : s.emitBlanks.emitBlanks = s.emitBlanks := by
  have h : blanks s.emitBlanks.rest = [] := by
    rw [rest_emitBlanks, blanks_dropWhile]
  rw [emitBlanks, emitSome, h]
  rfl

theorem expressionStep_emitBlanks (lx : Lexicon) (s : State) :
    s.emitBlanks.expressionStep lx = s.expressionStep lx := by
  rw [expressionStep, expressionStep, emitBlanks_emitBlanks]

/-- What a piece of an expression does that is taken. -/
theorem takeLexeme_ok {l : Lexeme} (hs : lx.Starts s.rest l) (h : s.takeLexeme l = .ok s') :
    l.Acts s.position.toLocation s.toStacks s'.toStacks ∧ s.Reads l.pieces s' ∧
      s'.tagStarts = s.tagStarts := by
  obtain ⟨rest, hrest⟩ := hs.texts_isPrefix
  cases l with
  | plain kind value =>
    cases h
    exact ⟨.plain, .emit kind (by simpa [Lexeme.pieces] using hrest.symm), rfl⟩
  | opening bracket closer =>
    cases h
    have hr : (s.openScope bracket closer).Reads [⟨.punctuation, bracket⟩]
        ((s.openScope bracket closer).emit .punctuation bracket) :=
      .emit _ (by simpa [Lexeme.pieces] using hrest.symm)
    exact ⟨.opening, hr.of_openScope, rfl⟩
  | closing bracket =>
    rw [takeLexeme, closeBracket] at h
    split at h
    · cases h
    rename_i scope scopes hscopes
    split at h
    · rename_i hcloser
      cases h
      have hr : s.Reads [⟨.punctuation, [bracket]⟩] (s.emit .punctuation [bracket]) :=
        .emit _ (by simpa [Lexeme.pieces] using hrest.symm)
      have hhead : s.toStacks.scopes.head? = some scope := by
        rw [show s.toStacks.scopes = s.scopes from rfl, hscopes, List.head?_cons]
      exact ⟨.closing hhead hcloser, hr.closeScope, rfl⟩
    · cases h
  | quoted string =>
    cases h
    have hsplit : s.rest = [string.quote] ++ (string.body ++ ([string.quote] ++ rest)) := by
      simpa [Lexeme.pieces] using hrest.symm
    have hr := Reads.emit .openingQuote hsplit
    have hr := hr.andEmitSome .string string.body ([string.quote] ++ rest) (by simpa using hsplit)
    have hr := hr.andEmit .closingQuote [string.quote] rest (by simpa using hsplit)
    refine ⟨?_, by simpa [Lexeme.pieces] using hr, ?_⟩
    · rw [toStacks_emit, toStacks_emitSome, toStacks_emit]
      exact .quoted
    · exact tagStarts_emitSome _ _ _
  | quote =>
    cases h
    have hr : (s.openScope ['"'] ['"']).Reads [⟨.openingQuote, ['"']⟩]
        ((s.openScope ['"'] ['"']).emit .openingQuote ['"']) :=
      .emit _ (by simpa [Lexeme.pieces] using hrest.symm)
    exact ⟨.quote, hr.of_openScope.enter .string, rfl⟩

/-- Only a closing bracket is refused. -/
theorem takeLexeme_error {l : Lexeme} {e : SyntaxError} (h : s.takeLexeme l = .error e) :
    ∃ bracket, l = .closing bracket ∧
      (s.scopes = [] ∧ e = s.error (.unexpectedClosingBracket bracket) ∨
        ∃ scope, s.scopes.head? = some scope ∧ scope.closer ≠ [bracket] ∧
          e = s.error (.unclosedBracket scope.opener scope.openedAt)) := by
  cases l with
  | plain kind value => cases h
  | opening bracket closer => cases h
  | quoted string => cases h
  | quote => cases h
  | closing bracket =>
    refine ⟨bracket, rfl, ?_⟩
    rw [takeLexeme, closeBracket] at h
    split at h
    · rename_i hscopes
      cases h
      exact Or.inl ⟨hscopes, rfl⟩
    rename_i scope scopes hscopes
    split at h
    · cases h
    · rename_i hcloser
      cases h
      exact Or.inr ⟨scope, by rw [hscopes, List.head?_cons], hcloser, rfl⟩

/-- An error at a state that has been read up to is reported behind what was read. -/
theorem Reads.error_eq {ps : List Piece} (h : s.Reads ps s') (cause : SyntaxError.Cause) :
    s'.error cause = ⟨cause, (stop s.position ps).toLocation.advance []⟩ := by
  rw [error, h.position_eq, Location.advance_nil]

theorem Reads.errorAtEnd_eq {ps : List Piece} (h : s.Reads ps s') (cause : SyntaxError.Cause) :
    s'.errorAtEnd cause = ⟨cause, (stop s.position ps).toLocation.advance s'.rest⟩ := by
  rw [errorAtEnd, h.position_eq]

/-- What comes out of a step that reads a piece of an expression. -/
theorem outcome_expressionStep (hexp : s.Expects lx) (hne : s.rest ≠ []) :
    s.Outcome lx (s.expressionStep lx) := by
  have hread := Reads.emitBlanks s
  have hmode : s.emitBlanks.toStacks = s.toStacks := s.toStacks_emitBlanks
  have htags : s.emitBlanks.tagStarts = s.tagStarts := tagStarts_emitSome _ _ _
  have hdrop := rest_emitBlanks s
  rw [expressionStep]
  cases hrest : s.emitBlanks.rest with
  | nil =>
    rw [hrest] at hdrop
    have hall : blanks s.rest = s.rest := by
      have := blanks_append_dropWhile s.rest
      rwa [← hdrop, List.append_nil] at this
    rw [hall, unlessEmpty, if_neg hne] at hread
    refine ⟨[⟨.whitespace, s.rest⟩], ?_, fun _ => hread, ?_⟩
    · rw [hmode]
      exact .blanks hexp hdrop.symm
    · rw [if_neg hexp.isExpression.1, htags]
  | cons c t =>
    have hstart : s.rest.dropWhile isBlank = c :: t := by rw [← hdrop, hrest]
    dsimp only
    cases hl : lx.lexemeAt? c (c :: t) with
    | none => exact ⟨_, _, [], .unexpectedCharacter hexp hstart hl, hread.error_eq _⟩
    | some l =>
      have hs : lx.Starts s.emitBlanks.rest l := hrest ▸ Lexicon.starts_of_lexemeAt? hl
      have hs' : lx.Starts (s.rest.dropWhile isBlank) l := hdrop ▸ hs
      dsimp only
      cases htake : s.emitBlanks.takeLexeme l with
      | ok s' =>
        obtain ⟨hacts, hread', htags'⟩ := takeLexeme_ok hs htake
        rw [hmode] at hacts
        refine ⟨_, .lexeme hexp hs' hacts, fun _ => hread.trans hread', ?_⟩
        rw [if_neg hexp.isExpression.1, htags', htags]
      | error e =>
        have hscopes : s.emitBlanks.scopes = s.scopes := congrArg Stacks.scopes hmode
        obtain ⟨bracket, rfl, ⟨hnil, rfl⟩ | ⟨scope, hscope, hcloser, rfl⟩⟩ := takeLexeme_error htake
        · rw [hscopes] at hnil
          exact ⟨_, _, [], .unexpectedClosingBracket hexp hs' hnil, hread.error_eq _⟩
        · rw [hscopes] at hscope
          exact ⟨_, _, [], .unclosedBracket hexp hs' hscope hcloser, hread.error_eq _⟩

/-- What comes out of a step inside a tag. -/
theorem outcome_tagStep (tag : Tag) (htag : tag ≠ .comment) (hmode : s.mode = tag.mode)
    (hne : s.rest ≠ []) : s.Outcome lx (s.tagStep lx tag.endKind (lx.tagEnd? tag)) := by
  have hread := Reads.emitBlanks s
  have hstacks : s.emitBlanks.toStacks = s.toStacks := s.toStacks_emitBlanks
  have hscopes : s.emitBlanks.scopes = s.scopes := congrArg Stacks.scopes hstacks
  have hdata : s.mode ≠ .data := by
    rw [hmode]
    cases tag <;> simp_all [Tag.mode]
  rw [tagStep]
  rw [hscopes, rest_emitBlanks, expressionStep_emitBlanks]
  cases hend : (if s.scopes.isEmpty then lx.tagEnd? tag (s.rest.dropWhile isBlank) else none) with
  | none =>
    refine outcome_expressionStep ?_ hne
    rw [Expects, hmode]
    cases tag with
    | comment => exact absurd rfl htag
    | print =>
      intro hnil
      simpa [hnil, Dialect.tagEnd?] using hend
    | block =>
      intro hnil
      simpa [hnil, Dialect.tagEnd?] using hend
  | some e =>
    have hnil : s.scopes = [] := by
      by_cases h : s.scopes = []
      · exact h
      · simp [h] at hend
    rw [hnil, List.isEmpty_nil, if_pos rfl] at hend
    obtain ⟨rest, hrest⟩ := Dialect.texts_tagEnd? hend
    rw [← rest_emitBlanks] at hrest
    have hsplit : s.emitBlanks.rest = lx.modifierText e.modifier ++ (e.delimiter ++ rest) := by
      simpa [TagEnd.pieces] using hrest.symm
    have hread' := (Reads.emitTrim hsplit).andEmit tag.endKind e.delimiter rest
      (by simpa using hsplit)
    refine ⟨unlessEmpty .whitespace (blanks s.rest) ++ e.pieces lx.toDialect tag.endKind,
      ?_, fun _ => (hread.trans hread').leave, ?_⟩
    · rw [toStacks_leave, toStacks_emit, toStacks_emitTrim, hstacks]
      exact .closeTag hmode htag hnil hend
    · rw [if_neg hdata]
      exact (tagStarts_emitTrim _ _ _).trans (tagStarts_emitSome _ _ _)

end Expressions

/-! ## Steps inside a string or an interpolation -/

section Strings

variable {lx : Lexicon} {s : State}

/-- A step inside a string does not fail. -/
theorem exists_moves_stringStep (hmode : s.mode = .string) (hne : s.rest ≠ []) :
    ∃ ps, s.Moves lx ps (s.stringStep lx) := by
  have hdata : s.mode ≠ .data := by rw [hmode]; nofun
  rw [stringStep]
  cases hopen : lx.interpolationOpen? s.rest with
  | some blank =>
    obtain ⟨rest, hrest⟩ := Dialect.interpolationOpen?_eq_some hopen
    rw [List.append_assoc] at hrest
    have hread : (s.openScope lx.interpolation.opening lx.interpolation.closing).Reads
        [⟨.interpolationStart, lx.interpolation.opening⟩] _ := .emit _ hrest.symm
    have hread := hread.andEmitSome .whitespace blank rest (by simpa using hrest.symm)
    refine ⟨_, ?_, fun _ => hread.of_openScope.enter .interpolation, ?_⟩
    · rw [toStacks_enter, toStacks_emitSome, toStacks_emit, toStacks_openScope]
      exact .openInterpolation hmode hopen
    · rw [if_neg hdata]
      exact tagStarts_emitSome _ _ _
  | none =>
    dsimp only
    cases hpiece : stringPiece lx.interpolation.opening s.rest with
    | nil =>
      refine ⟨[⟨.closingQuote, s.quoteCloser⟩], ?_, ?_, by rw [if_neg hdata]; rfl⟩
      · obtain hnil | ⟨rest, hrest⟩ | hpre := eq_nil_of_stringPiece_eq_nil hpiece
        · exact absurd hnil hne
        · exact .closeQuote hmode hopen hrest
        · exact absurd hpre (Dialect.interpolationOpen?_eq_none hopen)
      · rintro ⟨rest, hrest⟩
        have hread : s.closeScope.Reads [⟨.closingQuote, s.quoteCloser⟩]
            (s.closeScope.emit .closingQuote s.quoteCloser) := .emit _ (by simpa using hrest.symm)
        exact hread.of_closeScope.leave
    | cons c piece =>
      obtain ⟨rest, hrest⟩ := stringPiece_prefix lx.interpolation.opening s.rest
      rw [hpiece] at hrest
      refine ⟨[⟨.string, c :: piece⟩], ?_, fun _ => .emit _ hrest.symm, by rw [if_neg hdata]; rfl⟩
      exact .stringPiece hmode hopen hpiece (List.cons_ne_nil c piece)

/-- What comes out of a step inside an interpolation. -/
theorem outcome_interpolationStep (hmode : s.mode = .interpolation) (hne : s.rest ≠ []) :
    s.Outcome lx (s.interpolationStep lx) := by
  have hdata : s.mode ≠ .data := by rw [hmode]; nofun
  rw [interpolationStep]
  by_cases hscope : s.scopes.head?.map Scope.opener = some lx.interpolation.opening
  · rw [hscope, beq_self_eq_true, if_pos rfl]
    cases hclose : lx.interpolationClose? s.rest with
    | none =>
      refine outcome_expressionStep ?_ hne
      rw [Expects, hmode]
      exact fun _ => hclose
    | some blank =>
      obtain ⟨scope, hhead, hopener⟩ := Option.map_eq_some_iff.1 hscope
      obtain ⟨rest, hrest⟩ := Dialect.interpolationClose?_eq_some hclose
      rw [List.append_assoc] at hrest
      have hread := (Reads.emitSome .whitespace hrest.symm).andEmit .interpolationEnd
        lx.interpolation.closing rest (by simpa using hrest.symm)
      refine ⟨_, ?_, fun _ => hread.closeScope.leave, ?_⟩
      · rw [toStacks_leave, toStacks_closeScope, toStacks_emit, toStacks_emitSome]
        exact .closeInterpolation hmode hhead hopener hclose
      · rw [if_neg hdata]
        exact tagStarts_emitSome _ _ _
  · rw [beq_eq_false_iff_ne.2 hscope]
    refine outcome_expressionStep ?_ hne
    rw [Expects, hmode]
    exact fun h => absurd h hscope

end Strings

/-! ## Steps between tags -/

section Data

variable {lx : Lexicon} {s : State}

/-- Looking for the next tag passes tag starts, and that is all it does. -/
theorem nextTagStart_snd (s : State) (d : Dialect) :
    ∃ ts, (s.nextTagStart d).2 = { s with tagStarts := ts } := by
  rw [nextTagStart]
  split
  · exact ⟨_, rfl⟩
  · exact ⟨_, rfl⟩

theorem reads_nextTagStart (s : State) (d : Dialect) : s.Reads [] (s.nextTagStart d).2 := by
  obtain ⟨ts, hts⟩ := nextTagStart_snd s d
  rw [hts]
  exact (Reads.refl s).congr_right rfl rfl rfl

@[simp] theorem toStacks_nextTagStart (s : State) (d : Dialect) :
    (s.nextTagStart d).2.toStacks = s.toStacks := by
  obtain ⟨ts, hts⟩ := nextTagStart_snd s d
  rw [hts]
  rfl

theorem reads_begun {t : TagStart} {after : Text} (h : s.rest = lx.startText t ++ after) :
    s.Reads (t.pieces lx.toDialect)
      (s.emit t.tag.startKind (lx.opening t.tag) |>.emitTrim lx.toDialect t.modifier) := by
  rw [Dialect.startText, List.append_assoc] at h
  exact (Reads.emit _ h).andEmitTrim t.modifier after (by simpa using h)

theorem reads_emitVerbatimTag {tag : VerbatimTag} {rest : Text}
    (h : s.rest = texts (tag.pieces lx.toDialect) ++ rest) :
    s.Reads (tag.pieces lx.toDialect) (s.emitVerbatimTag lx tag) := by
  simp only [VerbatimTag.pieces, texts_append, texts_cons, texts_nil, texts_unlessEmpty,
    texts_ofTrim, List.append_assoc, List.append_nil] at h
  have hread := Reads.emit .blockStart h
  have hread := hread.andEmitTrim tag.openModifier _ (by simpa using h)
  have hread := hread.andEmitSome .whitespace tag.leading _ (by simpa using h)
  have hread := hread.andEmit .name tag.word _ (by simpa using h)
  have hread := hread.andEmitSome .whitespace tag.trailing _ (by simpa using h)
  have hread := hread.andEmitTrim tag.closeModifier _ (by simpa using h)
  have hread := hread.andEmit .blockEnd lx.block.closing rest (by simpa using h)
  simpa [VerbatimTag.pieces, emitVerbatimTag] using hread

@[simp] theorem toStacks_emitVerbatimTag (s : State) (lx : Lexicon) (tag : VerbatimTag) :
    (s.emitVerbatimTag lx tag).toStacks = s.toStacks := by
  simp [emitVerbatimTag]

@[simp] theorem tagStarts_emitVerbatimTag (s : State) (lx : Lexicon) (tag : VerbatimTag) :
    (s.emitVerbatimTag lx tag).tagStarts = s.tagStarts := by
  rw [emitVerbatimTag, emit, tagStarts_emitTrim, tagStarts_emitSome, emit, tagStarts_emitSome,
    tagStarts_emitTrim, emit]

@[simp] theorem tagOpenedAt_emitVerbatimTag (s : State) (lx : Lexicon) (tag : VerbatimTag) :
    (s.emitVerbatimTag lx tag).tagOpenedAt = s.tagOpenedAt := by
  rw [emitVerbatimTag, emit, tagOpenedAt_emitTrim, tagOpenedAt_emitSome, emit, tagOpenedAt_emitSome,
    tagOpenedAt_emitTrim, emit]

/-- What comes out of the content of a comment, where `s` is behind the start of the comment. -/
theorem commentStep_eq (lx : Lexicon) (s : State) :
    (∃ e s', lx.commentEnd? (s.rest.dropWhile isBlank) = some e ∧ s.commentStep lx = .ok s' ∧
      s.Reads (unlessEmpty .whitespace (blanks s.rest) ++ e.pieces lx.toDialect) s' ∧
      s'.toStacks = s.toStacks ∧ s'.tagStarts = s.tagStarts) ∨
    lx.commentEnd? (s.rest.dropWhile isBlank) = none ∧
      s.commentStep lx = .error (s.emitBlanks.errorAtEnd (.unclosed .comment s.tagOpenedAt)) := by
  have hopened : s.emitBlanks.tagOpenedAt = s.tagOpenedAt := tagOpenedAt_emitSome _ _ _
  rw [commentStep, ← rest_emitBlanks]
  cases hend : lx.commentEnd? s.emitBlanks.rest with
  | none => exact Or.inr ⟨rfl, by rw [hopened]⟩
  | some e =>
    obtain ⟨rest, hrest⟩ := Dialect.texts_commentEnd? hend
    simp only [CommentEnd.pieces, TagEnd.pieces, texts_append, texts_cons, texts_nil,
      texts_unlessEmpty, texts_ofTrim, List.append_assoc, List.append_nil] at hrest
    have hread := Reads.emitSome .text hrest.symm
    have hread := hread.andEmitSome .whitespace e.blank _ (by simpa using hrest.symm)
    have hread := hread.andEmitTrim e.modifier _ (by simpa using hrest.symm)
    have hread := hread.andEmit .commentEnd e.delimiter rest (by simpa using hrest.symm)
    refine Or.inl ⟨e, _, rfl, rfl, (Reads.emitBlanks s).trans ?_, ?_, ?_⟩
    · simpa [CommentEnd.pieces, TagEnd.pieces] using hread
    · simp
    · rw [emit, tagStarts_emitTrim, tagStarts_emitSome, tagStarts_emitSome, emitBlanks,
        tagStarts_emitSome]

/-- What comes out of a verbatim block whose opening tag stands at the position of `s`. -/
theorem verbatimStep_eq {opening : VerbatimTag} {rest : Text}
    (h : s.rest = texts (opening.pieces lx.toDialect) ++ rest) :
    (∃ body closing s', lx.verbatimClose? rest = some (body, closing) ∧
      s.verbatimStep lx opening = .ok s' ∧
      s.Reads (opening.pieces lx.toDialect ++
        (unlessEmpty .text body ++ closing.pieces lx.toDialect)) s' ∧
      s'.toStacks = s.toStacks ∧ s'.tagStarts = s.tagStarts) ∨
    lx.verbatimClose? rest = none ∧ s.verbatimStep lx opening =
      .error ((s.emitVerbatimTag lx opening).errorAtEnd (.unclosed .verbatim s.tagOpenedAt)) := by
  have hread := reads_emitVerbatimTag h
  have hbehind : (s.emitVerbatimTag lx opening).rest = rest := hread.rest_of_eq h
  unfold verbatimStep
  dsimp only
  rw [hbehind]
  cases hclose : lx.verbatimClose? rest with
  | none => exact Or.inr ⟨rfl, by rw [tagOpenedAt_emitVerbatimTag]⟩
  | some found =>
    obtain ⟨body, closing⟩ := found
    obtain ⟨inside, hinside, htag⟩ := search?_sound hclose
    obtain ⟨last, hlast⟩ := Dialect.texts_wordTag? htag
    rw [← hlast] at hinside
    have hbody := Reads.emitSome .text (hbehind.trans hinside)
    have hclosing := reads_emitVerbatimTag (hbody.rest_of_eq (by
      rw [texts_unlessEmpty, hbehind, hinside]))
    refine Or.inl ⟨body, closing, _, rfl, rfl, hread.trans (hbody.trans hclosing), ?_, ?_⟩
    · rw [toStacks_emitVerbatimTag, toStacks_emitSome, toStacks_emitVerbatimTag]
    · rw [tagStarts_emitVerbatimTag, tagStarts_emitSome, tagStarts_emitVerbatimTag]

/-- `s'` is `s` moved to the start of the tag it finds, behind the text `before`. -/
structure AtTag (lx : Lexicon) (s : State) (before : Text) (t : TagStart) (after : Text)
    (s' : State) : Prop where
  finds : s.Finds lx.toDialect before t after
  reads : s.Reads (unlessEmpty .text before) s'
  stacks_eq : s'.toStacks = s.toStacks
  tagStarts_eq : s'.tagStarts = (s.nextTagStart lx.toDialect).2.tagStarts
  tagOpenedAt_eq : s'.tagOpenedAt = (stop s.position (unlessEmpty .text before)).toLocation

namespace AtTag

variable {s' : State} {before after : Text} {t : TagStart}

theorem rest_eq (h : s.AtTag lx before t after s') : s'.rest = lx.startText t ++ after :=
  h.reads.rest_of_eq (by rw [texts_unlessEmpty]; exact h.finds.rest_eq)

/-- A tag that is not read at once is entered. -/
theorem outcome_open (h : s.AtTag lx before t after s') (htag : t.tag ≠ .comment)
    (hopen : t.tag = .block → lx.verbatimOpen? (lx.startText t ++ after) = none) :
    s.Outcome lx (.ok ((s'.emit t.tag.startKind (lx.opening t.tag)
      |>.emitTrim lx.toDialect t.modifier).enter t.tag.mode)) := by
  refine ⟨_, ?_, fun _ => (h.reads.trans (reads_begun h.rest_eq)).enter _, ?_⟩
  · rw [toStacks_enter, toStacks_emitTrim, toStacks_emit, h.stacks_eq]
    exact .openTag h.finds htag hopen
  · rw [if_pos h.finds.mode_eq]
    exact (tagStarts_emitTrim _ _ _).trans h.tagStarts_eq

/-- A comment is read to its end. -/
theorem outcome_comment (h : s.AtTag lx before t after s') (htag : t.tag = .comment) :
    s.Outcome lx ((s'.emit t.tag.startKind (lx.opening t.tag)
      |>.emitTrim lx.toDialect t.modifier).commentStep lx) := by
  have hbegin := reads_begun h.rest_eq
  generalize hs : (s'.emit t.tag.startKind (lx.opening t.tag)
    |>.emitTrim lx.toDialect t.modifier) = s₁ at hbegin ⊢
  have hafter : s₁.rest = after := hbegin.rest_of_eq (by rw [TagStart.texts_pieces, h.rest_eq])
  have hstacks : s₁.toStacks = s.toStacks := by
    rw [← hs, toStacks_emitTrim, toStacks_emit, h.stacks_eq]
  have htags : s₁.tagStarts = (s.nextTagStart lx.toDialect).2.tagStarts := by
    rw [← hs, tagStarts_emitTrim]
    exact h.tagStarts_eq
  have hopened : s₁.tagOpenedAt = s'.tagOpenedAt := by
    rw [← hs, tagOpenedAt_emitTrim, emit]
  have hread := h.reads.trans hbegin
  obtain ⟨e, s₂, hend, hstep, hread₂, hstacks₂, htags₂⟩ | ⟨hend, hstep⟩ := commentStep_eq lx s₁
  · rw [hafter] at hend hread₂
    rw [hstep]
    refine ⟨_, ?_, fun _ => h.reads.trans (hbegin.trans hread₂), ?_⟩
    · rw [hstacks₂, hstacks]
      exact .comment h.finds htag hend
    · rw [if_pos h.finds.mode_eq, htags₂, htags]
  · rw [hafter] at hend
    have hread₂ := h.reads.trans (hbegin.trans (Reads.emitBlanks s₁))
    rw [hstep, hread₂.errorAtEnd_eq, rest_emitBlanks, hafter, hopened, h.tagOpenedAt_eq]
    exact ⟨_, _, _, .unclosedComment h.finds htag hend, rfl⟩

/-- A verbatim block is read to its end. -/
theorem outcome_verbatim (h : s.AtTag lx before t after s') (htag : t.tag = .block)
    {opening : VerbatimTag} (hopen : lx.verbatimOpen? (lx.startText t ++ after) = some opening) :
    s.Outcome lx (s'.verbatimStep lx opening) := by
  obtain ⟨rest, hsplit⟩ := Dialect.texts_wordTag? hopen
  have hrest := h.rest_eq.trans hsplit.symm
  obtain ⟨body, closing, s₁, hclose, hstep, hread, hstacks, htags⟩ | ⟨hclose, hstep⟩ :=
    verbatimStep_eq hrest
  · rw [hstep]
    refine ⟨_, ?_, fun _ => h.reads.trans hread, ?_⟩
    · rw [hstacks, h.stacks_eq]
      exact .verbatim h.finds htag hopen hsplit.symm hclose
    · rw [if_pos h.finds.mode_eq, htags, h.tagStarts_eq]
  · have hread := reads_emitVerbatimTag hrest
    have hbehind : (s'.emitVerbatimTag lx opening).rest = rest := hread.rest_of_eq hrest
    rw [hstep, (h.reads.trans hread).errorAtEnd_eq, hbehind, h.tagOpenedAt_eq]
    exact ⟨_, _, _, .unclosedVerbatim h.finds htag hopen hsplit.symm hclose, rfl⟩

end AtTag

/-- What comes out of the start of a tag. -/
theorem outcome_tagStartStep {s' : State} {before after : Text} {t : TagStart}
    (h : s.AtTag lx before t after { s' with tagOpenedAt := s'.position.toLocation }) :
    s.Outcome lx (s'.tagStartStep lx t) := by
  rw [tagStartStep]
  generalize hs : ({ s' with tagOpenedAt := s'.position.toLocation } : State) = s₁ at h
  dsimp only
  cases htag : t.tag with
  | print =>
    have hcomment : t.tag ≠ .comment := by rw [htag]; decide
    have hblock : t.tag ≠ .block := by rw [htag]; decide
    have := h.outcome_open hcomment fun h => absurd h hblock
    simpa only [htag, Tag.startKind, Tag.mode] using this
  | comment => simpa only [htag, Tag.startKind] using h.outcome_comment htag
  | block =>
    have hrest := h.rest_eq
    rw [hrest]
    cases hopen : lx.verbatimOpen? (lx.startText t ++ after) with
    | none =>
      have hcomment : t.tag ≠ .comment := by rw [htag]; decide
      have := h.outcome_open hcomment fun _ => hopen
      simpa only [htag, Tag.startKind, Tag.mode] using this
    | some opening => exact h.outcome_verbatim htag hopen

/-- What comes out of a step between tags, if the tag start found stands in the rest. -/
theorem outcome_dataStep (hmode : s.mode = .data)
    (hstands : ∀ t, (s.nextTagStart lx.toDialect).1 = some t →
      lx.Stands t s.position.offset s.rest) (hne : s.rest ≠ []) :
    s.Outcome lx (s.dataStep lx) := by
  have hread := reads_nextTagStart s lx.toDialect
  have hstacks := toStacks_nextTagStart s lx.toDialect
  unfold dataStep
  rcases hnext : s.nextTagStart lx.toDialect with ⟨_ | t, s₁⟩
  · rw [hnext] at hread hstacks
    have hrest : s₁.rest = s.rest := hread.rest_of_eq rfl
    have hall := hread.andEmit .text s.rest [] (by simp)
    have hsome : s₁.emitSome .text s.rest = s₁.emit .text s.rest := by
      rw [emitSome, List.isEmpty_eq_false_iff.2 hne]
      rfl
    dsimp only
    rw [hrest, hsome]
    refine ⟨_, ?_, fun _ => hall, by rw [if_pos hmode, hnext]; rfl⟩
    rw [toStacks_emit, hstacks]
    exact .text hmode (by rw [hnext])
  · obtain ⟨before, after, hsplit, hstart⟩ := hstands t (by rw [hnext])
    have hfind : s.Finds lx.toDialect before t after := ⟨hmode, by rw [hnext], hsplit, hstart⟩
    rw [hnext] at hread hstacks
    have hrest : s₁.rest = s.rest := hread.rest_of_eq rfl
    have hbefore : takeBytes (t.start - s₁.position.offset) s₁.rest = before := by
      rw [hread.offset_eq, texts_nil, byteSize_nil, Nat.add_zero, hstart, Nat.add_sub_cancel_left,
        hrest, hsplit, takeBytes_append]
    have htext : s.Reads (unlessEmpty .text before) (s₁.emitSome .text before) :=
      hread.andEmitSome .text before _ (by simpa using hsplit)
    dsimp only
    rw [hbefore]
    refine outcome_tagStartStep (s := s) ⟨hfind, ?_, ?_, ?_, ?_⟩
    · exact htext.congr_right rfl rfl rfl
    · exact (toStacks_emitSome _ _ _).trans hstacks
    · rw [hnext]
      exact tagStarts_emitSome _ _ _
    · rw [← htext.position_eq]

end Data

/-! ## Steps anywhere -/

/-- Every step does one of the things listed or fails in one of the ways listed. -/
theorem outcome_step {lx : Lexicon} {s : State} (hstands : s.mode = .data →
      ∀ t, (s.nextTagStart lx.toDialect).1 = some t → lx.Stands t s.position.offset s.rest)
    (hne : s.rest ≠ []) : s.Outcome lx (s.step lx) := by
  rw [step]
  cases hmode : s.mode with
  | data => exact outcome_dataStep hmode (hstands hmode) hne
  | block => exact outcome_tagStep .block nofun hmode hne
  | print => exact outcome_tagStep .print nofun hmode hne
  | string => exact exists_moves_stringStep hmode hne
  | interpolation => exact outcome_interpolationStep hmode hne

end State

end TemplateTokens
