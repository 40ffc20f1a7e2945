import TemplateTokens.Proofs.Lexer.Run

/-!
# Where things were opened

A state keeps the location of every scope that is open, and that of the tag it is inside of. Both
were written down some steps ago; this module follows them from there. A location belongs to what
it was written down for, as long as the text of that stands there among the pieces read so far.

Results:

* `State.tagOpenedAt_step`: only a step between tags writes down a location for a tag.
* `Lexicon.Move.openedIn`: a step opens a scope at a place among its pieces where the opener stands.
* `Lexicon.Path.scopes_openedIn`, `Lexicon.Path.tag_openedIn`: each scope that is open, and the tag
  around the position, was opened where its own opener stands.
-/

namespace TemplateTokens

open Piece

/-! ## Places among pieces -/

namespace Piece

/-- The pieces `ps`, read from the position `p` on, have a place at the location `l` where `opener`
stands. -/
def OpenedIn (p : Position) (ps : List Piece) (opener : Text) (l : Location) : Prop :=
  ∃ before after, ps = before ++ after ∧ opener <+: texts after ∧ l = (stop p before).toLocation

namespace OpenedIn

variable {p : Position} {ps : List Piece} {opener : Text} {l : Location}

theorem append_right (h : OpenedIn p ps opener l) (qs : List Piece) :
    OpenedIn p (ps ++ qs) opener l := by
  obtain ⟨before, after, rfl, hopener, rfl⟩ := h
  refine ⟨before, after ++ qs, List.append_assoc .., ?_, rfl⟩
  rw [texts_append]
  exact hopener.trans (List.prefix_append _ _)

theorem append_left {qs : List Piece} (h : OpenedIn (stop p ps) qs opener l) :
    OpenedIn p (ps ++ qs) opener l := by
  obtain ⟨before, after, rfl, hopener, rfl⟩ := h
  exact ⟨ps ++ before, after, (List.append_assoc ..).symm, hopener, by rw [stop_append]⟩

theorem of_append {before after : List Piece} (h : opener <+: texts after) :
    OpenedIn p (before ++ after) opener (stop p before).toLocation :=
  ⟨before, after, rfl, h, rfl⟩

end OpenedIn

end Piece

/-! ## The location of the last tag -/

namespace State

variable {lx : Lexicon} {s s' : State}

theorem tagOpenedAt_takeLexeme {l : Lexeme} (h : s.takeLexeme l = .ok s') :
    s'.tagOpenedAt = s.tagOpenedAt := by
  cases l with
  | plain => cases h; rfl
  | opening => cases h; rfl
  | closing bracket =>
    rw [takeLexeme, closeBracket] at h
    split at h
    · cases h
    · split at h
      · cases h; rfl
      · cases h
  | quoted =>
    cases h
    exact tagOpenedAt_emitSome _ _ _
  | quote => cases h; rfl

theorem tagOpenedAt_expressionStep (h : s.expressionStep lx = .ok s') :
    s'.tagOpenedAt = s.tagOpenedAt := by
  have hblanks : s.emitBlanks.tagOpenedAt = s.tagOpenedAt := tagOpenedAt_emitSome _ _ _
  rw [expressionStep] at h
  split at h
  · cases h
    exact hblanks
  · split at h
    · rw [tagOpenedAt_takeLexeme h, hblanks]
    · cases h

theorem tagOpenedAt_tagStep {kind : Token.Kind} {end? : Text → Option TagEnd}
    (h : s.tagStep lx kind end? = .ok s') : s'.tagOpenedAt = s.tagOpenedAt := by
  have hblanks : s.emitBlanks.tagOpenedAt = s.tagOpenedAt := tagOpenedAt_emitSome _ _ _
  rw [tagStep] at h
  split at h
  · cases h
    exact (tagOpenedAt_emitTrim _ _ _).trans hblanks
  · rw [tagOpenedAt_expressionStep h, hblanks]

theorem tagOpenedAt_stringStep : (s.stringStep lx).tagOpenedAt = s.tagOpenedAt := by
  rw [stringStep]
  split
  · exact tagOpenedAt_emitSome _ _ _
  · split <;> rfl

theorem tagOpenedAt_interpolationStep (h : s.interpolationStep lx = .ok s') :
    s'.tagOpenedAt = s.tagOpenedAt := by
  rw [interpolationStep] at h
  split at h
  · cases h
    exact tagOpenedAt_emitSome _ _ _
  · exact tagOpenedAt_expressionStep h

/-- A step inside a tag leaves the location of the tag alone. -/
theorem tagOpenedAt_step (hmode : s.mode ≠ .data) (h : s.step lx = .ok s') :
    s'.tagOpenedAt = s.tagOpenedAt := by
  rw [step] at h
  split at h
  · rename_i hdata
    exact absurd hdata hmode
  · exact tagOpenedAt_tagStep h
  · exact tagOpenedAt_tagStep h
  · cases h
    exact tagOpenedAt_stringStep
  · exact tagOpenedAt_interpolationStep h

theorem tagOpenedAt_commentStep (h : s.commentStep lx = .ok s') :
    s'.tagOpenedAt = s.tagOpenedAt := by
  rw [commentStep] at h
  split at h
  · cases h
  · cases h
    rw [emit, tagOpenedAt_emitTrim, tagOpenedAt_emitSome, tagOpenedAt_emitSome, emitBlanks,
      tagOpenedAt_emitSome]

/-- The start of a tag is written down as the location of the tag. -/
theorem tagOpenedAt_tagStartStep {t : TagStart} (h : s.tagStartStep lx t = .ok s') :
    s'.tagOpenedAt = s.position.toLocation := by
  rw [tagStartStep] at h
  dsimp only at h
  split at h
  · rw [tagOpenedAt_commentStep h, tagOpenedAt_emitTrim]
    rfl
  · cases h
    exact tagOpenedAt_emitTrim _ _ _
  · split at h
    · rw [verbatimStep] at h
      split at h
      · cases h
      · cases h
        rw [tagOpenedAt_emitVerbatimTag, tagOpenedAt_emitSome, tagOpenedAt_emitVerbatimTag]
    · cases h
      exact tagOpenedAt_emitTrim _ _ _

/-- A step between tags that finds a tag start reads the text before it and then the tag start. -/
theorem Finds.step_eq {before after : Text} {t : TagStart}
    (hfind : s.Finds lx.toDialect before t after) :
    s.step lx =
      ((s.nextTagStart lx.toDialect).2.emitSome .text before).tagStartStep lx t := by
  have hread := reads_nextTagStart s lx.toDialect
  have hnext := hfind.next_eq
  rw [step, hfind.mode_eq]
  dsimp only
  rw [dataStep]
  rcases hpair : s.nextTagStart lx.toDialect with ⟨found, s₁⟩
  rw [hpair] at hread hnext
  obtain rfl : found = some t := hnext
  have hrest : s₁.rest = s.rest := hread.rest_of_eq rfl
  have hbefore : takeBytes (t.start - s₁.position.offset) s₁.rest = before := by
    rw [hread.offset_eq, texts_nil, byteSize_nil, Nat.add_zero, hfind.start_eq,
      Nat.add_sub_cancel_left, hrest, hfind.rest_eq, takeBytes_append]
  dsimp only
  rw [hbefore]

theorem Finds.reads {before after : Text} {t : TagStart}
    (hfind : s.Finds lx.toDialect before t after) :
    s.Reads (unlessEmpty .text before)
      ((s.nextTagStart lx.toDialect).2.emitSome .text before) :=
  (reads_nextTagStart s lx.toDialect).andEmitSome .text before _ (by simpa using hfind.rest_eq)

theorem Finds.rest_ne_nil (hd : lx.defect? = none) {before after : Text} {t : TagStart}
    (hfind : s.Finds lx.toDialect before t after) : s.rest ≠ [] := by
  rw [hfind.rest_eq]
  exact List.append_ne_nil_of_right_ne_nil _
    (List.append_ne_nil_of_left_ne_nil (Dialect.startText_ne_nil hd t) _)

/-- A step that finds a tag start moves there, and does what the tag start asks for. -/
theorem Finds.exists_atTag {before after : Text} {t : TagStart}
    (hfind : s.Finds lx.toDialect before t after) :
    ∃ s₁ : State, s.AtTag lx before t after { s₁ with tagOpenedAt := s₁.position.toLocation } ∧
      s.step lx = s₁.tagStartStep lx t := by
  refine ⟨_, ⟨hfind, hfind.reads.congr_right rfl rfl rfl, ?_, ?_, ?_⟩, hfind.step_eq⟩
  · exact (toStacks_emitSome _ _ _).trans (toStacks_nextTagStart s _)
  · exact tagStarts_emitSome _ _ _
  · rw [hfind.reads.position_eq]

/-- A step between tags writes down the place of the tag start it finds. -/
theorem Finds.tagOpenedAt_eq {before after : Text} {t : TagStart}
    (hfind : s.Finds lx.toDialect before t after) (h : s.step lx = .ok s') :
    s'.tagOpenedAt = (stop s.position (unlessEmpty .text before)).toLocation := by
  rw [hfind.step_eq] at h
  rw [tagOpenedAt_tagStartStep h, hfind.reads.position_eq]

end State

/-! ## What a step opens -/

section

variable {lx : Lexicon} {s s' : State} {ps qs : List Piece} {st : Stacks}

theorem Lexeme.Acts.openedIn {t : Text} {l : Lexeme} {p : Position} {before : Stacks}
    (hstart : lx.Starts t l) (h : l.Acts p.toLocation before st) {scope : Scope}
    (hscope : scope ∈ st.scopes) :
    scope ∈ before.scopes ∨ OpenedIn p l.pieces scope.opener scope.openedAt := by
  cases h with
  | plain => exact Or.inl hscope
  | quoted => exact Or.inl hscope
  | closing => exact Or.inl (List.mem_of_mem_tail hscope)
  | opening =>
    rcases List.mem_cons.1 hscope with rfl | hscope
    · exact Or.inr ⟨[], _, rfl, by simp, rfl⟩
    · exact Or.inl hscope
  | quote =>
    rcases List.mem_cons.1 hscope with rfl | hscope
    · exact Or.inr ⟨[], _, rfl, by simp, rfl⟩
    · exact Or.inl hscope

/-- A scope that is open behind a step was open before it, or the step has opened it at a place
among its pieces where the opener stands. -/
theorem Lexicon.Move.openedIn (h : lx.Move s qs st) {scope : Scope} (hscope : scope ∈ st.scopes) :
    scope ∈ s.scopes ∨ OpenedIn s.position qs scope.opener scope.openedAt := by
  cases h with
  | text => exact Or.inl hscope
  | comment => exact Or.inl hscope
  | verbatim => exact Or.inl hscope
  | openTag => exact Or.inl hscope
  | closeTag => exact Or.inl hscope
  | blanks => exact Or.inl hscope
  | lexeme _ hstart hacts =>
    rw [(State.Reads.emitBlanks s).position_eq] at hacts
    exact (hacts.openedIn hstart hscope).imp id OpenedIn.append_left
  | openInterpolation =>
    rcases List.mem_cons.1 hscope with rfl | hscope
    · exact Or.inr ⟨[], _, rfl, by simp, rfl⟩
    · exact Or.inl hscope
  | stringPiece => exact Or.inl hscope
  | closeQuote => exact Or.inl (List.mem_of_mem_tail hscope)
  | closeInterpolation => exact Or.inl (List.mem_of_mem_tail hscope)

/-- A tag that is open behind a step was open before it, which then was a step inside the tag, or
the step has found its start. -/
theorem Lexicon.Move.tag_open (h : lx.Move s qs st) {t : Tag} (ht : t ≠ .comment)
    (hmem : t.mode ∈ st.mode :: st.outer) :
    t.mode ∈ s.mode :: s.outer ∨ ∃ before after start,
      s.Finds lx.toDialect before start after ∧ start.tag = t ∧
        qs = unlessEmpty .text before ++ start.pieces lx.toDialect := by
  have hleave (hmem : t.mode ∈ s.outer.headD .data :: s.outer.tail) :
      t.mode ∈ s.mode :: s.outer := by
    refine List.mem_cons_of_mem _ ?_
    rcases houter : s.outer with _ | ⟨m, outer⟩
    · rw [houter] at hmem
      exact absurd (List.mem_singleton.1 hmem) (Tag.mode_isExpression ht).1
    · rwa [houter] at hmem
  have henter {m : Mode} (hm : t.mode ≠ m) (hmem : t.mode ∈ m :: s.mode :: s.outer) :
      t.mode ∈ s.mode :: s.outer := (List.mem_cons.1 hmem).resolve_left hm
  cases h with
  | text => exact Or.inl hmem
  | comment => exact Or.inl hmem
  | verbatim => exact Or.inl hmem
  | openTag hfind =>
    rcases List.mem_cons.1 hmem with heq | hmem
    · exact Or.inr ⟨_, _, _, hfind, (Tag.eq_of_mode_eq ht heq).symm, rfl⟩
    · exact Or.inl hmem
  | closeTag => exact Or.inl (hleave hmem)
  | blanks => exact Or.inl hmem
  | lexeme _ _ hacts =>
    cases hacts with
    | plain => exact Or.inl hmem
    | quoted => exact Or.inl hmem
    | opening => exact Or.inl hmem
    | closing => exact Or.inl hmem
    | quote => exact Or.inl (henter (Tag.mode_isExpression ht).2 hmem)
  | openInterpolation => exact Or.inl (henter t.mode_ne_interpolation hmem)
  | stringPiece => exact Or.inl hmem
  | closeQuote => exact Or.inl (hleave hmem)
  | closeInterpolation => exact Or.inl (hleave hmem)

/-! ## What is open on a path -/

variable {source : Text} {ls : List Layer}

/-- Each scope that is open was opened where its opener stands. -/
theorem Lexicon.Path.scopes_openedIn (h : lx.Path source s ps ls) {scope : Scope}
    (hscope : scope ∈ s.scopes) : OpenedIn Position.start ps scope.opener scope.openedAt := by
  induction h with
  | start => cases hscope
  | @step s s' ps qs _ _ hpath _ _ hmoves hread _ _ ih =>
    rcases hmoves.move.openedIn hscope with hold | hnew
    · exact (ih hold).append_right qs
    · rw [hpath.reads.position_eq] at hnew
      exact hnew.append_left

/-- The tag around the position was opened where its delimiter stands. -/
theorem Lexicon.Path.tag_openedIn (h : lx.Path source s ps ls) {t : Tag} (ht : t ≠ .comment)
    (hmem : t.mode ∈ s.mode :: s.outer) :
    OpenedIn Position.start ps (lx.opening t) s.tagOpenedAt := by
  induction h with
  | start => exact absurd (List.mem_singleton.1 hmem) (Tag.mode_isExpression ht).1
  | @step s s' ps qs ls _ hpath _ hstep hmoves hread _ _ ih =>
    rcases hmoves.move.tag_open ht hmem with hold | ⟨before, after, start, hfind, rfl, rfl⟩
    · -- between tags no tag is open
      have hmode : s.mode ≠ .data := by
        intro hdata
        have hnil := hpath.layered.eq_nil_of_mode_eq_data (hpath.mode_eq ▸ hdata)
        have hstacks := hpath.stacks_eq
        rw [hnil] at hstacks
        rw [hdata, show s.outer = [] from congrArg Stacks.outer hstacks] at hold
        exact (Tag.mode_isExpression ht).1 (List.mem_singleton.1 hold)
      rw [State.tagOpenedAt_step hmode hstep]
      exact (ih hold).append_right qs
    · rw [hfind.tagOpenedAt_eq hstep, hpath.reads.position_eq]
      refine OpenedIn.append_left (OpenedIn.of_append ?_)
      rw [TagStart.texts_pieces]
      exact List.prefix_append _ _

end

end TemplateTokens
