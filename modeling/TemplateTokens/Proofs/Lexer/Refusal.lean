import TemplateTokens.Proofs.Lexer.Advance

/-!
# In front of a bracket that is refused

A run in the standard dialect may come to a closing bracket that it refuses. Up to there the bracket
is still to come, so no step looks past it; and neither does the step that refuses it, unless it is
a brace at the end of the template that could still become the end of a tag.

Results:

* `State.Moves.suffix_of_finds`: a step between tags reads the text up to the next tag start.
* `Lexicon.Move.eq_of_tagEnd`, `Lexicon.Move.eq_of_commentEnd`: what a step reads that ends a tag.
* `Lexicon.Refuses.stopped`: the bracket keeps a step from looking past it.
-/

namespace TemplateTokens

open Piece

/-! ## What a step reads -/

section

variable {lx : Lexicon} {s s₁ : State} {qs : List Piece} {st : Stacks}

/-- A step between tags reads at least the text up to the next tag start. -/
theorem State.Moves.suffix_of_finds (hd : lx.defect? = none) (hmoves : s.Moves lx qs s₁)
    (hread : s.Reads qs s₁) {before after : Text} {t : TagStart}
    (hfind : s.Finds lx.toDialect before t after) : s₁.rest <:+ lx.startText t ++ after := by
  have hlt := hmoves.move.start_lt hd hfind.mode_eq hfind.next_eq
  have hstart := hfind.start_eq
  obtain ⟨x, -, hbehind⟩ | ⟨x, hx, -⟩ :=
    List.append_eq_append_iff.1 (hfind.rest_eq.symm.trans hread.rest_eq)
  · exact ⟨x, hbehind.symm⟩
  · rw [hx, byteSize_append] at hstart
    omega

/-- Where a tag ends, a step reads its end. -/
theorem Lexicon.Move.eq_of_tagEnd (h : lx.Move s qs st) {tag : Tag} (htag : tag ≠ .comment)
    (hmode : s.mode = tag.mode) (hscopes : s.scopes = []) {e : TagEnd}
    (hend : lx.tagEnd? tag (s.rest.dropWhile isBlank) = some e) :
    qs = unlessEmpty .whitespace (TemplateTokens.blanks s.rest) ++
      e.pieces lx.toDialect tag.endKind := by
  have hexpression := Tag.mode_isExpression htag
  rw [← hmode] at hexpression
  have hnot : ¬ s.Expects lx := by
    intro hexp
    rw [State.Expects, hmode] at hexp
    cases tag with
    | comment => exact htag rfl
    | print => cases hend.symm.trans (hexp hscopes)
    | block => cases hend.symm.trans (hexp hscopes)
  cases h with
  | closeTag hmode' htag' _ hend' =>
    obtain rfl := Tag.eq_of_mode_eq htag (hmode.symm.trans hmode')
    cases hend.symm.trans hend'
    rfl
  | text hdata => exact absurd hdata hexpression.1
  | comment hfind => exact absurd hfind.mode_eq hexpression.1
  | verbatim hfind => exact absurd hfind.mode_eq hexpression.1
  | openTag hfind => exact absurd hfind.mode_eq hexpression.1
  | blanks hexp => exact absurd hexp hnot
  | lexeme hexp => exact absurd hexp hnot
  | openInterpolation hstring => exact absurd hstring hexpression.2
  | stringPiece hstring => exact absurd hstring hexpression.2
  | closeQuote hstring => exact absurd hstring hexpression.2
  | closeInterpolation hinter =>
    exact absurd (hmode.symm.trans hinter) tag.mode_ne_interpolation

/-- Where a comment ends, a step reads all of it. -/
theorem Lexicon.Move.eq_of_commentEnd (h : lx.Move s qs st) {before after : Text} {t : TagStart}
    (hfind : s.Finds lx.toDialect before t after) (htag : t.tag = .comment) {e : CommentEnd}
    (hend : lx.commentEnd? (after.dropWhile isBlank) = some e) :
    texts qs = before ++ (lx.startText t ++ (TemplateTokens.blanks after ++
      (e.before ++ (e.blank ++ (lx.modifierText e.modifier ++ e.delimiter))))) := by
  obtain ⟨-, e', hend', rfl⟩ | ⟨hblock, -⟩ | ⟨hcomment, -⟩ := h.of_finds hfind
  · cases hend.symm.trans hend'
    simp [CommentEnd.pieces, TagEnd.pieces]
  · cases htag.symm.trans hblock
  · exact absurd htag hcomment

end

/-! ## Brackets that are refused -/

/-- A step refuses the closing bracket `c`, which is not the last character if nothing is open. -/
structure State.Refuses (s : State) (c : Char) (e : SyntaxError) : Prop where
  expects : s.Expects Lexicon.standard
  closing : isClosingBracket [c] = true
  rest_eq : ∃ after, s.rest.dropWhile isBlank = c :: after ∧ (s.scopes = [] → after ≠ [])
  step_eq : s.step Lexicon.standard = .error e

/-- The run goes on from `s` to a step that refuses a closing bracket. -/
def Lexicon.Refuses (lx : Lexicon) (s : State) (c : Char) (e : SyntaxError) : Prop :=
  ∃ rs z, lx.Leads s rs z ∧ z.Refuses c e

theorem exists_mem_brackets {c : Char} (h : isClosingBracket [c] = true) :
    ∃ opener, (opener, [c]) ∈ brackets := by
  obtain ⟨⟨opener, closer⟩, hmem, hcloser⟩ := List.any_eq_true.1 h
  obtain rfl : closer = [c] := by simpa using hcloser
  exact ⟨opener, hmem⟩

theorem mem_closers {c : Char} (h : isClosingBracket [c] = true) : c ∈ closers := by
  obtain ⟨opener, hmem⟩ := exists_mem_brackets h
  have hall : ∀ p ∈ brackets, p.2 ∈ closers.map fun c => [c] := by decide
  simpa using hall _ hmem

namespace State.Refuses

variable {s : State} {c : Char} {e : SyntaxError}

theorem mem (h : s.Refuses c e) : c ∈ s.rest := by
  obtain ⟨after, hrest, -⟩ := h.rest_eq
  refine List.dropWhile_subset isBlank ?_
  rw [hrest]
  exact List.mem_cons_self

theorem lexemeAt?_eq (h : s.Refuses c e) (t : Text) :
    Lexicon.standard.lexemeAt? c (c :: t) = some (.closing c) := by
  obtain ⟨opener, hmem⟩ := exists_mem_brackets h.closing
  exact Lexicon.lexemeAt?_closing hmem t

end State.Refuses

namespace Lexicon.Refuses

variable {source : Text} {s : State} {c : Char} {e : SyntaxError} {ps : List Piece}
  {ls : List Layer}

theorem mem {lx : Lexicon} (h : lx.Refuses s c e) : c ∈ s.rest := by
  obtain ⟨rs, z, hleads, hz⟩ := h
  rw [hleads.reads.rest_eq]
  exact List.mem_append_right _ hz.mem

theorem mem_closers {lx : Lexicon} (h : lx.Refuses s c e) : c ∈ closers := by
  obtain ⟨rs, z, -, hz⟩ := h
  exact TemplateTokens.mem_closers hz.closing

/-- The next step refuses the bracket or leads on to where it is refused. -/
theorem exists_step (h : standard.Refuses s c e) (hpath : standard.Path source s ps ls) :
    s.Refuses c e ∨ ∃ qs s₁ ls', s.step standard = .ok s₁ ∧ s.Moves standard qs s₁ ∧
      s.Reads qs s₁ ∧ standard.Path source s₁ (ps ++ qs) ls' ∧ standard.Refuses s₁ c e := by
  obtain ⟨rs, z, hleads, hz⟩ := h
  cases hleads with
  | refl => exact Or.inl hz
  | @step _ s₁ _ qs rs hne hstep hread hleads =>
    obtain ⟨-, hmoves, ls', hpath'⟩ :=
      hpath.moves Dialect.defect?_standard closerOf?_standard hne hstep hread
    exact Or.inr ⟨qs, s₁, ls', hstep, hmoves, hread, hpath', rs, z, hleads, hz⟩

theorem endsWell (h : standard.Refuses s c e) (qs : List Piece) : State.EndsWell qs s :=
  fun hnil => absurd hnil (List.ne_nil_of_mem h.mem)

/-! ## What the step looks at -/

section

variable (h : standard.Refuses s c e) (hpath : standard.Path source s ps ls)

include h hpath

theorem stringPiece_ne (hmode : s.mode = .string) :
    stringPiece standard.interpolation.opening s.rest ≠ s.rest := by
  obtain hhere | ⟨qs, s₁, ls', -, hmoves, hread, -, hnext⟩ := h.exists_step hpath
  · exact absurd hmode hhere.expects.isExpression.2
  · exact hmoves.stringPiece_ne hread (hnext.endsWell qs) hmode

/-- Between tags a step leads on. -/
theorem exists_step_of_data (hmode : s.mode = .data) :
    ∃ qs s₁, s.Moves standard qs s₁ ∧ s.Reads qs s₁ ∧ standard.Refuses s₁ c e := by
  obtain hhere | ⟨qs, s₁, ls', -, hmoves, hread, -, hnext⟩ := h.exists_step hpath
  · exact absurd hmode hhere.expects.isExpression.1
  · exact ⟨qs, s₁, hmoves, hread, hnext⟩

theorem lexeme (hexp : s.Expects standard) {first : Char} {t : Text}
    (hrest : s.rest.dropWhile isBlank = first :: t) :
    ∃ l, standard.lexemeAt? first (first :: t) = some l ∧
      (l = .quote → first = '"' → stringPiece standard.interpolation.opening t ≠ t) := by
  obtain hhere | ⟨qs, s₁, ls', hstep, -, -, hpath', hnext⟩ := h.exists_step hpath
  · obtain ⟨after, hafter, -⟩ := hhere.rest_eq
    obtain ⟨rfl, rfl⟩ := List.cons.inj (hafter.symm.trans hrest)
    exact ⟨_, hhere.lexemeAt?_eq _, nofun⟩
  · exact hexp.exists_lexeme_of_step h.mem_closers h.mem hstep
      (fun _ => hnext.stringPiece_ne hpath') hrest

theorem mem_behind {before after : Text} {t : TagStart}
    (hfind : s.Finds Dialect.standard before t after) : c ∈ after := by
  obtain ⟨qs, s₁, hmoves, hread, hnext⟩ := h.exists_step_of_data hpath hfind.mode_eq
  have hsuffix := hmoves.suffix_of_finds Dialect.defect?_standard hread hfind
  exact mem_of_mem_append (hsuffix.subset hnext.mem)
    ((Dialect.startText_standard t).2 c h.mem_closers)

/-- In a print tag in which nothing is open there is more than a single brace. -/
theorem dropWhile_ne_brace (hmode : s.mode = .print) (hscopes : s.scopes = []) :
    s.rest.dropWhile isBlank ≠ ['}'] := by
  intro hbrace
  obtain hhere | ⟨_, _, _, hstep, -, -, -, -⟩ := h.exists_step hpath
  · obtain ⟨after, hrest, hmore⟩ := hhere.rest_eq
    exact hmore hscopes (List.cons.inj (hrest.symm.trans hbrace)).2
  · have hexp : s.Expects standard := by
      rw [State.Expects, hmode]
      intro _
      rw [hbrace]
      rfl
    have hrest : s.rest = TemplateTokens.blanks s.rest ++ ['}'] := by
      rw [← hbrace, blanks_append_dropWhile]
    have hclosing : standard.lexemeAt? '}' ['}'] = some (.closing '}') := rfl
    have hnil : s.emitBlanks.scopes = [] := hscopes ▸ congrArg Stacks.scopes s.toStacks_emitBlanks
    rw [hexp.step_eq_takeLexeme List.all_takeWhile (by decide) hrest hclosing, State.takeLexeme,
      State.closeBracket, hnil] at hstep
    cases hstep

/-- Nor is there one behind a trim marker, which is read as an operator in front of it. -/
theorem dropWhile_ne_marker (hmode : s.mode = .print) (hscopes : s.scopes = []) {marker : Char}
    (hblank : isBlank marker = false) (hend : standard.printEnd? [marker, '}'] = none)
    (hl : standard.lexemeAt? marker [marker, '}'] = some (.plain .operator [marker])) :
    s.rest.dropWhile isBlank ≠ [marker, '}'] := by
  intro hdrop
  have hexp : s.Expects standard := by
    rw [State.Expects, hmode]
    intro _
    rw [hdrop]
    exact hend
  have hrest : s.rest = TemplateTokens.blanks s.rest ++ [marker, '}'] := by
    rw [← hdrop, blanks_append_dropWhile]
  have htake := hexp.step_eq_takeLexeme List.all_takeWhile hblank hrest hl
  obtain hhere | ⟨_, s₁, _, hstep, -, -, hpath₁, hnext⟩ := h.exists_step hpath
  · cases hhere.step_eq.symm.trans htake
  · obtain rfl := Except.ok.inj (hstep.symm.trans htake)
    have hstacks := (State.toStacks_emit s.emitBlanks .operator [marker]).trans
      s.toStacks_emitBlanks
    have hbehind : (s.emitBlanks.emit .operator [marker]).rest = ['}'] :=
      State.rest_emit (by rw [State.rest_emitBlanks, hdrop]; rfl)
    refine hnext.dropWhile_ne_brace hpath₁ ((congrArg Stacks.mode hstacks).trans hmode)
      ((congrArg Stacks.scopes hstacks).trans hscopes) ?_
    rw [hbehind]
    rfl

/-- So no end of a print tag goes on behind the template. -/
theorem printEnd (hmode : s.mode = .print) (hscopes : s.scopes = []) {m : Option Trim} {rest : Text}
    (hsplit : s.rest.dropWhile isBlank = standard.modifierText m ++ rest)
    (hpre : rest <+: standard.print.closing) : rest = standard.print.closing := by
  have hstops := Dialect.stops_standard c h.mem_closers
  have hmem := mem_dropWhile h.mem hstops.not_isBlank
  rw [hsplit] at hmem
  have hne := List.ne_nil_of_mem (mem_of_mem_append hmem (hstops.not_mem_modifierText m))
  have hbraces : rest <+: ['}', '}'] := hpre
  obtain hnil | ⟨rest, rfl, hone⟩ := List.prefix_cons_iff.1 hbraces
  · exact absurd hnil hne
  obtain rfl | ⟨rest, rfl, htwo⟩ := List.prefix_cons_iff.1 hone
  · exfalso
    rcases m with _ | _ | _
    · exact h.dropWhile_ne_brace hpath hmode hscopes hsplit
    · exact h.dropWhile_ne_marker hpath hmode hscopes (by decide) rfl rfl hsplit
    · exact h.dropWhile_ne_marker hpath hmode hscopes (by decide) rfl rfl hsplit
  · rw [List.prefix_nil.1 htwo]
    rfl

/-- The bracket stands behind the line break of a block tag. -/
theorem blockEnd (hmode : s.mode = .block) (hscopes : s.scopes = []) {m : Option Trim} {rest : Text}
    (hfound : standard.afterModifier? standard.block.closing.isPrefixOf?
      (s.rest.dropWhile isBlank) = some (m, rest)) : c ∈ rest := by
  have hend : standard.tagEnd? .block (s.rest.dropWhile isBlank) =
      some ⟨m, standard.block.closing ++ lineBreakAt rest⟩ := by
    rw [Dialect.tagEnd?, Dialect.blockEnd?_eq_map, hfound]
    rfl
  obtain ⟨behind, hsplit, hbehind⟩ := Dialect.afterModifier?_sound hfound
  obtain rfl := isPrefixOf?_eq_some_iff.1 hbehind
  obtain hhere | ⟨qs, s₁, _, -, hmoves, hread, -, hnext⟩ := h.exists_step hpath
  · have hexp := hhere.expects
    rw [State.Expects, hmode] at hexp
    cases hend.symm.trans (hexp hscopes)
  · have hall := hread.rest_eq
    have htag : Tag.block ≠ .comment := by decide
    rw [hmoves.move.eq_of_tagEnd htag hmode hscopes hend] at hall
    conv at hall => lhs; rw [← blanks_append_dropWhile s.rest, hsplit]
    have hline : rest = lineBreakAt rest ++ s₁.rest := by simpa [TagEnd.pieces] using hall
    rw [hline]
    exact List.mem_append_right _ hnext.mem

/-- And behind that of a comment. -/
theorem commentEnd {before after : Text} {t : TagStart}
    (hfind : s.Finds standard.toDialect before t after) (htag : t.tag = .comment) {e : CommentEnd}
    (hend : standard.commentEnd? (after.dropWhile isBlank) = some e) {rest : Text}
    (hrest : after.dropWhile isBlank = e.before ++ (e.blank ++
      (standard.modifierText e.modifier ++ (standard.comment.closing ++ rest))))
    (hdelimiter : e.delimiter = standard.comment.closing ++ lineBreakAt rest) : c ∈ rest := by
  obtain ⟨qs, s₁, hmoves, hread, hnext⟩ := h.exists_step_of_data hpath hfind.mode_eq
  have hall := hread.rest_eq
  rw [hmoves.move.eq_of_commentEnd hfind htag hend, hfind.rest_eq, hdelimiter] at hall
  conv at hall => lhs; rw [← blanks_append_dropWhile after, hrest]
  have hline : rest = lineBreakAt rest ++ s₁.rest := by simpa using hall
  rw [hline]
  exact List.mem_append_right _ hnext.mem

/-- The bracket keeps a step from looking past it. -/
theorem stopped (more : Text) : s.Stopped c more := by
  have hline {rest : Text} (hrest : c ∈ rest) : lineBreakAt (rest ++ more) = lineBreakAt rest := by
    have hreturn : ∀ c ∈ closers, c ≠ '\r' := forall_mem_closers.2 (by decide)
    refine lineBreakAt_append_of_ne (List.ne_nil_of_mem hrest) ?_
    rintro rfl
    exact hreturn c h.mem_closers (List.mem_singleton.1 hrest)
  exact {
    mem := h.mem
    behind := fun _ _ _ => h.mem_behind hpath
    lexeme := fun hexp _ _ => h.lexeme hpath hexp
    piece := h.stringPiece_ne hpath
    search := by
      intro hmode
      obtain ⟨qs, s₁, hmoves, hread, hnext⟩ := h.exists_step_of_data hpath hmode
      exact hmoves.search?_isSome hread (hnext.endsWell qs) (hpath.fresh hmode) hmode
    comment := by
      intro before t after hfind htag
      obtain ⟨qs, s₁, hmoves, hread, hnext⟩ := h.exists_step_of_data hpath hfind.mode_eq
      obtain ⟨e, he⟩ := Option.isSome_iff_exists.1 (hmoves.commentEnd?_isSome hfind htag)
      exact ⟨e, he, fun rest hrest hdelimiter =>
        hline (h.commentEnd hpath hfind htag he hrest hdelimiter)⟩
    verbatim := by
      intro before t after opening rest hfind htag
      obtain ⟨qs, s₁, hmoves, hread, hnext⟩ := h.exists_step_of_data hpath hfind.mode_eq
      exact hmoves.verbatimClose?_isSome hfind htag
    printEnd := fun hmode hscopes _ _ => h.printEnd hpath hmode hscopes
    blockEnd := fun hmode hscopes _ _ hfound => hline (h.blockEnd hpath hmode hscopes hfound) }

/-- Nothing that a step looks at in front of a bracket that is refused depends on the text behind
the template. -/
theorem settled (more : Text) : s.Settled standard more :=
  (h.stopped hpath more).settled h.mem_closers hpath.fresh

/-- In front of the bracket a step that is taken leads on. -/
theorem next {s₁ : State} (hstep : s.step standard = .ok s₁) : standard.Refuses s₁ c e := by
  obtain hhere | ⟨_, s₂, _, hstep₂, -, -, -, hnext⟩ := h.exists_step hpath
  · cases hhere.step_eq.symm.trans hstep
  · obtain rfl := Except.ok.inj (hstep₂.symm.trans hstep)
    exact hnext

end

end Lexicon.Refuses

end TemplateTokens
