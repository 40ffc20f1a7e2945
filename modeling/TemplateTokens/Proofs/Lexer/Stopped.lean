import TemplateTokens.Proofs.Lexer.Standard

/-!
# Stops in front of more text

A closing bracket in the standard dialect stops all that a step reads, strings, comments and
verbatim blocks apart. What a step looks at in front of one does not depend on the text behind, if
the step finds what it searches for and no delimiter could go on in that text.

Results:

* `Lexicon.Move.of_string`, `Lexicon.Move.of_data`, `Lexicon.Move.of_finds`: what a step can do
  inside of a string, between tags, and where it finds a tag start.
* `State.Moves.stringPiece_ne`, `State.Moves.search?_isSome`, `State.Expects.exists_lexeme_of_step`,
  `State.Moves.commentEnd?_isSome`, `State.Moves.verbatimClose?_isSome`: what a step finds that
  leaves something behind it, or ends with a tag.
* `State.Stopped.settled`: where a stop keeps a step from it, nothing depends on the text behind.
-/

namespace TemplateTokens

open Piece

section

variable {lx : Lexicon} {s : State} {qs : List Piece} {st : Stacks}

/-! ## Steps inside of strings and between tags -/

/-- What a step inside a string finds. -/
theorem Lexicon.Move.of_string (h : lx.Move s qs st) (hmode : s.mode = .string) :
    (∃ blank, lx.interpolationOpen? s.rest = some blank) ∨
      qs = [⟨.string, TemplateTokens.stringPiece lx.interpolation.opening s.rest⟩] ∨
      ∃ rest, s.rest = '"' :: rest := by
  cases h with
  | openInterpolation _ hopen => exact Or.inl ⟨_, hopen⟩
  | stringPiece _ _ hpiece => exact Or.inr (Or.inl (by rw [hpiece]))
  | closeQuote _ _ hrest => exact Or.inr (Or.inr ⟨_, hrest⟩)
  | text hdata => cases hdata.symm.trans hmode
  | comment hfind => cases hfind.mode_eq.symm.trans hmode
  | verbatim hfind => cases hfind.mode_eq.symm.trans hmode
  | openTag hfind => cases hfind.mode_eq.symm.trans hmode
  | closeTag htag hcomment =>
    exact absurd (htag.symm.trans hmode) (Tag.mode_isExpression hcomment).2
  | blanks hexp => exact absurd hmode hexp.isExpression.2
  | lexeme hexp => exact absurd hmode hexp.isExpression.2
  | closeInterpolation hinter => cases hinter.symm.trans hmode

/-- A step between tags reads all that remains, or finds the next tag start. -/
theorem Lexicon.Move.of_data (h : lx.Move s qs st) (hmode : s.mode = .data) :
    (s.nextTagStart lx.toDialect).1 = none ∧ qs = [⟨.text, s.rest⟩] ∨
      ∃ before t after, s.Finds lx.toDialect before t after := by
  cases h with
  | text _ hnext => exact Or.inl ⟨hnext, rfl⟩
  | comment hfind => exact Or.inr ⟨_, _, _, hfind⟩
  | verbatim hfind => exact Or.inr ⟨_, _, _, hfind⟩
  | openTag hfind => exact Or.inr ⟨_, _, _, hfind⟩
  | closeTag htag hcomment =>
    exact absurd (htag.symm.trans hmode) (Tag.mode_isExpression hcomment).1
  | blanks hexp => exact absurd hmode hexp.isExpression.1
  | lexeme hexp => exact absurd hmode hexp.isExpression.1
  | openInterpolation hstring => cases hstring.symm.trans hmode
  | stringPiece hstring => cases hstring.symm.trans hmode
  | closeQuote hstring => cases hstring.symm.trans hmode
  | closeInterpolation hinter => cases hinter.symm.trans hmode

theorem State.Finds.unique {d : Dialect} {before before' after after' : Text} {t t' : TagStart}
    (h : s.Finds d before t after) (h' : s.Finds d before' t' after') :
    before' = before ∧ t' = t ∧ after' = after := by
  obtain rfl : t' = t := Option.some.inj (h'.next_eq.symm.trans h.next_eq)
  have hsize : byteSize before' = byteSize before := by
    have := h.start_eq
    have := h'.start_eq
    omega
  have hbehind := dropBytes_append before' (d.startText t' ++ after')
  rw [hsize, ← h'.rest_eq, h.rest_eq, dropBytes_append] at hbehind
  refine ⟨?_, rfl, (List.append_cancel_left hbehind).symm⟩
  have hrest := h'.rest_eq.symm.trans h.rest_eq
  rw [hbehind] at hrest
  exact List.append_cancel_right hrest

/-- A step that finds the next tag start reads a comment or a verbatim block, or goes into the
tag. -/
theorem Lexicon.Move.of_finds (h : lx.Move s qs st) {before after : Text} {t : TagStart}
    (hfind : s.Finds lx.toDialect before t after) :
    (t.tag = .comment ∧ ∃ e, lx.commentEnd? (after.dropWhile isBlank) = some e ∧
        qs = unlessEmpty .text before ++ (t.pieces lx.toDialect ++
          (unlessEmpty .whitespace (TemplateTokens.blanks after) ++ e.pieces lx.toDialect))) ∨
      (t.tag = .block ∧ ∃ opening rest body closing,
        lx.verbatimOpen? (lx.startText t ++ after) = some opening ∧
        lx.startText t ++ after = texts (opening.pieces lx.toDialect) ++ rest ∧
        lx.verbatimClose? rest = some (body, closing) ∧
        qs = unlessEmpty .text before ++ (opening.pieces lx.toDialect ++
          (unlessEmpty .text body ++ closing.pieces lx.toDialect))) ∨
      t.tag ≠ .comment ∧ (t.tag = .block → lx.verbatimOpen? (lx.startText t ++ after) = none) ∧
        qs = unlessEmpty .text before ++ t.pieces lx.toDialect ∧
        st = s.toStacks.enter t.tag.mode := by
  have hmode := hfind.mode_eq
  cases h with
  | text _ hnone => cases hnone.symm.trans hfind.next_eq
  | comment hfind' htag hend =>
    obtain ⟨rfl, rfl, rfl⟩ := hfind.unique hfind'
    exact Or.inl ⟨htag, _, hend, rfl⟩
  | verbatim hfind' htag hopen hrest hclose =>
    obtain ⟨rfl, rfl, rfl⟩ := hfind.unique hfind'
    exact Or.inr (Or.inl ⟨htag, _, _, _, _, hopen, hrest, hclose, rfl⟩)
  | openTag hfind' htag hopen =>
    obtain ⟨rfl, rfl, rfl⟩ := hfind.unique hfind'
    exact Or.inr (Or.inr ⟨htag, hopen, rfl, rfl⟩)
  | closeTag htag hcomment =>
    exact absurd (htag.symm.trans hmode) (Tag.mode_isExpression hcomment).1
  | blanks hexp => exact absurd hmode hexp.isExpression.1
  | lexeme hexp => exact absurd hmode hexp.isExpression.1
  | openInterpolation hstring => cases hstring.symm.trans hmode
  | stringPiece hstring => cases hstring.symm.trans hmode
  | closeQuote hstring => cases hstring.symm.trans hmode
  | closeInterpolation hinter => cases hinter.symm.trans hmode

end

/-! ## Stops of the standard dialect -/

theorem Lexicon.closerOf?_standard : closerOf? standard.interpolation.opening = none := by decide

/-- The closing brackets. -/
def closers : List Char := ['}', ')', ']']

theorem forall_mem_closers {p : Char → Prop} : (∀ c ∈ closers, p c) ↔ p '}' ∧ p ')' ∧ p ']' := by
  simp [closers]

theorem Lexicon.stops_standard : ∀ c ∈ closers, standard.Stops c := by
  intro c hc
  have hmem : ∀ c ∈ closers, ∀ o ∈ Dialect.standard.operators, c ∉ o :=
    forall_mem_closers.2 (by decide)
  have hplain : ∀ c ∈ closers, isWhiteSpace c = false ∧ isNameRest c = false ∧
      c.isDigit = false ∧ c ≠ '.' ∧ c ≠ '=' := forall_mem_closers.2 (by decide)
  obtain ⟨hspace, hname, hdigit, hpoint, hequals⟩ := hplain c hc
  exact ⟨hspace, hname, hdigit, hpoint, not_mem_words (hmem c hc) hequals⟩

theorem Dialect.stops_standard : ∀ c ∈ closers, Dialect.standard.Stops c := by
  intro c hc
  have hplain : ∀ c ∈ closers, isBlank c = false ∧ c ∉ Dialect.standard.modifierText none ∧
      c ∉ Dialect.standard.modifierText (some .whole) ∧
      c ∉ Dialect.standard.modifierText (some .line) := forall_mem_closers.2 (by decide)
  obtain ⟨hblank, hnone, hwhole, hline⟩ := hplain c hc
  refine ⟨hblank, ?_⟩
  rintro (_ | _ | _)
  · exact hnone
  · exact hwhole
  · exact hline

/-- The start of a tag has an opening brace in it and no closing bracket. -/
theorem Dialect.startText_standard (t : TagStart) : '{' ∈ standard.startText t ∧
    ∀ c ∈ closers, c ∉ standard.startText t := by
  have hall : ∀ (tag : Tag) (m : Option Trim),
      '{' ∈ standard.opening tag ++ standard.modifierText m ∧
        ∀ c ∈ closers, c ∉ standard.opening tag ++ standard.modifierText m := by
    rintro (_ | _ | _) (_ | _ | _) <;> exact ⟨by decide, forall_mem_closers.2 (by decide)⟩
  exact hall t.tag t.modifier

/-! ## What a step finds -/

namespace State

section

variable {source : Text} {s s₁ : State} {ps qs : List Piece} {ls : List Layer}

/-- Something is left behind a step, or the step ends with a tag. -/
def EndsWell (qs : List Piece) (s₁ : State) : Prop :=
  s₁.rest = [] → ∃ tag : Tag, ∃ v, qs.getLast? = some ⟨tag.endKind, v⟩

theorem EndsWell.ne_rest {kind : Token.Kind} (hread : s.Reads [⟨kind, s.rest⟩] s₁)
    (hkind : ∀ tag : Tag, kind ≠ tag.endKind) : ¬ EndsWell [⟨kind, s.rest⟩] s₁ := by
  intro hends
  obtain ⟨tag, v, hlast⟩ := hends (hread.rest_of_eq (by simp))
  exact hkind tag (congrArg Piece.kind (Option.some.inj hlast))

/-- Not all that remains is a piece of a string. -/
theorem Moves.stringPiece_ne (hmoves : s.Moves Lexicon.standard qs s₁) (hread : s.Reads qs s₁)
    (hends : EndsWell qs s₁) (hmode : s.mode = .string) :
    stringPiece Lexicon.standard.interpolation.opening s.rest ≠ s.rest := by
  intro hall
  obtain ⟨blank, hopen⟩ | rfl | ⟨rest, hrest⟩ := hmoves.move.of_string hmode
  · obtain ⟨rest, hrest⟩ := Dialect.interpolationOpen?_eq_some hopen
    rw [← hrest] at hall
    cases hall
  · rw [hall] at hread hends
    exact EndsWell.ne_rest hread (by rintro (_ | _ | _) <;> nofun) hends
  · rw [hrest] at hall
    cases hall

/-- The quote in front of what remains is not that of a string that does not end. -/
theorem Expects.exists_lexeme_of_step (hexp : s.Expects Lexicon.standard) {stop : Char}
    (hstop : stop ∈ closers) (hmem : stop ∈ s.rest) (hstep : s.step Lexicon.standard = .ok s₁)
    (hnext : s₁.rest ≠ [] → s₁.mode = .string →
      stringPiece Lexicon.standard.interpolation.opening s₁.rest ≠ s₁.rest) {first : Char}
    {t : Text} (hrest : s.rest.dropWhile isBlank = first :: t) :
    ∃ l, Lexicon.standard.lexemeAt? first (first :: t) = some l ∧
      (l = .quote → first = '"' → stringPiece Lexicon.standard.interpolation.opening t ≠ t) := by
  obtain ⟨l, hl, htake⟩ := hexp.exists_lexeme hstep hrest
  refine ⟨l, hl, ?_⟩
  rintro rfl rfl
  have hmode : s₁.mode = .string := by
    cases htake
    rfl
  have hbehind : s₁.rest = t := by
    cases htake
    show (s.emitBlanks.openScope ['"'] ['"'] |>.emit .openingQuote ['"']).rest = t
    exact rest_emit (by rw [rest_openScope, rest_emitBlanks, hrest]; rfl)
  have hquote : stop ≠ '"' := by
    rintro rfl
    revert hstop
    decide
  have hmem' := mem_dropWhile hmem (Dialect.stops_standard stop hstop).not_isBlank
  rw [hrest] at hmem'
  have hne : s₁.rest ≠ [] :=
    hbehind ▸ List.ne_nil_of_mem ((List.mem_cons.1 hmem').resolve_left hquote)
  exact hbehind ▸ hnext hne hmode

/-- Between tags a tag start is to come. -/
theorem Moves.search?_isSome (hmoves : s.Moves Lexicon.standard qs s₁) (hread : s.Reads qs s₁)
    (hends : EndsWell qs s₁) (hfresh : s.Fresh Dialect.standard) (hmode : s.mode = .data) :
    (search? Lexicon.standard.tagAt? s.rest).isSome := by
  refine Option.isSome_iff_ne_none.2 fun hsearch => ?_
  have hnone := hfresh.next_eq_none Dialect.defect?_standard hsearch
  obtain ⟨-, rfl⟩ | ⟨_, _, _, hfind⟩ := hmoves.move.of_data hmode
  · exact EndsWell.ne_rest hread (by rintro (_ | _ | _) <;> nofun) hends
  · cases hnone.symm.trans hfind.next_eq

theorem Moves.commentEnd?_isSome {lx : Lexicon} (hmoves : s.Moves lx qs s₁) {before after : Text}
    {t : TagStart} (hfind : s.Finds lx.toDialect before t after) (htag : t.tag = .comment) :
    (lx.commentEnd? (after.dropWhile isBlank)).isSome := by
  obtain ⟨-, e, hend, -⟩ | ⟨hblock, -⟩ | ⟨hcomment, -⟩ := hmoves.move.of_finds hfind
  · exact Option.isSome_of_eq_some hend
  · cases htag.symm.trans hblock
  · exact absurd htag hcomment

theorem Moves.verbatimClose?_isSome {lx : Lexicon} (hmoves : s.Moves lx qs s₁)
    {before after : Text} {t : TagStart} (hfind : s.Finds lx.toDialect before t after)
    (htag : t.tag = .block) {opening : VerbatimTag} {rest : Text}
    (hopen : lx.verbatimOpen? (lx.startText t ++ after) = some opening)
    (hrest : lx.startText t ++ after = texts (opening.pieces lx.toDialect) ++ rest) :
    (lx.verbatimClose? rest).isSome := by
  obtain ⟨hcomment, -⟩ | ⟨-, opening', rest', body, closing, hopen', hrest', hclose, -⟩ |
      ⟨-, hnone, -⟩ := hmoves.move.of_finds hfind
  · cases htag.symm.trans hcomment
  · obtain rfl := Option.some.inj (hopen.symm.trans hopen')
    obtain rfl : rest = rest' := List.append_cancel_left (hrest.symm.trans hrest')
    exact Option.isSome_of_eq_some hclose
  · cases (hnone htag).symm.trans hopen

end

/-! ## States in front of a stop -/

/-- The stop `c` keeps a step from looking at the text `more` behind the rest: it stands in the rest
and behind the next tag start, what the step searches for is to come, and no end of a tag goes on
in that text. -/
structure Stopped (c : Char) (more : Text) (s : State) : Prop where
  mem : c ∈ s.rest
  behind : ∀ before t after, s.Finds Dialect.standard before t after → c ∈ after
  lexeme : s.Expects Lexicon.standard → ∀ first t, s.rest.dropWhile isBlank = first :: t →
    ∃ l, Lexicon.standard.lexemeAt? first (first :: t) = some l ∧
      (l = .quote → first = '"' → stringPiece Lexicon.standard.interpolation.opening t ≠ t)
  piece : s.mode = .string →
    stringPiece Lexicon.standard.interpolation.opening s.rest ≠ s.rest
  search : s.mode = .data → (search? Lexicon.standard.tagAt? s.rest).isSome
  comment : ∀ before t after, s.Finds Dialect.standard before t after → t.tag = .comment →
    ∃ e, Lexicon.standard.commentEnd? (after.dropWhile isBlank) = some e ∧
      ∀ rest, after.dropWhile isBlank = e.before ++ (e.blank ++
          (Dialect.standard.modifierText e.modifier ++
            (Lexicon.standard.comment.closing ++ rest))) →
        e.delimiter = Lexicon.standard.comment.closing ++ lineBreakAt rest →
        lineBreakAt (rest ++ more) = lineBreakAt rest
  verbatim : ∀ before t after opening rest, s.Finds Dialect.standard before t after →
    t.tag = .block →
    Lexicon.standard.verbatimOpen? (Lexicon.standard.startText t ++ after) = some opening →
    Lexicon.standard.startText t ++ after = texts (opening.pieces Dialect.standard) ++ rest →
    (Lexicon.standard.verbatimClose? rest).isSome
  printEnd : s.mode = .print → s.scopes = [] → ∀ m rest,
    s.rest.dropWhile isBlank = Dialect.standard.modifierText m ++ rest →
    rest <+: Dialect.standard.print.closing → rest = Dialect.standard.print.closing
  blockEnd : s.mode = .block → s.scopes = [] → ∀ m rest,
    Dialect.standard.afterModifier? Dialect.standard.block.closing.isPrefixOf?
      (s.rest.dropWhile isBlank) = some (m, rest) →
    lineBreakAt (rest ++ more) = lineBreakAt rest

namespace Stopped

variable {c : Char} {more source : Text} {s : State} {ps : List Piece} {ls : List Layer}

theorem mem_dropWhile (h : s.Stopped c more) (hc : c ∈ closers) : c ∈ s.rest.dropWhile isBlank :=
  TemplateTokens.mem_dropWhile h.mem (Dialect.stops_standard c hc).not_isBlank

/-- Between tags a tag start is to come, and more text behind its delimiter. -/
theorem exists_search (h : s.Stopped c more) (hfresh : s.Fresh Dialect.standard)
    (hmode : s.mode = .data) :
    ∃ before after found, s.rest = before ++ after ∧
      search? Lexicon.standard.tagAt? s.rest = some (before, found) ∧
      ∀ tag, (Lexicon.standard.opening tag).length < after.length := by
  obtain ⟨⟨before, tag', m⟩, hsearch⟩ := Option.isSome_iff_exists.1 (h.search hmode)
  obtain ⟨after, hrest, htag⟩ := search?_sound hsearch
  obtain ⟨behind, rfl⟩ := Dialect.tagAt?_eq_some htag 0
  have hfind := hfresh.finds Dialect.defect?_standard hmode hsearch hrest
  refine ⟨before, _, (tag', m), hrest, hsearch, fun tag => ?_⟩
  have hlength : ∀ tag, (Lexicon.standard.opening tag).length = 2 := by
    rintro (_ | _ | _) <;> rfl
  have hpos := List.length_pos_of_mem (h.behind _ _ _ hfind)
  rw [Dialect.startText, List.length_append, List.length_append, hlength, hlength]
  omega

/-- Nothing that a step looks at in front of a stop depends on the text behind. -/
theorem settled (h : s.Stopped c more) (hc : c ∈ closers)
    (hfresh : s.mode = .data → s.Fresh Dialect.standard) : s.Settled Lexicon.standard more := by
  have hstops := Dialect.stops_standard c hc
  have hapart : ∀ c ∈ closers, c ∉ Lexicon.standard.interpolation.opening ∧
      c ∉ Lexicon.standard.block.opening ∧ c ∉ "verbatim".toList ∧
      c ∉ Lexicon.standard.interpolation.closing.dropLast ∧
      c ∉ Lexicon.standard.block.closing.dropLast := forall_mem_closers.2 (by decide)
  obtain ⟨hinterpolation, hblock, hverbatim, hclose, hend⟩ := hapart c hc
  have hmem := h.mem_dropWhile hc
  exact {
    blanks := fun _ => dropWhile_append_of_mem h.mem hstops.not_isBlank
    lexeme := by
      intro hexp first t hrest
      obtain ⟨l, hl, hquote⟩ := h.lexeme hexp first t hrest
      rw [hrest] at hmem
      rw [hl]
      exact Lexicon.lexemeAt?_append hmem (Lexicon.stops_standard c hc) (by decide) hl hquote
    ends := by
      intro hexp _
      obtain ⟨first, t, hrest⟩ := List.exists_cons_of_ne_nil (List.ne_nil_of_mem hmem)
      obtain ⟨l, hl, -⟩ := h.lexeme hexp first t hrest
      exact ⟨first, t, hrest, by rw [hl, Option.isSome_some]⟩
    tagEnd := by
      intro tag htag hmode hscopes
      cases tag with
      | comment => exact absurd rfl htag
      | print =>
        exact Dialect.printEnd?_append (List.ne_nil_of_mem hmem) (h.printEnd hmode hscopes)
      | block => exact Dialect.blockEnd?_append hmem hstops hend (h.blockEnd hmode hscopes)
    interpolationClose := fun _ =>
      Dialect.interpolationClose?_append h.mem hstops.not_isBlank hclose
    interpolationOpen := fun _ =>
      Dialect.interpolationOpen?_append h.mem hstops.not_isBlank hinterpolation
    stringPiece := fun hmode _ => stringPiece_append (by decide) (h.piece hmode)
    tagAt := by
      intro hmode
      obtain ⟨before, after, found, hrest, hsearch, hlength⟩ := h.exists_search (hfresh hmode) hmode
      rw [hsearch, hrest, List.append_assoc]
      rw [hrest] at hsearch
      exact Dialect.search?_tagAt?_append hsearch hlength
    text := by
      intro hmode hnone
      have hsome := h.search hmode
      rw [hnone] at hsome
      cases hsome
    comment := by
      intro before t after hfind htag
      obtain ⟨e, he, hline⟩ := h.comment _ _ _ hfind htag
      refine ⟨dropWhile_append_of_mem (h.behind _ _ _ hfind) hstops.not_isBlank, ?_, ?_⟩
      · rw [he]
        exact Dialect.commentEnd?_append (Dialect.stops_standard '}' List.mem_cons_self)
          (by decide) (by decide) he hline
      · intro hnone
        cases hnone.symm.trans he
    verbatimOpen := by
      intro before t after hfind _
      rw [← List.append_assoc]
      exact Dialect.wordTag?_append hstops hblock hverbatim hend
        (List.mem_append_right _ (h.behind _ _ _ hfind))
    verbatimClose := by
      intro before t after opening rest hfind htag hopen hrest
      obtain ⟨found, hfound⟩ :=
        Option.isSome_iff_exists.1 (h.verbatim _ _ _ _ _ hfind htag hopen hrest)
      refine ⟨?_, fun hnone => by cases hnone.symm.trans hfound⟩
      rw [hfound]
      exact Dialect.verbatimClose?_append (Dialect.stops_standard '}' List.mem_cons_self)
        (by decide) (by decide) (by decide) (by decide) hfound }

end Stopped

end State

end TemplateTokens
