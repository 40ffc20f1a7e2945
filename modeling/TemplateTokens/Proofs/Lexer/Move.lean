import TemplateTokens.Proofs.Lexeme.Piece
import TemplateTokens.Proofs.Lexeme.TagStart
import TemplateTokens.Proofs.Lexer.Stacks

/-!
# What a step can do

A step reads a row of pieces and enters or leaves parts of the template, opens or closes scopes.
All that it can do is listed here once, as a relation between the state before it, the pieces and
the two stacks behind it; later proofs go through the cases of that relation and never look at the
definition of a step.

Results:

* `Lexicon.Move.texts_isPrefix`, `Lexicon.Fails.texts_isPrefix`: the pieces read are the beginning
  of the rest.
* `Lexicon.Move.start_lt`: a step between tags goes past the beginning of the tag start it finds.
* `Lexicon.Move.ne_nil`, `Lexicon.Move.proper`: a step reads something, and no piece is empty.
-/

namespace TemplateTokens

open Piece

/-! ## What is read -/

namespace Tag

/-- The kind of token at the start of a tag. -/
def startKind : Tag → Token.Kind
  | .print => .printStart
  | .block => .blockStart
  | .comment => .commentStart

/-- The kind of token at the end of a tag. -/
def endKind : Tag → Token.Kind
  | .print => .printEnd
  | .block => .blockEnd
  | .comment => .commentEnd

/-- The part of a template that the content of a tag is. A comment is read in one step and has no
part of its own. -/
def mode : Tag → Mode
  | .print => .print
  | .block => .block
  | .comment => .data

end Tag

/-- A part of a template that expressions stand in. -/
def Mode.IsExpression (m : Mode) : Prop := m ≠ .data ∧ m ≠ .string

theorem Tag.mode_isExpression {t : Tag} (h : t ≠ .comment) : t.mode.IsExpression := by
  cases t with
  | comment => exact absurd rfl h
  | print => exact ⟨nofun, nofun⟩
  | block => exact ⟨nofun, nofun⟩

theorem Tag.eq_of_mode_eq {t u : Tag} (ht : t ≠ .comment) (h : t.mode = u.mode) : t = u := by
  cases t <;> cases u <;> simp_all [Tag.mode]

theorem Tag.mode_ne_interpolation (t : Tag) : t.mode ≠ .interpolation := by cases t <;> nofun

/-- The end of a tag where its content may end. The end of a comment is searched for instead. -/
def Dialect.tagEnd? (d : Dialect) : Tag → Text → Option TagEnd
  | .print => d.printEnd?
  | .block => d.blockEnd?
  | .comment => fun _ => none

theorem Dialect.texts_tagEnd? {d : Dialect} {tag : Tag} {t : Text} {e : TagEnd}
    (h : d.tagEnd? tag t = some e) : texts (e.pieces d tag.endKind) <+: t := by
  cases tag with
  | comment => cases h
  | print => exact texts_printEnd? _ h
  | block => exact texts_blockEnd? _ h

/-- The pieces of a tag start. -/
def TagStart.pieces (d : Dialect) (t : TagStart) : List Piece :=
  [⟨t.tag.startKind, d.opening t.tag⟩] ++ ofTrim d t.modifier

@[simp] theorem TagStart.texts_pieces (d : Dialect) (t : TagStart) :
    texts (t.pieces d) = d.startText t := by
  simp [pieces, Dialect.startText]

namespace State

/-- The next tag start stands in the rest, behind `before`. -/
structure Finds (d : Dialect) (s : State) (before : Text) (t : TagStart) (after : Text) : Prop where
  mode_eq : s.mode = .data
  next_eq : (s.nextTagStart d).1 = some t
  rest_eq : s.rest = before ++ (d.startText t ++ after)
  start_eq : t.start = s.position.offset + byteSize before

/-- A state reads a piece of an expression: it is inside a tag or an interpolation, and that does
not end here. -/
def Expects (lx : Lexicon) (s : State) : Prop :=
  match s.mode with
  | .print => s.scopes = [] → lx.printEnd? (s.rest.dropWhile isBlank) = none
  | .block => s.scopes = [] → lx.blockEnd? (s.rest.dropWhile isBlank) = none
  | .interpolation => s.scopes.head?.map Scope.opener = some lx.interpolation.opening →
      lx.interpolationClose? s.rest = none
  | .data | .string => False

theorem Expects.isExpression {lx : Lexicon} {s : State} (h : s.Expects lx) :
    s.mode.IsExpression := by
  unfold Expects at h
  constructor
  · intro hmode
    rw [hmode] at h
    exact h
  · intro hmode
    rw [hmode] at h
    exact h

/-- The text that a string is closed with: the closer of the innermost scope. -/
def quoteCloser (s : State) : Text := (s.scopes.head?.map Scope.closer).getD ['"']

end State

/-! ## What is done -/

/-- What a piece of an expression at a location does to the stacks. -/
inductive Lexeme.Acts (here : Location) (st : Stacks) : Lexeme → Stacks → Prop
  | plain {kind : Token.Kind} {value : Text} : Acts here st (.plain kind value) st
  | quoted {string : QuotedString} : Acts here st (.quoted string) st
  | opening {bracket closer : Text} :
      Acts here st (.opening bracket closer) (st.push ⟨bracket, closer, here⟩)
  | closing {bracket : Char} {scope : Scope} : st.scopes.head? = some scope →
      scope.closer = [bracket] → Acts here st (.closing bracket) st.pop
  | quote : Acts here st .quote ((st.push ⟨['"'], ['"'], here⟩).enter .string)

namespace Lexicon

/-- What a step can do: the pieces it reads and the stacks it leaves behind. -/
inductive Move (lx : Lexicon) (s : State) : List Piece → Stacks → Prop
  | text : s.mode = .data → (s.nextTagStart lx.toDialect).1 = none →
      Move lx s [⟨.text, s.rest⟩] s.toStacks
  | comment {before after : Text} {t : TagStart} {e : CommentEnd} :
      s.Finds lx.toDialect before t after → t.tag = .comment →
      lx.commentEnd? (after.dropWhile isBlank) = some e →
      Move lx s (unlessEmpty .text before ++ (t.pieces lx.toDialect ++
        (unlessEmpty .whitespace (blanks after) ++ e.pieces lx.toDialect))) s.toStacks
  | verbatim {before after rest body : Text} {t : TagStart} {opening closing : VerbatimTag} :
      s.Finds lx.toDialect before t after → t.tag = .block →
      lx.verbatimOpen? (lx.startText t ++ after) = some opening →
      lx.startText t ++ after = texts (opening.pieces lx.toDialect) ++ rest →
      lx.verbatimClose? rest = some (body, closing) →
      Move lx s (unlessEmpty .text before ++ (opening.pieces lx.toDialect ++
        (unlessEmpty .text body ++ closing.pieces lx.toDialect))) s.toStacks
  | openTag {before after : Text} {t : TagStart} :
      s.Finds lx.toDialect before t after → t.tag ≠ .comment →
      (t.tag = .block → lx.verbatimOpen? (lx.startText t ++ after) = none) →
      Move lx s (unlessEmpty .text before ++ t.pieces lx.toDialect) (s.toStacks.enter t.tag.mode)
  | closeTag {tag : Tag} {e : TagEnd} : s.mode = tag.mode → tag ≠ .comment → s.scopes = [] →
      lx.tagEnd? tag (s.rest.dropWhile isBlank) = some e →
      Move lx s (unlessEmpty .whitespace (blanks s.rest) ++ e.pieces lx.toDialect tag.endKind)
        s.toStacks.leave
  | blanks : s.Expects lx → s.rest.dropWhile isBlank = [] →
      Move lx s [⟨.whitespace, s.rest⟩] s.toStacks
  | lexeme {l : Lexeme} {st : Stacks} : s.Expects lx → lx.Starts (s.rest.dropWhile isBlank) l →
      l.Acts s.emitBlanks.position.toLocation s.toStacks st →
      Move lx s (unlessEmpty .whitespace (TemplateTokens.blanks s.rest) ++ l.pieces) st
  | openInterpolation {blank : Text} : s.mode = .string →
      lx.interpolationOpen? s.rest = some blank →
      Move lx s ([⟨.interpolationStart, lx.interpolation.opening⟩] ++ unlessEmpty .whitespace blank)
        ((s.toStacks.push ⟨lx.interpolation.opening, lx.interpolation.closing,
          s.position.toLocation⟩).enter .interpolation)
  | stringPiece {piece : Text} : s.mode = .string → lx.interpolationOpen? s.rest = none →
      TemplateTokens.stringPiece lx.interpolation.opening s.rest = piece → piece ≠ [] →
      Move lx s [⟨.string, piece⟩] s.toStacks
  | closeQuote {rest : Text} : s.mode = .string → lx.interpolationOpen? s.rest = none →
      s.rest = '"' :: rest → Move lx s [⟨.closingQuote, s.quoteCloser⟩] s.toStacks.pop.leave
  | closeInterpolation {scope : Scope} {blank : Text} : s.mode = .interpolation →
      s.scopes.head? = some scope → scope.opener = lx.interpolation.opening →
      lx.interpolationClose? s.rest = some blank →
      Move lx s (unlessEmpty .whitespace blank ++ [⟨.interpolationEnd, lx.interpolation.closing⟩])
        s.toStacks.pop.leave

/-- How a step can fail: the pieces it has read, the cause, and what it skips before it reports
that. -/
inductive Fails (lx : Lexicon) (s : State) : List Piece → SyntaxError.Cause → Text → Prop
  | unexpectedCharacter {c : Char} {t : Text} : s.Expects lx →
      s.rest.dropWhile isBlank = c :: t → lx.lexemeAt? c (c :: t) = none →
      Fails lx s (unlessEmpty .whitespace (blanks s.rest)) (.unexpectedCharacter (c :: t)) []
  | unexpectedClosingBracket {bracket : Char} : s.Expects lx →
      lx.Starts (s.rest.dropWhile isBlank) (.closing bracket) → s.scopes = [] →
      Fails lx s (unlessEmpty .whitespace (blanks s.rest)) (.unexpectedClosingBracket bracket) []
  | unclosedBracket {bracket : Char} {scope : Scope} : s.Expects lx →
      lx.Starts (s.rest.dropWhile isBlank) (.closing bracket) → s.scopes.head? = some scope →
      scope.closer ≠ [bracket] →
      Fails lx s (unlessEmpty .whitespace (blanks s.rest))
        (.unclosedBracket scope.opener scope.openedAt) []
  | unclosedComment {before after : Text} {t : TagStart} :
      s.Finds lx.toDialect before t after → t.tag = .comment →
      lx.commentEnd? (after.dropWhile isBlank) = none →
      Fails lx s (unlessEmpty .text before ++ (t.pieces lx.toDialect ++
          unlessEmpty .whitespace (blanks after)))
        (.unclosed .comment (stop s.position (unlessEmpty .text before)).toLocation)
        (after.dropWhile isBlank)
  | unclosedVerbatim {before after rest : Text} {t : TagStart} {opening : VerbatimTag} :
      s.Finds lx.toDialect before t after → t.tag = .block →
      lx.verbatimOpen? (lx.startText t ++ after) = some opening →
      lx.startText t ++ after = texts (opening.pieces lx.toDialect) ++ rest →
      lx.verbatimClose? rest = none →
      Fails lx s (unlessEmpty .text before ++ opening.pieces lx.toDialect)
        (.unclosed .verbatim (stop s.position (unlessEmpty .text before)).toLocation) rest

end Lexicon

/-! ## The pieces of a step -/

section Pieces

variable {lx : Lexicon} {s : State} {ps : List Piece}

theorem State.Finds.texts_isPrefix {d : Dialect} {before after : Text} {t : TagStart}
    (h : s.Finds d before t after) {qs : List Piece} (hq : texts qs <+: d.startText t ++ after) :
    texts (unlessEmpty .text before ++ qs) <+: s.rest := by
  rw [texts_append, texts_unlessEmpty, h.rest_eq, List.prefix_append_right_inj]
  exact hq

theorem texts_blanks_isPrefix {t : Text} {qs : List Piece} (hq : texts qs <+: t.dropWhile isBlank) :
    texts (unlessEmpty .whitespace (blanks t) ++ qs) <+: t := by
  rw [texts_append, texts_unlessEmpty]
  conv => rhs; rw [← blanks_append_dropWhile t]
  rw [List.prefix_append_right_inj]
  exact hq

theorem TagStart.texts_isPrefix {d : Dialect} {t : TagStart} {after : Text} {qs : List Piece}
    (hq : texts qs <+: after) : texts (t.pieces d ++ qs) <+: d.startText t ++ after := by
  rw [texts_append, TagStart.texts_pieces, List.prefix_append_right_inj]
  exact hq

/-- The pieces of a step are the beginning of the rest, unless the scope that a quote closes was
opened by something else. -/
theorem Lexicon.Move.texts_isPrefix {st : Stacks} (h : lx.Move s ps st)
    (hq : s.mode = .string → s.quoteCloser = ['"']) : texts ps <+: s.rest := by
  cases h with
  | text => simp
  | comment hfind _ hend =>
    have hblank := texts_blanks_isPrefix (Dialect.texts_commentEnd? hend)
    exact hfind.texts_isPrefix (TagStart.texts_isPrefix hblank)
  | verbatim hfind _ _ hsplit hclose =>
    refine hfind.texts_isPrefix ?_
    obtain ⟨inside, rfl, htag⟩ := search?_sound hclose
    rw [hsplit, texts_append, texts_append, texts_unlessEmpty, List.prefix_append_right_inj,
      List.prefix_append_right_inj]
    exact Dialect.texts_wordTag? htag
  | openTag hfind =>
    refine hfind.texts_isPrefix ?_
    rw [TagStart.texts_pieces]
    exact List.prefix_append _ _
  | closeTag _ _ _ hend => exact texts_blanks_isPrefix (Dialect.texts_tagEnd? hend)
  | blanks => simp
  | lexeme _ hstart => exact texts_blanks_isPrefix hstart.texts_isPrefix
  | openInterpolation _ hopen => simpa using Dialect.interpolationOpen?_eq_some hopen
  | stringPiece _ _ hpiece =>
    subst hpiece
    simpa using stringPiece_prefix _ _
  | closeQuote hmode _ hrest => simp [hq hmode, hrest]
  | closeInterpolation _ _ _ hclose => simpa using Dialect.interpolationClose?_eq_some hclose

/-- So are the pieces that a step has read when it fails. -/
theorem Lexicon.Fails.texts_isPrefix {cause : SyntaxError.Cause} {skipped : Text}
    (h : lx.Fails s ps cause skipped) : texts ps ++ skipped <+: s.rest := by
  have hblanks : texts (unlessEmpty .whitespace (blanks s.rest)) ++ [] <+: s.rest := by
    rw [texts_unlessEmpty, List.append_nil]
    exact List.takeWhile_prefix _
  cases h with
  | unexpectedCharacter => exact hblanks
  | unexpectedClosingBracket => exact hblanks
  | unclosedBracket => exact hblanks
  | unclosedComment hfind =>
    simp only [texts_append, texts_unlessEmpty, TagStart.texts_pieces, List.append_assoc,
      blanks_append_dropWhile, hfind.rest_eq, List.prefix_rfl]
  | unclosedVerbatim hfind _ _ hsplit =>
    simp only [texts_append, texts_unlessEmpty, List.append_assoc, ← hsplit, hfind.rest_eq,
      List.prefix_rfl]

/-! ### In a usable dialect whose operators can be seen -/

theorem TagStart.proper {d : Dialect} (hd : d.defect? = none) (t : TagStart) :
    Proper (t.pieces d) := by
  have hkind : t.tag.startKind ≠ .eof := by cases t.tag <;> nofun
  simp [TagStart.pieces, proper_ofTrim, Dialect.opening_ne_nil hd, hkind]

theorem Dialect.proper_tagEnd? {d : Dialect} (hd : d.defect? = none) {tag : Tag} {t : Text}
    {e : TagEnd} (h : d.tagEnd? tag t = some e) : Proper (e.pieces d tag.endKind) := by
  cases tag with
  | comment => cases h
  | print =>
    refine TagEnd.proper (by decide) ?_
    rw [(printEnd?_sound h).2]
    exact print_closing_ne_nil hd
  | block =>
    refine TagEnd.proper (by decide) ?_
    exact (blockEnd?_sound h).2.ne_nil (block_closing_ne_nil hd)

/-- No piece of a step is empty, and none is the end of the template. -/
theorem Lexicon.Move.proper {st : Stacks} (hd : lx.defect? = none) (hv : lx.Visible)
    (hq : s.mode = .string → s.quoteCloser ≠ []) (hne : s.rest ≠ []) (h : lx.Move s ps st) :
    Proper ps := by
  have htext (before : Text) : Proper (unlessEmpty .text before) :=
    proper_unlessEmpty (by decide) before
  have hblank (blank : Text) : Proper (unlessEmpty .whitespace blank) :=
    proper_unlessEmpty (by decide) blank
  cases h with
  | text => simp [proper_nil, hne]
  | comment _ _ hend => simp [htext, hblank, TagStart.proper hd, CommentEnd.proper hd hend]
  | verbatim _ _ hopen _ hclose =>
    obtain ⟨inside, -, htag⟩ := search?_sound hclose
    have hword := (Dialect.wordTag?_sound hopen).2
    have hword' := (Dialect.wordTag?_sound htag).2
    have hproper := VerbatimTag.proper hd (by rw [hword]; decide)
    have hproper' := VerbatimTag.proper hd (by rw [hword']; decide)
    simp [htext, hproper, hproper']
  | openTag => simp [htext, TagStart.proper hd]
  | closeTag _ _ _ hend => simp [hblank, Dialect.proper_tagEnd? hd hend]
  | blanks => simp [proper_nil, hne]
  | lexeme _ hstart => simp [hblank, hstart.proper hv]
  | openInterpolation _ hopen => simp [hblank, Dialect.interpolation_opening_ne_nil hd]
  | stringPiece _ _ _ hpiece => simp [proper_nil, hpiece]
  | closeQuote hmode => simp [proper_nil, hq hmode]
  | closeInterpolation => simp [hblank, proper_nil, Dialect.interpolation_closing_ne_nil hd]

theorem State.Finds.start_lt {d : Dialect} {before after : Text} {t u : TagStart}
    (h : s.Finds d before t after) (hnext : (s.nextTagStart d).1 = some u) {qs : List Piece}
    (hq : texts qs ≠ []) :
    u.start < s.position.offset + byteSize (texts (unlessEmpty .text before ++ qs)) := by
  obtain rfl : t = u := Option.some.inj (h.next_eq.symm.trans hnext)
  have hstart := h.start_eq
  have hpos : byteSize (texts qs) ≠ 0 := fun h => hq (byteSize_eq_zero.1 h)
  rw [texts_append, texts_unlessEmpty, byteSize_append]
  omega

/-- A step between tags goes past the beginning of the tag start it finds. -/
theorem Lexicon.Move.start_lt {st : Stacks} (hd : lx.defect? = none) (h : lx.Move s ps st)
    (hmode : s.mode = .data) {t : TagStart} (hnext : (s.nextTagStart lx.toDialect).1 = some t) :
    t.start < s.position.offset + byteSize (texts ps) := by
  have hstart (u : TagStart) : texts (u.pieces lx.toDialect) ≠ [] := by
    rw [TagStart.texts_pieces]
    exact Dialect.startText_ne_nil hd u
  cases h with
  | text _ hnone =>
    rw [hnone] at hnext
    cases hnext
  | comment hfind =>
    refine hfind.start_lt hnext ?_
    rw [texts_append]
    exact List.append_ne_nil_of_left_ne_nil (hstart _) _
  | verbatim hfind =>
    refine hfind.start_lt hnext ?_
    simp [VerbatimTag.pieces, show lx.block.opening ≠ [] from Dialect.opening_ne_nil hd .block]
  | openTag hfind => exact hfind.start_lt hnext (hstart _)
  | closeTag hmode' htag => exact absurd (hmode'.symm.trans hmode) (Tag.mode_isExpression htag).1
  | blanks hexp => exact absurd hmode hexp.isExpression.1
  | lexeme hexp => exact absurd hmode hexp.isExpression.1
  | openInterpolation hmode' => cases hmode.symm.trans hmode'
  | stringPiece hmode' => cases hmode.symm.trans hmode'
  | closeQuote hmode' => cases hmode.symm.trans hmode'
  | closeInterpolation hmode' => cases hmode.symm.trans hmode'

theorem Lexicon.Move.ne_nil {st : Stacks} (h : lx.Move s ps st) : ps ≠ [] := by
  cases h with
  | text => simp
  | comment => simp [TagStart.pieces]
  | verbatim => simp [VerbatimTag.pieces]
  | openTag => simp [TagStart.pieces]
  | closeTag => simp [TagEnd.pieces]
  | blanks => simp
  | @lexeme l _ _ _ _ => cases l <;> simp [Lexeme.pieces]
  | openInterpolation => simp
  | stringPiece => simp
  | closeQuote => simp
  | closeInterpolation => simp

end Pieces

end TemplateTokens
