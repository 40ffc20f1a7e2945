import TemplateTokens.Proofs.Lexeme.Cut
import TemplateTokens.Proofs.Lexer.Run

/-!
# Where the steps of a run cut

No step of a run ends a piece inside a line break, whether it goes on or fails. So the location of a
state is the one that a single scan of the template up to there comes to.

Results:

* `Lexicon.Move.cleanCuts`, `Lexicon.Fails.cleanCuts`: the pieces of a step cut no line break.
* `Lexicon.Path.location_eq`: the location of a state on a path.
-/

namespace TemplateTokens

open Piece

/-! ## Dialects that cut clean -/

/-- A usable dialect whose operators can be seen and have no white space in their words, and whose
delimiters and trim markers have no line break in them. -/
structure Lexicon.Clean (lx : Lexicon) : Prop where
  usable : lx.defect? = none
  visible : lx.Visible
  solid : lx.Solid
  unbroken : lx.Unbroken

theorem Lexer.clean {l : Lexer} (hv : l.dialect.Visible) (hu : l.dialect.Unbroken) :
    (Lexicon.ofDialect l.dialect).Clean :=
  ⟨l.usable, hv.lexicon, Lexicon.solid_ofDialect _, hu⟩

/-! ## Steps -/

section

variable {lx : Lexicon} {s : State} {ps : List Piece} {st : Stacks} {rest : Text}

/-- The blanks that a text begins with are cut off where something else begins. -/
theorem Piece.cleanCuts_blanks {t : Text} (h : t = blanks t ++ rest) :
    CleanCuts (unlessEmpty .whitespace (blanks t)) rest := by
  refine cleanCuts_unlessEmpty ?_
  rw [← dropWhile_of_eq_blanks_append h]
  exact cleanCut_blanks _ _

theorem TagStart.cleanCuts (hc : lx.Clean) (t : TagStart) :
    CleanCuts (t.pieces lx.toDialect) rest := by
  rw [TagStart.pieces, cleanCuts_append]
  exact ⟨⟨(hc.unbroken.opening t.tag).cleanCut _, trivial⟩, cleanCuts_ofTrim hc.unbroken _ _⟩

/-- The text before a tag ends in front of the tag. -/
theorem Piece.cleanCuts_before (hc : lx.Clean) (before : Text) (t : TagStart) :
    CleanCuts (unlessEmpty .text before) (lx.startText t ++ rest) :=
  cleanCuts_unlessEmpty ((hc.unbroken.startText t).cleanCut_left
    (Dialect.startText_ne_nil hc.usable t) _ _)

theorem VerbatimTag.cleanCuts_wordTag? (hc : lx.Clean) {word t : Text} {tag : VerbatimTag}
    (hne : word ≠ []) (hword : Unbroken word) (h : lx.wordTag? word t = some tag) :
    CleanCuts (tag.pieces lx.toDialect) rest := by
  obtain rfl := (Dialect.wordTag?_sound h).2
  exact VerbatimTag.cleanCuts hc.usable hc.unbroken hne hword

/-- The body of a verbatim block ends in front of the tag that closes it. -/
theorem VerbatimTag.cleanCut_body (hc : lx.Clean) (body : Text) (tag : VerbatimTag) :
    CleanCut body (texts (tag.pieces lx.toDialect) ++ rest) := by
  rw [VerbatimTag.pieces, texts_append, texts_cons, texts_nil, List.append_nil, List.append_assoc]
  exact (hc.unbroken.opening .block).cleanCut_left (Dialect.opening_ne_nil hc.usable .block) _ _

theorem Dialect.cleanCuts_tagEnd? (hc : lx.Clean) {tag : Tag} {t : Text} {e : TagEnd}
    (h : lx.tagEnd? tag t = some e) (ht : t = texts (e.pieces lx.toDialect tag.endKind) ++ rest) :
    CleanCuts (e.pieces lx.toDialect tag.endKind) rest := by
  refine TagEnd.cleanCuts hc.unbroken ?_
  cases tag with
  | comment => cases h
  | print =>
    rw [(Dialect.printEnd?_sound h).2]
    exact hc.unbroken.print_closing.cleanCut _
  | block => exact Dialect.cleanCut_of_blockEnd? hc.unbroken h (by simpa [TagEnd.pieces] using ht)

/-- A piece of a string ends with the text, in front of a quote or in front of an interpolation. -/
theorem cleanCut_stringPiece (hc : lx.Clean) {t : Text}
    (h : t = stringPiece lx.interpolation.opening t ++ rest) :
    CleanCut (stringPiece lx.interpolation.opening t) rest := by
  obtain rfl | ⟨u, rfl⟩ | ⟨u, rfl⟩ := stringPiece_stops h
  · exact cleanCut_nil_right _
  · exact cleanCut_of_head? nofun
  · exact hc.unbroken.interpolation_opening.cleanCut_left
      (Dialect.interpolation_opening_ne_nil hc.usable) _ _

/-- The pieces of a step cut no line break. -/
theorem Lexicon.Move.cleanCuts (hc : lx.Clean) (hq : s.mode = .string → s.quoteCloser = ['"'])
    (h : lx.Move s ps st) (e : s.rest = texts ps ++ rest) : CleanCuts ps rest := by
  have hu := hc.unbroken
  cases h with
  | text =>
    have hrest : rest = [] := by simpa using e
    rw [hrest]
    exact ⟨cleanCut_nil_right _, trivial⟩
  | @comment before after t end_ hfind _ hend =>
    rw [hfind.rest_eq] at e
    simp only [texts_append, texts_unlessEmpty, TagStart.texts_pieces, List.append_assoc,
      List.append_cancel_left_eq] at e
    simp only [cleanCuts_append, texts_append, texts_unlessEmpty, TagStart.texts_pieces,
      List.append_assoc]
    exact ⟨cleanCuts_before hc before t, t.cleanCuts hc, cleanCuts_blanks e,
      CommentEnd.cleanCuts hc.usable hu hend (dropWhile_of_eq_blanks_append e)⟩
  | @verbatim before after inside body t opening closing hfind _ hopen hsplit hclose =>
    obtain ⟨last, -, htag⟩ := search?_sound hclose
    have hbefore : CleanCuts (unlessEmpty .text before) (lx.startText t ++ after) :=
      cleanCuts_before hc before t
    simp only [hsplit] at hbefore
    rw [hfind.rest_eq, hsplit] at e
    simp only [texts_append, texts_unlessEmpty, List.append_assoc, List.append_cancel_left_eq] at e
    rw [e] at hbefore
    simp only [cleanCuts_append, texts_append, texts_unlessEmpty, List.append_assoc]
    exact ⟨hbefore, VerbatimTag.cleanCuts_wordTag? hc (by decide) (by decide) hopen,
      cleanCuts_unlessEmpty (VerbatimTag.cleanCut_body hc body closing),
      VerbatimTag.cleanCuts_wordTag? hc (by decide) (by decide) htag⟩
  | @openTag before after t hfind =>
    rw [cleanCuts_append, TagStart.texts_pieces]
    exact ⟨cleanCuts_before hc before t, t.cleanCuts hc⟩
  | closeTag _ _ _ hend =>
    rw [texts_append, texts_unlessEmpty, List.append_assoc] at e
    rw [cleanCuts_append]
    exact ⟨cleanCuts_blanks e, Dialect.cleanCuts_tagEnd? hc hend (dropWhile_of_eq_blanks_append e)⟩
  | blanks =>
    have hrest : rest = [] := by simpa using e
    rw [hrest]
    exact ⟨cleanCut_nil_right _, trivial⟩
  | lexeme _ hstart =>
    rw [texts_append, texts_unlessEmpty, List.append_assoc] at e
    rw [cleanCuts_append]
    exact ⟨cleanCuts_blanks e, hstart.cleanCuts hc.visible hc.solid _⟩
  | openInterpolation _ hopen =>
    obtain ⟨behind, hbehind, rfl⟩ := Option.map_eq_some_iff.1 hopen
    rw [← isPrefixOf?_eq_some_iff.1 hbehind] at e
    simp only [texts_append, texts_cons, texts_nil, texts_unlessEmpty, List.append_nil,
      List.append_assoc, List.append_cancel_left_eq] at e
    rw [cleanCuts_append]
    exact ⟨⟨hu.interpolation_opening.cleanCut _, trivial⟩, cleanCuts_blanks e⟩
  | stringPiece _ _ hpiece =>
    subst hpiece
    exact ⟨cleanCut_stringPiece hc (by simpa using e), trivial⟩
  | closeQuote hmode =>
    rw [hq hmode]
    exact ⟨Unbroken.cleanCut (by decide) _, trivial⟩
  | closeInterpolation =>
    rw [cleanCuts_append, texts_cons, List.append_assoc]
    exact ⟨cleanCuts_unlessEmpty (hu.interpolation_closing.cleanCut_left
      (Dialect.interpolation_closing_ne_nil hc.usable) _ _), hu.interpolation_closing.cleanCut _,
      trivial⟩

/-- Nor do the pieces that a step has read when it fails. -/
theorem Lexicon.Fails.cleanCuts (hc : lx.Clean) {cause : SyntaxError.Cause} {skipped : Text}
    (h : lx.Fails s ps cause skipped) (e : s.rest = texts ps ++ rest) : CleanCuts ps rest := by
  cases h with
  | unexpectedCharacter => exact cleanCuts_blanks (by rwa [texts_unlessEmpty] at e)
  | unexpectedClosingBracket => exact cleanCuts_blanks (by rwa [texts_unlessEmpty] at e)
  | unclosedBracket => exact cleanCuts_blanks (by rwa [texts_unlessEmpty] at e)
  | @unclosedComment before after t hfind =>
    rw [hfind.rest_eq] at e
    simp only [texts_append, texts_unlessEmpty, TagStart.texts_pieces, List.append_assoc,
      List.append_cancel_left_eq] at e
    simp only [cleanCuts_append, texts_append, texts_unlessEmpty, TagStart.texts_pieces,
      List.append_assoc]
    exact ⟨cleanCuts_before hc before t, t.cleanCuts hc, cleanCuts_blanks e⟩
  | @unclosedVerbatim before after inside t opening hfind _ hopen hsplit =>
    have hbefore : CleanCuts (unlessEmpty .text before) (lx.startText t ++ after) :=
      cleanCuts_before hc before t
    rw [hfind.rest_eq] at e
    simp only [texts_append, texts_unlessEmpty, List.append_assoc, List.append_cancel_left_eq] at e
    rw [e] at hbefore
    rw [cleanCuts_append]
    exact ⟨hbefore, VerbatimTag.cleanCuts_wordTag? hc (by decide) (by decide) hopen⟩

/-! ## Paths -/

variable {source : Text} {ls : List Layer}

theorem Lexicon.Path.cleanCuts (hc : lx.Clean) (h : lx.Path source s ps ls) :
    CleanCuts ps s.rest := by
  induction h with
  | start => exact trivial
  | step hpath _ _ hmoves hread _ _ ih =>
    rw [cleanCuts_append, ← hread.rest_eq]
    exact ⟨ih, hmoves.move.cleanCuts hc hpath.quoteCloser_eq hread.rest_eq⟩

/-- The location of a state is the one behind the text read so far. -/
theorem Lexicon.Path.location_eq (hc : lx.Clean) (h : lx.Path source s ps ls) :
    s.position.toLocation = Location.start.walk (texts ps) := by
  rw [h.reads.position_eq, toLocation_stop (h.cleanCuts hc)]
  rfl

end

end TemplateTokens
