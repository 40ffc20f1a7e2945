import TemplateTokens.Proofs.Grammar
import TemplateTokens.Proofs.Lexeme.Spelling

/-!
# Pieces that fit their kinds

Each kind of token has its own language, which the dialect of the template has a part in, and what
stands around a token has one too: where a name, a number or an operator may end, which quote a
string stands behind, and that the end of a tag leaves no line break. Whatever a step reads fits.

Results:

* `Dialect.Fitting.append`: rows that fit can be put one behind the other.
* `Lexicon.Move.fitting`: the pieces of a step fit their kinds.
* `Lexicon.Path.fitting`: so do all the pieces of a path.
* `Lexer.fitting_of_tokenize`: so do the tokens of a template.
-/

namespace TemplateTokens

open Piece Grammar

/-! ## The languages -/

/-- The characters that punctuation is made of. -/
def punctuation : List Char := ['(', ')', '[', ']', '{', '}', '?', ':', '.', ',', '|']

/-- A piece is one of the tag that begins a verbatim block, or of the tag that ends the block. -/
inductive InVerbatimTag : List Piece → Piece → List Piece → Prop
  | opening (outer behind : List Piece) {row row' : List Piece} {p : Piece} :
      WordTag "verbatim".toList (row ++ p :: row') →
      InVerbatimTag (outer ++ row) p (row' ++ behind)
  | closing (outer behind : List Piece) {first text row row' : List Piece} {p : Piece} :
      WordTag "verbatim".toList first → Maybe .text text →
      WordTag "endverbatim".toList (row ++ p :: row') →
      InVerbatimTag (outer ++ (first ++ (text ++ row))) p (row' ++ behind)

/-- Pieces end inside of a string that the quote has opened. -/
def OpenedBy (quote : Char) (before : List Piece) : Prop :=
  ∃ outer parts, Star Part parts ∧ before = outer ++ ([⟨.openingQuote, [quote]⟩] ++ parts)

/-- The language of the kind of a piece, with the pieces before it and the text that follows. Only
in the tags of verbatim blocks may a name go on, and the end of a tag leave a line break. -/
def Dialect.Admits (d : Dialect) (verbatim : Prop) (before : List Piece) (p : Piece)
    (following : Text) : Prop :=
  match p.kind with
  | .eof => p.value = []
  | .text => p.value ≠ []
  | .blockStart => p.value = d.block.opening
  | .blockEnd => verbatim ∧ p.value = d.block.closing ∨
      IsClosingLine d.block.closing p.value following
  | .printStart => p.value = d.print.opening
  | .printEnd => p.value = d.print.closing
  | .commentStart => p.value = d.comment.opening
  | .commentEnd => IsClosingLine d.comment.closing p.value following
  | .name => isName p.value = true ∧ (verbatim ∨ ∀ c ∈ following.head?, isNameRest c = false)
  | .number => IsNumber p.value ∧ (∀ c ∈ following.head?, c.isDigit = false) ∧
      ('.' ∉ p.value → ∀ c u, following = '.' :: c :: u → c.isDigit = false)
  | .string => p.value ≠ [] ∧ ∃ quote, OpenedBy quote before ∧ hasUnescaped quote p.value = false
  | .operator => d.IsOperator p.value following
  | .punctuation => ∃ c ∈ punctuation, p.value = [c]
  | .openingQuote => p.value = ['"'] ∨ p.value = ['\'']
  | .closingQuote => p.value = ['"'] ∨ p.value = ['\'']
  | .interpolationStart => p.value = d.interpolation.opening
  | .interpolationEnd => p.value = d.interpolation.closing
  | .whitespace => p.value ≠ [] ∧ p.value.all isBlank = true
  | .trimming => p.value = [d.trim]
  | .lineTrimming => p.value = [d.lineTrim]

/-- Every piece of a row, which stands behind other pieces and in front of a text, fits its kind. -/
def Dialect.Fitting (d : Dialect) (context ps : List Piece) (rest : Text) : Prop :=
  ∀ before p after, ps = before ++ p :: after →
    d.Admits (InVerbatimTag (context ++ before) p after) (context ++ before) p
      (texts after ++ rest)

/-! ## Rows that fit -/

theorem InVerbatimTag.append_right {before after : List Piece} {p : Piece}
    (h : InVerbatimTag before p after) (more : List Piece) :
    InVerbatimTag before p (after ++ more) := by
  cases h with
  | opening outer behind hrow =>
    rw [List.append_assoc]
    exact .opening outer (behind ++ more) hrow
  | closing outer behind hfirst htext hrow =>
    rw [List.append_assoc]
    exact .closing outer (behind ++ more) hfirst htext hrow

theorem Dialect.Admits.mono {d : Dialect} {v v' : Prop} {before : List Piece} {p : Piece}
    {following : Text} (h : d.Admits v before p following) (hv : v → v') :
    d.Admits v' before p following := by
  obtain ⟨kind, value⟩ := p
  cases kind
  case blockEnd => exact h.imp (And.imp_left hv) id
  case name => exact ⟨h.1, h.2.imp_left hv⟩
  all_goals exact h

theorem Piece.of_mem_unlessEmpty {kind : Token.Kind} {value : Text} {p : Piece}
    (h : p ∈ unlessEmpty kind value) : value ≠ [] ∧ p = ⟨kind, value⟩ := by
  rw [unlessEmpty] at h
  split at h
  · cases h
  · rename_i hne
    exact ⟨hne, List.mem_singleton.1 h⟩

theorem Dialect.Admits.of_mem_ofTrim {d : Dialect} {v : Prop} {before : List Piece} {p : Piece}
    {following : Text} {m : Option Trim} (h : p ∈ ofTrim d m) : d.Admits v before p following := by
  rcases m with _ | _ | _
  · cases h
  · obtain rfl := List.mem_singleton.1 h
    rfl
  · obtain rfl := List.mem_singleton.1 h
    rfl

/-- A piece of a tag that holds one word, in a verbatim block. -/
theorem Dialect.Admits.of_mem_wordTag {d : Dialect} {v : Prop} {before : List Piece} {p : Piece}
    {following word t : Text} (hword : isName word = true) {tag : VerbatimTag}
    (htag : d.wordTag? word t = some tag) (h : p ∈ tag.pieces d) (hv : v) :
    d.Admits v before p following := by
  obtain ⟨hleading, htrailing⟩ := Dialect.wordTag?_blank htag
  have hname : tag.word = word := (Dialect.wordTag?_sound htag).2
  simp only [VerbatimTag.pieces, List.mem_append, List.mem_singleton] at h
  obtain rfl | h | h | rfl | h | h | rfl := h
  · rfl
  · exact of_mem_ofTrim h
  · obtain ⟨hne, rfl⟩ := of_mem_unlessEmpty h
    exact ⟨hne, hleading⟩
  · exact ⟨hname ▸ hword, Or.inl hv⟩
  · obtain ⟨hne, rfl⟩ := of_mem_unlessEmpty h
    exact ⟨hne, htrailing⟩
  · exact of_mem_ofTrim h
  · exact Or.inl ⟨hv, rfl⟩

namespace Dialect.Fitting

variable {d : Dialect} {context ps qs : List Piece} {rest : Text}

theorem nil : d.Fitting context [] rest := by
  intro before p after h
  cases before <;> cases h

theorem one {p : Piece} (h : d.Admits False context p rest) : d.Fitting context [p] rest := by
  rintro (_ | ⟨q, before⟩) p' after hsplit
  · obtain ⟨rfl, rfl⟩ := List.cons.inj hsplit
    rw [List.append_nil]
    exact h.mono False.elim
  · obtain ⟨-, hnil⟩ := List.cons.inj hsplit
    cases before <;> cases hnil

theorem append (hp : d.Fitting context ps (texts qs ++ rest))
    (hq : d.Fitting (context ++ ps) qs rest) : d.Fitting context (ps ++ qs) rest := by
  intro before p after hsplit
  obtain ⟨x, hbefore, hqs⟩ | ⟨x, hps, hafter⟩ := List.append_eq_append_iff.1 hsplit
  · rw [hbefore, ← List.append_assoc]
    exact hq x p after hqs
  · cases x with
    | nil =>
      rw [List.append_nil] at hps
      subst hps
      simpa using hq [] p after hafter.symm
    | cons p' x =>
      rw [List.cons_append] at hafter
      obtain ⟨rfl, rfl⟩ := List.cons.inj hafter
      rw [texts_append, List.append_assoc]
      exact (hp before p x hps).mono (·.append_right qs)

/-- A piece that may be missing. -/
theorem unlessEmpty {kind : Token.Kind} {value : Text}
    (h : value ≠ [] → d.Admits False context ⟨kind, value⟩ rest) :
    d.Fitting context (unlessEmpty kind value) rest := by
  rw [Piece.unlessEmpty]
  split
  · exact nil
  · rename_i hne
    exact one (h hne)

theorem text (value : Text) : d.Fitting context (Piece.unlessEmpty .text value) rest :=
  unlessEmpty fun hne => hne

theorem whitespace {value : Text} (h : value.all isBlank = true) :
    d.Fitting context (Piece.unlessEmpty .whitespace value) rest := unlessEmpty fun hne => ⟨hne, h⟩

theorem ofTrim (m : Option Trim) : d.Fitting context (Piece.ofTrim d m) rest := by
  rcases m with _ | _ | _
  · exact nil
  · exact one rfl
  · exact one rfl

theorem startPieces (t : TagStart) : d.Fitting context (t.pieces d) rest := by
  refine append (one ?_) (ofTrim t.modifier)
  obtain ⟨_ | _ | _, _, _⟩ := t <;> rfl

/-- A tag of a verbatim block, with its word between blanks. -/
theorem wordTag {word t : Text} (hword : isName word = true) {tag : VerbatimTag}
    (htag : d.wordTag? word t = some tag)
    (hin : ∀ before p after, tag.pieces d = before ++ p :: after →
      InVerbatimTag (context ++ before) p after) : d.Fitting context (tag.pieces d) rest := by
  intro before p after hsplit
  have hmem : p ∈ tag.pieces d := by
    rw [hsplit]
    exact List.mem_append_right _ List.mem_cons_self
  exact Admits.of_mem_wordTag hword htag hmem (hin before p after hsplit)

/-- A verbatim block with its body. -/
theorem verbatim {t u body : Text} {opening closing : VerbatimTag}
    (hopen : d.wordTag? "verbatim".toList t = some opening)
    (hclose : d.wordTag? "endverbatim".toList u = some closing) :
    d.Fitting context (opening.pieces d ++ (Piece.unlessEmpty .text body ++ closing.pieces d))
      rest := by
  have hfirst : WordTag "verbatim".toList (opening.pieces d) :=
    (Dialect.wordTag?_sound hopen).2 ▸ wordTag_pieces d opening
  have hlast : WordTag "endverbatim".toList (closing.pieces d) :=
    (Dialect.wordTag?_sound hclose).2 ▸ wordTag_pieces d closing
  refine append (wordTag (by decide) hopen ?_)
    (append (text body) (wordTag (by decide) hclose ?_))
  · intro before p after hsplit
    rw [hsplit] at hfirst
    simpa using InVerbatimTag.opening context [] hfirst
  · intro before p after hsplit
    rw [hsplit] at hlast
    simpa using InVerbatimTag.closing context [] hfirst (maybe_unlessEmpty .text body) hlast

end Dialect.Fitting

/-! ## Pieces of an expression -/

theorem mem_punctuation_of_closerOf? {c : Char} {closer : Text} (h : closerOf? [c] = some closer) :
    c ∈ punctuation := by
  have hmem := mem_brackets h
  simp only [brackets, List.mem_cons, List.not_mem_nil, Prod.mk.injEq, List.cons.injEq, and_true,
    or_false] at hmem
  obtain ⟨rfl, -⟩ | ⟨rfl, -⟩ | ⟨rfl, -⟩ := hmem <;> decide

theorem mem_punctuation_of_isClosingBracket {c : Char} (h : isClosingBracket [c] = true) :
    c ∈ punctuation := by
  simp only [isClosingBracket, brackets, List.any_cons, List.any_nil, Bool.or_eq_true, beq_iff_eq,
    List.cons.injEq, and_true, Bool.false_eq_true, or_false] at h
  obtain rfl | rfl | rfl := h <;> decide

theorem mem_punctuation_of_isSeparator {c : Char} (h : isSeparator c = true) :
    c ∈ punctuation := by
  have hmem := mem_separators h
  simp only [List.mem_cons, List.not_mem_nil, or_false] at hmem
  obtain rfl | rfl | rfl | rfl | rfl := hmem <;> decide

/-! ## Steps -/

section

variable {lx : Lexicon} (hr : lx.ranked = vocabulary lx.operators) (hv : lx.Visible)
  {context : List Piece} {rest : Text}

include hr hv

/-- The pieces of an expression fit. -/
theorem Lexicon.Starts.fitting {t : Text} {l : Lexeme} (h : lx.Starts t l)
    (e : t = texts l.pieces ++ rest) : lx.Fitting context l.pieces rest := by
  cases h with
  | operator h => exact .one (operatorAt?_spec hr hv h (by simpa [Lexeme.pieces] using e))
  | name _ h =>
    obtain ⟨hname, hrest⟩ := name?_spec h (by simpa [Lexeme.pieces] using e)
    exact .one ⟨hname, Or.inr hrest⟩
  | number _ _ h => exact .one (number?_spec h (by simpa [Lexeme.pieces] using e))
  | @opening c _ _ h => exact .one ⟨c, mem_punctuation_of_closerOf? h, rfl⟩
  | @closing c _ h => exact .one ⟨c, mem_punctuation_of_isClosingBracket h, rfl⟩
  | @separator c _ h => exact .one ⟨c, mem_punctuation_of_isSeparator h, rfl⟩
  | @quoted _ string h =>
    have hquote : [string.quote] = ['"'] ∨ [string.quote] = ['\''] := by
      obtain hq | hq := (Dialect.quotedString?_sound h).1 <;> simp [hq]
    refine .append (.one hquote) (.append (.unlessEmpty fun hne => ⟨hne, string.quote, ?_, ?_⟩)
      (.one hquote))
    · exact ⟨context, [], .nil, rfl⟩
    · exact Dialect.not_hasUnescaped_of_quotedString? h
  | quote => exact .one (Or.inl rfl)

variable {s : State} {qs : List Piece} {st : Stacks}

/-- The pieces of a step fit their kinds. -/
theorem Lexicon.Move.fitting (h : lx.Move s qs st) (hne : s.rest ≠ [])
    (hq : s.mode = .string → s.quoteCloser = ['"'] ∧ OpenedBy '"' context)
    (e : s.rest = texts qs ++ rest) : lx.Fitting context qs rest := by
  have hblanks (t : Text) : (TemplateTokens.blanks t).all isBlank = true := List.all_takeWhile
  cases h with
  | text => exact .one hne
  | @comment before after t _ hfind _ hend =>
    rw [hfind.rest_eq] at e
    simp only [texts_append, texts_unlessEmpty, TagStart.texts_pieces, List.append_assoc,
      List.append_cancel_left_eq] at e
    obtain ⟨hblank, hline⟩ :=
      Dialect.commentEnd?_spec hend (dropWhile_of_eq_blanks_append e)
    exact .append (.text before) (.append (.startPieces t) (.append (.whitespace (hblanks after))
      (.append (.text _) (.append (.whitespace hblank) (.append (.ofTrim _) (.one hline))))))
  | verbatim _ _ hopen _ hclose =>
    obtain ⟨inside, -, htag⟩ := search?_sound hclose
    exact .append (.text _) (.verbatim hopen htag)
  | @openTag before _ t => exact .append (.text before) (.startPieces t)
  | @closeTag tag end_ _ htag _ hend =>
    rw [texts_append, texts_unlessEmpty, List.append_assoc] at e
    have hrest := dropWhile_of_eq_blanks_append e
    refine .append (.whitespace (hblanks _)) (.append (.ofTrim _) (.one ?_))
    cases tag with
    | comment => exact absurd rfl htag
    | print => exact (Dialect.printEnd?_sound hend).2
    | block =>
      exact Or.inr (Dialect.blockEnd?_spec hend (by simpa [TagEnd.pieces] using hrest))
  | blanks _ hnil =>
    have hall := blanks_append_dropWhile s.rest
    rw [hnil, List.append_nil] at hall
    exact .one ⟨hne, hall ▸ hblanks s.rest⟩
  | lexeme _ hstart =>
    rw [texts_append, texts_unlessEmpty, List.append_assoc] at e
    exact .append (.whitespace (hblanks _))
      (hstart.fitting hr hv (dropWhile_of_eq_blanks_append e))
  | openInterpolation _ hopen =>
    obtain ⟨behind, -, rfl⟩ := Option.map_eq_some_iff.1 hopen
    exact .append (.one rfl) (.whitespace (hblanks behind))
  | stringPiece hmode _ hpiece hpieces =>
    refine .one ⟨hpieces, '"', (hq hmode).2, ?_⟩
    subst hpiece
    exact not_hasUnescaped_stringPiece _ _
  | closeQuote hmode => exact .one (Or.inl (hq hmode).1)
  | closeInterpolation _ _ _ hclose =>
    exact .append (.whitespace (Dialect.interpolationClose?_blank hclose)) (.one rfl)

/-! ## Paths -/

variable {source : Text} {ps : List Piece} {ls : List Layer}

omit hr hv in
/-- Inside of a string, a double quote has opened it. -/
theorem Lexicon.Path.openedBy (h : lx.Path source s ps ls) (hne : s.rest ≠ [])
    (hmode : s.mode = .string) : OpenedBy '"' ps := by
  rw [h.mode_eq] at hmode
  obtain rfl | ⟨openedAt, ls', rfl⟩ := h.layered.exists_quote hmode
  · cases hmode
  · obtain hpending | ⟨hnil, -⟩ := h.pending
    · cases hpending with
      | @quote _ _ outer parts _ hparts => exact ⟨outer, parts, hparts, rfl⟩
    · exact absurd hnil hne

/-- All the pieces of a path fit their kinds. -/
theorem Lexicon.Path.fitting (h : lx.Path source s ps ls) : lx.Fitting [] ps s.rest := by
  induction h with
  | start => exact .nil
  | step hpath hne _ hmoves hread _ _ ih =>
    refine .append (hread.rest_eq ▸ ih) (hmoves.move.fitting hr hv hne ?_ hread.rest_eq)
    exact fun hmode => ⟨hpath.quoteCloser_eq hmode, hpath.openedBy hne hmode⟩

end

/-- The tokens of a template, the end included, fit their kinds and make up the template. -/
theorem Lexer.fitting_of_tokenize {l : Lexer} (hv : l.dialect.Visible) {source : Text}
    {stream : TokenStream} (h : l.tokenize source = .ok stream) :
    texts (stream.tokens.toList.map Token.piece) = source ∧
      l.dialect.Fitting [] (stream.tokens.toList.map Token.piece) [] := by
  obtain ⟨s, ps, hpath, hsource, -, htokens⟩ := exists_path_of_tokenize hv h
  have hnil : s.rest = [] := by
    have hall := hpath.source_eq
    rw [hsource] at hall
    exact List.append_cancel_left (hall.symm.trans (List.append_nil source).symm)
  have hfitting := hpath.fitting rfl hv.lexicon
  rw [htokens, List.map_append, map_piece_tokensFrom]
  constructor
  · rw [texts_append, hsource]
    exact List.append_nil source
  · rw [hnil] at hfitting
    exact hfitting.append (.one rfl)

end TemplateTokens
