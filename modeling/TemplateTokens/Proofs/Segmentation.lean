import Mathlib.Data.List.Chain
import TemplateTokens.Proofs.Lexer.Fitting

/-!
# How a template is cut

Text, white space, names, numbers and pieces of strings are taken as far as they go, so no two
tokens of one of these kinds stand side by side. Inside of a step other pieces keep them apart.
Between two steps it is the rest of the template: where one step ends with such a piece, the piece
cannot go on, and so the next step does not begin with another one.

Results:

* `Lexicon.Move.separate`: no step reads two such pieces side by side.
* `Lexicon.Move.closed_getLast`, `Lexicon.Move.not_closed_head`: what a step reads last does not go
  on in what remains, and what the next step reads first does not begin there if it would.
* `Lexicon.Path.separate`: so no path reads two such pieces side by side.
* `Lexer.segmented_of_tokenize`: so no template has two such tokens side by side, and its names and
  numbers go as far as they can.
-/

namespace TemplateTokens

open Piece

/-! ## Pieces that are kept apart -/

/-- The kinds of which one token goes as far as it can. -/
def Token.Kind.isMaximal : Kind → Bool
  | .text | .whitespace | .name | .number | .string => true
  | _ => false

theorem Token.Kind.isMaximal_of_mem :
    ∀ kind ∈ [text, whitespace, name, number, string], kind.isMaximal = true := by decide

/-- Two pieces that are not of the same kind, or of a kind of which two may stand side by side. -/
def Piece.Apart (p q : Piece) : Prop := p.kind = q.kind → p.kind.isMaximal = false

/-- No two pieces of a kind that goes as far as it can stand side by side in a row. -/
def Piece.Separate (ps : List Piece) : Prop := ps.IsChain Apart

/-- Pieces of kinds of which two may stand side by side. -/
def Piece.Loose (ps : List Piece) : Prop := ∀ p ∈ ps, p.kind.isMaximal = false

namespace Piece

variable {d : Dialect} {ps qs rs : List Piece}

theorem Loose.append (hp : Loose ps) (hq : Loose qs) : Loose (ps ++ qs) :=
  List.forall_mem_append.2 ⟨hp, hq⟩

theorem loose_singleton {kind : Token.Kind} (h : kind.isMaximal = false) (value : Text) :
    Loose [⟨kind, value⟩] := List.forall_mem_singleton.2 h

theorem loose_ofTrim (m : Option Trim) : Loose (ofTrim d m) := by
  rcases m with _ | _ | _
  · exact nofun
  · exact loose_singleton rfl _
  · exact loose_singleton rfl _

theorem separate_unlessEmpty (kind : Token.Kind) (value : Text) :
    Separate (unlessEmpty kind value) := by
  rw [unlessEmpty]
  split
  · exact .nil
  · exact .singleton _

theorem separate_unlessEmpty_append {kind : Token.Kind} {value : Text} (hq : Separate qs)
    (hhead : ∀ q ∈ qs.head?, q.kind ≠ kind) : Separate (unlessEmpty kind value ++ qs) := by
  rw [unlessEmpty]
  split
  · exact hq
  · exact hq.cons fun q hmem heq => absurd heq.symm (hhead q hmem)

/-- Any row may follow loose pieces. -/
theorem Loose.separate_append (hp : Loose ps) (hq : Separate qs) : Separate (ps ++ qs) := by
  induction ps with
  | nil => exact hq
  | cons p ps ih =>
    obtain ⟨hhead, htail⟩ := List.forall_mem_cons.1 hp
    exact (ih htail).cons fun _ _ _ => hhead

/-- And loose pieces may follow any row. -/
theorem Separate.append_loose (hp : Separate ps) (hq : Loose qs) (hne : qs ≠ [])
    (hr : Separate rs) : Separate (ps ++ (qs ++ rs)) := by
  refine hp.append (hq.separate_append hr) fun x _ y hy heq => ?_
  cases qs with
  | nil => exact absurd rfl hne
  | cons q qs =>
    obtain rfl : q = y := Option.some.inj hy
    rw [heq]
    exact hq q List.mem_cons_self

theorem Separate.concat_loose (hp : Separate ps) (hq : Loose qs) (hne : qs ≠ []) :
    Separate (ps ++ qs) := by
  have h := hp.append_loose hq hne .nil
  rwa [List.append_nil] at h

/-- What a row ends with that ends with loose pieces. -/
theorem Loose.of_mem_getLast? {p : Piece} (hq : Loose qs) (hne : qs ≠ [])
    (hp : p ∈ (ps ++ qs).getLast?) : p.kind.isMaximal = false := by
  rw [List.getLast?_append_of_ne_nil ps hne] at hp
  exact hq p (List.mem_of_mem_getLast? hp)

end Piece

/-! ## The rows of a step -/

section

variable {d : Dialect}

theorem TagStart.loose_pieces (t : TagStart) : Loose (t.pieces d) := by
  have hkind : t.tag.startKind.isMaximal = false := by cases t.tag <;> rfl
  exact (loose_singleton hkind _).append (loose_ofTrim t.modifier)

theorem TagEnd.loose_pieces (e : TagEnd) (tag : Tag) : Loose (e.pieces d tag.endKind) := by
  have hkind : tag.endKind.isMaximal = false := by cases tag <;> rfl
  exact (loose_ofTrim e.modifier).append (loose_singleton hkind _)

/-- Any rows may stand around a tag that holds one word. -/
theorem VerbatimTag.separate_append (tag : VerbatimTag) {ps qs : List Piece} (hp : Separate ps)
    (hq : Separate qs) : Separate (ps ++ (tag.pieces d ++ qs)) := by
  have hstart : Loose ([⟨.blockStart, d.block.opening⟩] ++ ofTrim d tag.openModifier) :=
    (loose_singleton rfl _).append (loose_ofTrim _)
  have hend : Loose (ofTrim d tag.closeModifier ++ [⟨.blockEnd, d.block.closing⟩]) :=
    (loose_ofTrim _).append (loose_singleton rfl _)
  have hword : Separate (unlessEmpty .whitespace tag.leading ++
      ([⟨.name, tag.word⟩] ++ unlessEmpty .whitespace tag.trailing)) := by
    refine separate_unlessEmpty_append ?_ ?_
    · refine (separate_unlessEmpty _ _).cons fun q hq heq => ?_
      obtain ⟨-, rfl⟩ := of_mem_unlessEmpty (List.mem_of_mem_head? hq)
      cases heq
    · rintro q hq
      obtain rfl := Option.some.inj hq
      rintro ⟨⟩
  have hall := hp.append_loose hstart (by simp) (hword.append_loose hend (by simp) hq)
  simpa only [VerbatimTag.pieces, List.append_assoc] using hall

/-- The content of a comment: its end is searched for, and no blank comes first then. -/
theorem Dialect.separate_comment {t : Text} {e : CommentEnd} (blank : Text)
    (h : d.commentEnd? (t.dropWhile isBlank) = some e) :
    Separate (unlessEmpty .whitespace blank ++
      (unlessEmpty .text e.before ++ unlessEmpty .whitespace e.blank)) := by
  have hblank : e.before = [] → e.blank = [] := by
    intro hbefore
    obtain ⟨rest, hrest⟩ := texts_commentEnd? h
    have hall := (commentEnd?_spec h hrest.symm).1
    have hnone := blanks_dropWhile t
    cases heq : e.blank with
    | nil => rfl
    | cons c run =>
      rw [heq, List.all_cons, Bool.and_eq_true] at hall
      rw [← hrest, CommentEnd.pieces, hbefore, heq] at hnone
      simp [unlessEmpty, blanks, hall.1] at hnone
  cases hbefore : e.before with
  | nil =>
    rw [hblank hbefore]
    simpa [unlessEmpty] using separate_unlessEmpty _ _
  | cons c before =>
    refine separate_unlessEmpty_append ?_ ?_
    · refine separate_unlessEmpty_append (separate_unlessEmpty _ _) fun q hq => ?_
      obtain ⟨-, rfl⟩ := of_mem_unlessEmpty (List.mem_of_mem_head? hq)
      rintro ⟨⟩
    · rintro q hq
      obtain rfl := Option.some.inj hq
      rintro ⟨⟩

end

theorem Lexeme.separate_pieces {lx : Lexicon} {t : Text} {l : Lexeme} (h : lx.Starts t l)
    (blank : Text) : Separate (unlessEmpty .whitespace blank ++ l.pieces) := by
  cases h with
  | quoted =>
    exact (separate_unlessEmpty _ _).append_loose (loose_singleton rfl _)
      (List.cons_ne_nil _ _) ((separate_unlessEmpty _ _).concat_loose
        (loose_singleton rfl _) (List.cons_ne_nil _ _))
  | operator | name | number | opening | closing | separator | quote =>
    refine separate_unlessEmpty_append (.singleton _) ?_
    rintro q hq
    obtain rfl := Option.some.inj hq
    rintro ⟨⟩

/-- No step reads two pieces side by side that are to be kept apart. -/
theorem Lexicon.Move.separate {lx : Lexicon} {s : State} {qs : List Piece} {st : Stacks}
    (h : lx.Move s qs st) : Separate qs := by
  cases h with
  | text => exact .singleton _
  | @comment before after t e _ _ hend =>
    have hloose : Loose (e.toTagEnd.pieces lx.toDialect .commentEnd) := e.loose_pieces .comment
    have hcontent := (Dialect.separate_comment (TemplateTokens.blanks after) hend).concat_loose
      hloose (by simp [TagEnd.pieces])
    refine (separate_unlessEmpty _ _).append_loose t.loose_pieces (by simp [TagStart.pieces]) ?_
    simpa only [CommentEnd.pieces, List.append_assoc] using hcontent
  | @verbatim _ _ _ body _ opening closing =>
    have hclosing : Separate (unlessEmpty .text body ++ (closing.pieces lx.toDialect ++ [])) :=
      closing.separate_append (separate_unlessEmpty _ _) .nil
    rw [List.append_nil] at hclosing
    exact opening.separate_append (separate_unlessEmpty _ _) hclosing
  | @openTag _ _ t =>
    exact (separate_unlessEmpty _ _).concat_loose t.loose_pieces (by simp [TagStart.pieces])
  | @closeTag tag e =>
    exact (separate_unlessEmpty _ _).concat_loose (e.loose_pieces tag) (by simp [TagEnd.pieces])
  | blanks => exact .singleton _
  | lexeme _ hstart => exact Lexeme.separate_pieces hstart _
  | openInterpolation =>
    exact (loose_singleton rfl _).separate_append (separate_unlessEmpty _ _)
  | stringPiece => exact .singleton _
  | closeQuote => exact .singleton _
  | closeInterpolation =>
    exact (separate_unlessEmpty _ _).concat_loose (loose_singleton rfl _)
      (List.cons_ne_nil _ _)

/-! ## Where a piece ends -/

/-- Where a piece of a kind that goes as far as it can does not go on. -/
def Dialect.Closed (d : Dialect) (kind : Token.Kind) (rest : Text) : Prop :=
  match kind with
  | .text => rest = []
  | .whitespace => ∀ c ∈ rest.head?, isBlank c = false
  | .name => ∀ c ∈ rest.head?, isNameRest c = false
  | .number => ∀ c ∈ rest.head?, c.isDigit = false
  | .string => stringPiece d.interpolation.opening rest = []
  | _ => True

theorem Dialect.closed_of_not_isMaximal {d : Dialect} {kind : Token.Kind} {rest : Text}
    (h : kind.isMaximal = false) : d.Closed kind rest := by
  cases kind <;> first | exact trivial | cases h

/-- A piece of a string ends where no further piece begins. -/
theorem stringPiece_of_eq_append {opening t rest : Text} (h : t = stringPiece opening t ++ rest) :
    stringPiece opening rest = [] := by
  fun_induction stringPiece opening t with
  | case1 =>
    rw [← show [] = rest from h]
    rfl
  | case2 t =>
    rw [← show '"' :: t = rest from h]
    rfl
  | case3 c t ih =>
    simp only [List.cons_append, List.cons.injEq, true_and] at h
    exact ih h
  | case4 c t hquote hescape hc =>
    rw [← show c :: t = rest from h, stringPiece, if_pos hc]
    · exact hquote
    · exact hescape
  | case5 c t _ _ _ ih => exact ih (List.cons.inj h).2

theorem Dialect.not_closed_of_blank {d : Dialect} {v t : Text} (hv : v <+: t) (hne : v ≠ [])
    (hblank : v.all isBlank = true) : ¬ d.Closed .whitespace t := by
  intro hclosed
  obtain ⟨u, rfl⟩ := hv
  cases v with
  | nil => exact hne rfl
  | cons c v =>
    rw [List.all_cons, hclosed c rfl] at hblank
    cases hblank

section

variable {lx : Lexicon} {s : State} {qs : List Piece} {st : Stacks} {rest : Text} {p : Piece}

theorem Piece.of_mem_head?_unlessEmpty_append {kind : Token.Kind} {value : Text}
    (h : p ∈ (unlessEmpty kind value ++ qs).head?) :
    value ≠ [] ∧ p = ⟨kind, value⟩ ∨ value = [] ∧ p ∈ qs.head? := by
  rw [unlessEmpty] at h
  split at h
  · rename_i hnil
    exact Or.inr ⟨hnil, h⟩
  · rename_i hne
    exact Or.inl ⟨hne, (Option.some.inj h).symm⟩

/-- Where a part of an expression begins with a piece that is taken as far as it goes, another piece
of its kind in front would go on. -/
theorem Lexicon.Starts.not_closed_head {t : Text} {l : Lexeme} (h : lx.Starts t l)
    (hp : p ∈ l.pieces.head?) (hmax : p.kind.isMaximal = true) : ¬ lx.Closed p.kind t := by
  cases h with
  | name _ h =>
    obtain rfl := Option.some.inj hp
    intro hclosed
    cases t with
    | nil => cases h
    | cons c t =>
      have hc : isNameRest c = false := hclosed c rfl
      rw [isNameRest, Bool.or_eq_false_iff] at hc
      rw [name?, hc.1] at h
      cases h
  | number _ _ h =>
    obtain rfl := Option.some.inj hp
    intro hclosed
    cases t with
    | nil => cases h
    | cons c t =>
      have hc : c.isDigit = false := hclosed c rfl
      rw [number?, List.takeWhile_cons_of_neg (by simp [hc])] at h
      cases h
  | operator | opening | closing | separator | quoted | quote =>
    obtain rfl := Option.some.inj hp
    cases hmax

/-- So it is with the first piece of a step. -/
theorem Lexicon.Move.not_closed_head (h : lx.Move s qs st) (hne : s.rest ≠ [])
    (hp : p ∈ qs.head?) (hmax : p.kind.isMaximal = true) : ¬ lx.Closed p.kind s.rest := by
  have hblanks : (TemplateTokens.blanks s.rest).all isBlank = true := List.all_takeWhile
  have hblank (hne : TemplateTokens.blanks s.rest ≠ []) : ¬ lx.Closed .whitespace s.rest :=
    Dialect.not_closed_of_blank (List.takeWhile_prefix _) hne hblanks
  have hloose {ps : List Piece} (hps : Loose ps) (hp : p ∈ ps.head?) : False := by
    rw [hps p (List.mem_of_mem_head? hp)] at hmax
    cases hmax
  cases h with
  | text =>
    obtain rfl := Option.some.inj hp
    exact hne
  | @comment _ _ t =>
    obtain ⟨-, rfl⟩ | ⟨-, hp⟩ := of_mem_head?_unlessEmpty_append hp
    · exact hne
    · obtain rfl := Option.some.inj hp
      exact (hloose t.loose_pieces rfl).elim
  | verbatim =>
    obtain ⟨-, rfl⟩ | ⟨-, hp⟩ := of_mem_head?_unlessEmpty_append hp
    · exact hne
    · obtain rfl := Option.some.inj hp
      cases hmax
  | @openTag _ _ t =>
    obtain ⟨-, rfl⟩ | ⟨-, hp⟩ := of_mem_head?_unlessEmpty_append hp
    · exact hne
    · exact (hloose t.loose_pieces hp).elim
  | @closeTag tag e =>
    obtain ⟨hblanks, rfl⟩ | ⟨-, hp⟩ := of_mem_head?_unlessEmpty_append hp
    · exact hblank hblanks
    · exact (hloose (e.loose_pieces tag) hp).elim
  | blanks _ hnil =>
    obtain rfl := Option.some.inj hp
    refine hblank fun hblanks => hne ?_
    rw [← blanks_append_dropWhile s.rest, hnil, hblanks]
    rfl
  | lexeme _ hstart =>
    obtain ⟨hblanks, rfl⟩ | ⟨hnone, hp⟩ := of_mem_head?_unlessEmpty_append hp
    · exact hblank hblanks
    · have hall := blanks_append_dropWhile s.rest
      rw [hnone, List.nil_append] at hall
      exact hall ▸ hstart.not_closed_head hp hmax
  | openInterpolation =>
    obtain rfl := Option.some.inj hp
    cases hmax
  | stringPiece _ _ hpiece hpieces =>
    obtain rfl := Option.some.inj hp
    exact fun hclosed => hpieces (hpiece.symm.trans hclosed)
  | closeQuote =>
    obtain rfl := Option.some.inj hp
    cases hmax
  | closeInterpolation _ _ _ hclose =>
    obtain ⟨hblanks, rfl⟩ | ⟨-, hp⟩ := of_mem_head?_unlessEmpty_append hp
    · have hpre := (List.prefix_append _ _).trans (Dialect.interpolationClose?_eq_some hclose)
      exact Dialect.not_closed_of_blank hpre hblanks (Dialect.interpolationClose?_blank hclose)
    · obtain rfl := Option.some.inj hp
      cases hmax

/-- The last piece of a part of an expression does not go on in what remains. -/
theorem Lexicon.Starts.closed_getLast {t : Text} {l : Lexeme} (h : lx.Starts t l)
    (e : t = texts l.pieces ++ rest) (hp : p ∈ l.pieces.getLast?) : lx.Closed p.kind rest := by
  cases h with
  | name _ h =>
    obtain rfl := Option.some.inj hp
    exact (name?_spec h (by simpa [Lexeme.pieces] using e)).2
  | number _ _ h =>
    obtain rfl := Option.some.inj hp
    exact (number?_spec h (by simpa [Lexeme.pieces] using e)).2.1
  | @quoted _ string =>
    have hloose : Loose [⟨.closingQuote, [string.quote]⟩] := loose_singleton rfl _
    rw [Lexeme.pieces, ← List.append_assoc] at hp
    exact Dialect.closed_of_not_isMaximal (hloose.of_mem_getLast? (List.cons_ne_nil _ _) hp)
  | operator | opening | closing | separator | quote =>
    obtain rfl := Option.some.inj hp
    trivial

/-- The last piece of a step does not go on in what remains. Most steps end with a piece of which
two may stand side by side. -/
theorem Lexicon.Move.closed_getLast (h : lx.Move s qs st) (e : s.rest = texts qs ++ rest)
    (hp : p ∈ qs.getLast?) : lx.Closed p.kind rest := by
  have hloose {ps row : List Piece} (hrow : Loose row) (hne : row ≠ [])
      (hp : p ∈ (ps ++ row).getLast?) : lx.Closed p.kind rest :=
    Dialect.closed_of_not_isMaximal (hrow.of_mem_getLast? hne hp)
  have hnil {kind : Token.Kind} (e : s.rest = texts [⟨kind, s.rest⟩] ++ rest) : rest = [] := by
    rw [texts_cons, texts_nil, List.append_nil] at e
    exact List.append_right_eq_self.1 e.symm
  cases h with
  | text =>
    obtain rfl := Option.some.inj hp
    exact hnil e
  | @comment _ _ _ end_ =>
    simp only [CommentEnd.pieces, ← List.append_assoc] at hp
    exact hloose (end_.toTagEnd.loose_pieces .comment) (by simp [TagEnd.pieces]) hp
  | verbatim =>
    simp only [VerbatimTag.pieces, ← List.append_assoc] at hp
    exact hloose (loose_singleton rfl _) (List.cons_ne_nil _ _) hp
  | @openTag _ _ t => exact hloose t.loose_pieces (by simp [TagStart.pieces]) hp
  | @closeTag tag end_ => exact hloose (end_.loose_pieces tag) (by simp [TagEnd.pieces]) hp
  | blanks =>
    obtain rfl := Option.some.inj hp
    rw [hnil e]
    intro c hc
    cases hc
  | @lexeme l _ _ hstart =>
    rw [texts_append, texts_unlessEmpty, List.append_assoc] at e
    rw [List.getLast?_append_of_ne_nil _ (by cases l <;> simp [Lexeme.pieces])] at hp
    exact hstart.closed_getLast (dropWhile_of_eq_blanks_append e) hp
  | openInterpolation _ hopen =>
    obtain ⟨behind, hbehind, rfl⟩ := Option.map_eq_some_iff.1 hopen
    rw [← isPrefixOf?_eq_some_iff.1 hbehind, texts_append, texts_cons, texts_nil, List.append_nil,
      texts_unlessEmpty, List.append_assoc] at e
    have hrest := head_of_eq_takeWhile_append (List.append_cancel_left e)
    rw [unlessEmpty] at hp
    -- the last piece is the start of the interpolation or the blanks behind it
    split at hp
    · obtain rfl := Option.some.inj hp
      trivial
    · obtain rfl := Option.some.inj hp
      exact hrest
  | stringPiece _ _ hpiece =>
    obtain rfl := Option.some.inj hp
    subst hpiece
    exact stringPiece_of_eq_append (by simpa using e)
  | closeQuote =>
    obtain rfl := Option.some.inj hp
    trivial
  | closeInterpolation =>
    exact hloose (loose_singleton rfl _) (List.cons_ne_nil _ _) hp

end

/-! ## Paths -/

/-- No path reads two pieces side by side that are to be kept apart: the last piece of what has been
read does not go on in the rest, and the next step begins with another one there. -/
theorem Lexicon.Path.separate {lx : Lexicon} {source : Text} {s : State} {ps : List Piece}
    {ls : List Layer} (h : lx.Path source s ps ls) :
    Separate ps ∧ ∀ p ∈ ps.getLast?, lx.Closed p.kind s.rest := by
  induction h with
  | start => exact ⟨.nil, nofun⟩
  | step _ hne _ hmoves hread _ _ ih =>
    obtain ⟨hseparate, hclosed⟩ := ih
    have hmove := hmoves.move
    constructor
    · refine hseparate.append hmove.separate fun p hp q hq heq => ?_
      by_contra hmax
      refine hmove.not_closed_head hne hq ?_ (heq ▸ hclosed p hp)
      rw [← heq, ← Bool.not_eq_false]
      exact hmax
    · rw [List.getLast?_append_of_ne_nil _ hmove.ne_nil]
      exact fun p hp => hmove.closed_getLast hread.rest_eq hp

/-- In a dialect whose operators can be seen, no two tokens of a template that stand side by side
are both text, white space, names, numbers or pieces of strings; and neither a name nor a number goes on
in the template behind its token, but for the word of a tag of a verbatim block. -/
theorem Lexer.segmented_of_tokenize {l : Lexer} (hv : l.dialect.Visible) {source : Text}
    {stream : TokenStream} (h : l.tokenize source = .ok stream) :
    (∀ before p q after, stream.tokens.toList.map Token.piece = before ++ p :: q :: after →
      p.kind ∈ [.text, .whitespace, .name, .number, .string] → p.kind ≠ q.kind) ∧
    ∀ before p after, stream.tokens.toList.map Token.piece = before ++ p :: after →
      source = texts before ++ (p.value ++ texts after) ∧
      (p.kind = .name → InVerbatimTag before p after ∨
        ∀ c ∈ (texts after).head?, isNameRest c = false) ∧
      (p.kind = .number → (∀ c ∈ (texts after).head?, c.isDigit = false) ∧
        ('.' ∉ p.value → ∀ c t, texts after = '.' :: c :: t → c.isDigit = false)) := by
  obtain ⟨s, ps, hpath, -, -, htokens⟩ := exists_path_of_tokenize hv h
  have hseparate : Separate (stream.tokens.toList.map Token.piece) := by
    rw [htokens, List.map_append, map_piece_tokensFrom]
    exact hpath.separate.1.concat_loose (loose_singleton rfl _) (List.cons_ne_nil _ _)
  obtain ⟨hsource, hfitting⟩ := fitting_of_tokenize hv h
  constructor
  · intro before p q after hsplit hmem heq
    have hnot := List.isChain_iff_forall_rel_of_append_cons_cons.1 hseparate hsplit heq
    rw [Token.Kind.isMaximal_of_mem p.kind hmem] at hnot
    cases hnot
  · intro before p after hsplit
    have hadmits := hfitting before p after hsplit
    rw [List.nil_append, List.append_nil] at hadmits
    rw [hsplit, texts_append, texts_cons] at hsource
    obtain ⟨kind, value⟩ := p
    refine ⟨hsource.symm, ?_, ?_⟩
    · rintro rfl
      exact hadmits.2
    · rintro rfl
      exact hadmits.2

/-- A number without a fraction in front of the operator `..`, and a name that a digit ends. -/
theorem Lexer.segmented_range : Dialect.standard.Visible ∧
    ∃ stream before after before' after', standard.tokenize
        ['{', '{', ' ', '1', '.', '.', 'n', '2', ' ', '}', '}'] = .ok stream ∧
      stream.tokens.toList.map Token.piece = before ++ ⟨.number, ['1']⟩ :: after ∧
      (∀ c t, texts after = '.' :: c :: t → c.isDigit = false) ∧
      stream.tokens.toList.map Token.piece = before' ++ ⟨.name, ['n', '2']⟩ :: after' ∧
      (InVerbatimTag before' ⟨.name, ['n', '2']⟩ after' ∨
        ∀ c ∈ (texts after').head?, isNameRest c = false) := by
  obtain ⟨stream, h, hnumber, hname⟩ : ∃ stream, standard.tokenize
        ['{', '{', ' ', '1', '.', '.', 'n', '2', ' ', '}', '}'] = .ok stream ∧
      stream.tokens.toList.map Token.piece =
        [⟨.printStart, ['{', '{']⟩, ⟨.whitespace, [' ']⟩] ++ ⟨.number, ['1']⟩ ::
          [⟨.operator, ['.', '.']⟩, ⟨.name, ['n', '2']⟩, ⟨.whitespace, [' ']⟩,
            ⟨.printEnd, ['}', '}']⟩, ⟨.eof, []⟩] ∧
      stream.tokens.toList.map Token.piece =
        [⟨.printStart, ['{', '{']⟩, ⟨.whitespace, [' ']⟩, ⟨.number, ['1']⟩,
          ⟨.operator, ['.', '.']⟩] ++ ⟨.name, ['n', '2']⟩ ::
          [⟨.whitespace, [' ']⟩, ⟨.printEnd, ['}', '}']⟩, ⟨.eof, []⟩] := ⟨_, rfl, rfl, rfl⟩
  obtain ⟨-, hpieces⟩ := segmented_of_tokenize (by decide) h
  have hone : '.' ∉ ['1'] := by decide
  exact ⟨by decide, stream, _, _, _, _, h, hnumber,
    ((hpieces _ _ _ hnumber).2.2 rfl).2 hone, hname, (hpieces _ _ _ hname).2.1 rfl⟩

end TemplateTokens
