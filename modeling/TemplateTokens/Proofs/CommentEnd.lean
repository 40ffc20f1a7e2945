import TemplateTokens.Lexer.Basic
import TemplateTokens.Proofs.Lexeme.Spelling
import TemplateTokens.Proofs.Lexer.Opened

/-!
# Where comments end

The end of a comment is searched for together with the blanks and the trim marker before it. The
delimiter may itself hold blanks or begin with a trim marker, so more than one beginning of the
match is possible; the first one counts. Nevertheless a comment ends exactly if its delimiter stands
behind its start, and the text of the comment neither holds the delimiter nor ends with a blank.

Results:

* `Dialect.commentEnd?_eq_none_iff`: the search fails only where the delimiter is nowhere.
* `Dialect.endsComment_of_commentEnd?`: what a search finds, and what stands around it.
* `State.Finds.step_comment`: a step that finds a comment reads it to its end or fails.
* `Lexer.commentEnd?_first`: both of these, for any dialect.
-/

namespace TemplateTokens

open Piece

theorem closingLine?_isSome {closing t : Text} (h : closing <+: t) :
    (closingLine? closing t).isSome := by
  obtain ⟨rest, hrest⟩ := h
  rw [closingLine?, isPrefixOf?_eq_some_iff.2 hrest]
  rfl

namespace Dialect

variable {d : Dialect} {t : Text}

/-! ## At one place -/

/-- The end of a comment at the start of a text: blanks, a trim marker, and the delimiter with the
line break behind it. -/
def commentTail? (d : Dialect) (t : Text) : Option (Text × Option Trim × Text) :=
  afterBlanks? (d.afterModifier? (closingLine? d.comment.closing)) t

theorem commentEnd?_eq (d : Dialect) (t : Text) :
    d.commentEnd? t = (search? d.commentTail? t).map
      fun (before, blank, m, delimiter) => ⟨⟨m, delimiter⟩, before, blank⟩ := rfl

/-- A comment ends at its delimiter, whatever the delimiter begins with. -/
theorem commentTail?_isSome_of_isPrefix (h : d.comment.closing <+: t) :
    (d.commentTail? t).isSome := by
  have hbare := afterModifier?_isSome (d := d) (closingLine?_isSome h)
  have htail : (d.commentTail? ([] ++ t)).isSome := afterBlanks?_isSome rfl hbare
  exact htail

/-- A comment that ends somewhere ends already at a blank before that place. -/
theorem commentTail?_isSome_of_blank {c : Char} (hc : isBlank c = true)
    (h : (d.commentTail? t).isSome) : (d.commentTail? (c :: t)).isSome := by
  obtain ⟨⟨blank, found⟩, hfound⟩ := Option.isSome_iff_exists.1 h
  obtain ⟨after, rfl, hblank, hafter⟩ := afterBlanks?_sound hfound
  have hrun : (c :: blank).all isBlank = true := by
    rw [List.all_cons, hc, hblank]
    rfl
  apply afterBlanks?_isSome hrun
  rw [hafter]
  rfl

theorem isInfix_of_commentTail? (h : (d.commentTail? t).isSome) : d.comment.closing <:+: t := by
  obtain ⟨⟨blank, m, delimiter⟩, hfound⟩ := Option.isSome_iff_exists.1 h
  obtain ⟨after, rfl, -, hafter⟩ := afterBlanks?_sound hfound
  obtain ⟨rest, rfl, hrest⟩ := afterModifier?_sound hafter
  have hbegins : d.comment.closing <+: rest :=
    (prefix_of_closingLine? hrest).trans (closingLine?_sound hrest)
  exact (hbegins.isInfix.trans (List.suffix_append _ _).isInfix).trans
    (List.suffix_append _ _).isInfix

/-! ## The search -/

/-- The search for the end of a comment fails only where its delimiter is nowhere. -/
theorem commentEnd?_eq_none_iff : d.commentEnd? t = none ↔ ¬ d.comment.closing <:+: t := by
  rw [commentEnd?_eq, Option.map_eq_none_iff, search?_eq_none]
  constructor
  · rintro hnone ⟨before, after, rfl⟩
    have hsome := commentTail?_isSome_of_isPrefix (List.prefix_append d.comment.closing after)
    rw [hnone before _ (List.append_assoc ..)] at hsome
    cases hsome
  · intro hnot before after hsplit
    apply Option.eq_none_iff_forall_ne_some.2
    intro found hfound
    apply hnot
    have hinfix := isInfix_of_commentTail? (Option.isSome_of_eq_some hfound)
    rw [hsplit]
    exact hinfix.trans (List.suffix_append before after).isInfix

/-- Behind the text of a comment the comment ends, and nowhere in the text. -/
theorem commentTail?_of_commentEnd? {e : CommentEnd} (h : d.commentEnd? t = some e) :
    ∃ after, t = e.before ++ after ∧ (d.commentTail? after).isSome ∧
      ∀ pre suf, e.before = pre ++ suf → suf ≠ [] → d.commentTail? (suf ++ after) = none := by
  rw [commentEnd?_eq] at h
  obtain ⟨⟨before, found⟩, hsearch, rfl⟩ := Option.map_eq_some_iff.1 h
  obtain ⟨after, htext, hafter⟩ := search?_sound hsearch
  refine ⟨after, htext, Option.isSome_of_eq_some hafter, ?_⟩
  intro pre suf hsplit hne
  exact search?_first hsearch htext hsplit hne

/-- A comment that is followed by `tail` ends with `e`. Its text holds no delimiter and no blank at
its end, and blanks, a trim marker and the delimiter stand behind it; a line break that follows the
delimiter belongs to it. -/
structure EndsComment (d : Dialect) (t : Text) (e : CommentEnd) (tail : Text) : Prop where
  text_eq : t = e.before ++ (e.blank ++ (d.modifierText e.modifier ++ (e.delimiter ++ tail)))
  before_free : ¬ d.comment.closing <:+: e.before
  before_end : ∀ c ∈ e.before.getLast?, isBlank c = false
  blank : e.blank.all isBlank = true
  delimiter : IsClosingLine d.comment.closing e.delimiter tail

theorem endsComment_of_commentEnd? (hd : d.defect? = none) {e : CommentEnd}
    (h : d.commentEnd? t = some e) : ∃ tail, d.EndsComment t e tail := by
  obtain ⟨tail, htail⟩ := texts_commentEnd? h
  obtain ⟨hblank, hdelimiter⟩ := commentEnd?_spec h htail.symm
  obtain ⟨after, -, hafter, hfirst⟩ := commentTail?_of_commentEnd? h
  refine ⟨tail, ?_, ?_, ?_, hblank, hdelimiter⟩
  · simpa [CommentEnd.pieces, TagEnd.pieces] using htail.symm
  · -- the match would have begun at the delimiter in front of it
    rintro ⟨pre, suf, hbefore⟩
    rw [List.append_assoc] at hbefore
    have hne : d.comment.closing ++ suf ≠ [] :=
      List.append_ne_nil_of_left_ne_nil (comment_closing_ne_nil hd) suf
    have hnone := hfirst pre _ hbefore.symm hne
    rw [List.append_assoc] at hnone
    have hsome : (d.commentTail? (d.comment.closing ++ (suf ++ after))).isSome :=
      commentTail?_isSome_of_isPrefix (List.prefix_append _ _)
    rw [hnone] at hsome
    cases hsome
  · -- and at the blank in front of it
    intro c hc
    obtain ⟨pre, hbefore⟩ := List.getLast?_eq_some_iff.1 hc
    have hnone := hfirst pre [c] hbefore (List.cons_ne_nil c [])
    cases hlast : isBlank c with
    | false => rfl
    | true =>
      have hsome := commentTail?_isSome_of_blank hlast hafter
      rw [show c :: after = [c] ++ after from rfl, hnone] at hsome
      cases hsome

end Dialect

/-! ## Reading a comment -/

theorem Piece.stop_unlessEmpty (p : Position) (kind : Token.Kind) (t : Text) :
    stop p (unlessEmpty kind t) = p.advance t := by
  rw [unlessEmpty]
  split
  · rename_i hnil
    rw [hnil, Position.advance_nil]
    rfl
  · rfl

/-- A step that finds the start of a comment reads all of the comment if it has an end, and fails if
it has none. -/
theorem State.Finds.step_comment {lx : Lexicon} {s : State} {before after : Text} {t : TagStart}
    (h : s.Finds lx.toDialect before t after) (htag : t.tag = .comment) :
    (lx.commentEnd? (after.dropWhile isBlank) ≠ none ∧ ∃ s', s.step lx = .ok s') ∨
      lx.commentEnd? (after.dropWhile isBlank) = none ∧ ∃ e, s.step lx = .error e ∧
        e.cause = .unclosed .comment (s.position.advance before).toLocation := by
  obtain ⟨s₁, hat, hstep⟩ := h.exists_atTag
  obtain ⟨s₂, hbegin, hcomment, hopened⟩ : ∃ s₂,
      State.Reads { s₁ with tagOpenedAt := s₁.position.toLocation } (t.pieces lx.toDialect) s₂ ∧
      s.step lx = s₂.commentStep lx ∧ s₂.tagOpenedAt = s₁.position.toLocation := by
    refine ⟨_, reads_begun hat.rest_eq, ?_, tagOpenedAt_emitTrim _ _ _⟩
    rw [hstep, tagStartStep, htag]
    rfl
  have hafter : s₂.rest = after :=
    hbegin.rest_of_eq (by rw [TagStart.texts_pieces]; exact hat.rest_eq)
  have hplace : s₂.tagOpenedAt = (s.position.advance before).toLocation := by
    rw [hopened, ← stop_unlessEmpty s.position .text before]
    exact hat.tagOpenedAt_eq
  rw [hcomment, ← hafter, ← hplace]
  obtain ⟨e, s', hend, hok, -⟩ | ⟨hend, herror⟩ := commentStep_eq lx s₂
  · exact Or.inl ⟨by rw [hend]; exact Option.some_ne_none e, s', hok⟩
  · exact Or.inr ⟨hend, _, herror, rfl⟩

/-- The search for the end of a comment fails exactly if the delimiter does not stand in the text,
and what it finds is the first end: the text before it holds no delimiter and does not end with a
blank. So a comment is unclosed exactly if its delimiter does not stand behind its start, the trim
marker there and the blanks behind that; every other comment is read. -/
theorem Lexer.commentEnd?_first (l : Lexer) :
    (∀ rest, l.dialect.commentEnd? rest = none ↔ ¬ l.dialect.comment.closing <:+: rest) ∧
      (∀ rest e, l.dialect.commentEnd? rest = some e →
        ∃ tail, l.dialect.EndsComment rest e tail) ∧
      ∀ s before t after, State.Finds l.dialect s before t after → t.tag = .comment →
        ((∃ e, s.step (.ofDialect l.dialect) = .error e ∧
            e.cause = .unclosed .comment (s.position.advance before).toLocation) ↔
          ¬ l.dialect.comment.closing <:+: after.dropWhile isBlank) ∧
        (l.dialect.comment.closing <:+: after.dropWhile isBlank →
          ∃ s', s.step (.ofDialect l.dialect) = .ok s') := by
  refine ⟨?_, ?_, ?_⟩
  · intro rest
    exact Dialect.commentEnd?_eq_none_iff
  · intro rest e he
    exact Dialect.endsComment_of_commentEnd? l.usable he
  · intro s before t after hfind htag
    have hfinds : s.Finds (Lexicon.ofDialect l.dialect).toDialect before t after := hfind
    rw [← Dialect.commentEnd?_eq_none_iff]
    obtain ⟨hsome, s', hok⟩ | ⟨hnone, e, herror, hcause⟩ := hfinds.step_comment htag
    · refine ⟨iff_of_false ?_ hsome, fun _ => ⟨s', hok⟩⟩
      rintro ⟨e, herror, -⟩
      cases hok.symm.trans herror
    · refine ⟨iff_of_true ⟨e, herror, hcause⟩ hnone, fun hinfix => ?_⟩
      exact absurd hinfix (Dialect.commentEnd?_eq_none_iff.1 hnone)

/-- A delimiter that begins with a trim marker, with the marker before it and without. -/
example :
    let d := { Dialect.standard with comment := ⟨['{', '#'], ['-', '#', '}']⟩ }
    d.commentEnd? ['a', ' ', '-', '-', '#', '}', '\n'] =
        some ⟨⟨some .whole, ['-', '#', '}', '\n']⟩, ['a'], [' ']⟩ ∧
      d.commentEnd? ['a', ' ', '-', '#', '}', 'b'] =
        some ⟨⟨none, ['-', '#', '}']⟩, ['a'], [' ']⟩ := ⟨rfl, rfl⟩

end TemplateTokens
