import TemplateTokens.Proofs.Lexer.Carry
import TemplateTokens.Proofs.Lexer.Leads
import TemplateTokens.Proofs.NextTagStart

/-!
# Ends of tags in the standard dialect

In the standard dialect the end of a tag is never a part of the start of another one, so between
tags the next tag start is always what a search from the position finds. Nor does anything but a
line break go on behind the end of a tag.

Results:

* `Lexicon.Move.getLast?_of_data`: a step that ends between tags has read the end of a tag last, or
  all that remained.
* `Dialect.Ends.not_suffix`: no tag start ends where the end of a tag stands.
* `Dialect.Ends.lineBreakAt_append`, `Dialect.Ends.eq_print_closing`: no line break goes on behind
  it, and no end of a print tag.
* `Lexicon.Path.fresh`: between tags no tag start is hidden.
-/

namespace TemplateTokens

open Piece

/-- The lexicon of the standard dialect. -/
def Lexicon.standard : Lexicon := ofDialect .standard

/-! ## Ends of tags -/

/-- The texts that a tag may end with: its closing delimiter and, for all but print tags, the line
break behind it. -/
inductive Dialect.Ends (d : Dialect) : Tag → Text → Prop
  | print : Ends d .print d.print.closing
  | block (t : Text) : Ends d .block (d.block.closing ++ lineBreakAt t)
  | comment (t : Text) : Ends d .comment (d.comment.closing ++ lineBreakAt t)

theorem Dialect.ends_of_tagEnd? {d : Dialect} {tag : Tag} {t : Text} {e : TagEnd}
    (h : d.tagEnd? tag t = some e) : d.Ends tag e.delimiter := by
  cases tag with
  | comment => cases h
  | print =>
    rw [(printEnd?_sound h).2]
    exact .print
  | block =>
    simp only [tagEnd?, blockEnd?, Option.map_eq_some_iff, Prod.exists] at h
    obtain ⟨m, v, h, rfl⟩ := h
    obtain ⟨behind, -, hv⟩ := afterModifier?_sound h
    obtain ⟨rest, -, rfl⟩ := Option.map_eq_some_iff.1 hv
    exact .block rest

theorem Dialect.ends_of_commentEnd? {d : Dialect} {t : Text} {e : CommentEnd}
    (h : d.commentEnd? t = some e) : d.Ends .comment e.delimiter := by
  simp only [commentEnd?, Option.map_eq_some_iff, Prod.exists] at h
  obtain ⟨before, blank, m, v, h, rfl⟩ := h
  obtain ⟨after, -, hafter⟩ := search?_sound h
  obtain ⟨after, -, -, hafter⟩ := afterBlanks?_sound hafter
  obtain ⟨behind, -, hv⟩ := afterModifier?_sound hafter
  obtain ⟨rest, -, rfl⟩ := Option.map_eq_some_iff.1 hv
  exact .comment rest

theorem VerbatimTag.getLast?_pieces (d : Dialect) (tag : VerbatimTag) :
    (tag.pieces d).getLast? = some ⟨.blockEnd, d.block.closing⟩ := by
  simp only [pieces, List.getLast?_append, List.getLast?_singleton, Option.some_or]

section

variable {lx : Lexicon} {source : Text} {s s' : State} {ps qs : List Piece} {ls : List Layer}
  {st : Stacks}

/-- A step that ends between tags has read the end of a tag last, or all that remained. -/
theorem Lexicon.Move.getLast?_of_data (hn : s.toStacks.Nested) (h : lx.Move s qs st)
    (hmode : st.mode = .data) :
    qs = [⟨.text, s.rest⟩] ∨ ∃ tag v, qs.getLast? = some ⟨tag.endKind, v⟩ ∧ lx.Ends tag v := by
  cases h with
  | text => exact Or.inl rfl
  | comment _ _ hend =>
    refine Or.inr ⟨.comment, _, ?_, Dialect.ends_of_commentEnd? hend⟩
    simp [CommentEnd.pieces, TagEnd.pieces, Tag.endKind]
  | verbatim =>
    refine Or.inr ⟨.block, lx.block.closing ++ lineBreakAt [], ?_, .block []⟩
    simp only [List.getLast?_append, VerbatimTag.getLast?_pieces, Option.some_or]
    rw [show lineBreakAt [] = [] from rfl, List.append_nil]
    rfl
  | closeTag _ _ _ hend =>
    refine Or.inr ⟨_, _, ?_, Dialect.ends_of_tagEnd? hend⟩
    simp [TagEnd.pieces]
  | openTag _ htag => exact absurd hmode (Tag.mode_isExpression htag).1
  | blanks hexp => exact absurd hmode hexp.isExpression.1
  | lexeme hexp _ hacts =>
    cases hacts with
    | plain => exact absurd hmode hexp.isExpression.1
    | quoted => exact absurd hmode hexp.isExpression.1
    | opening => exact absurd hmode hexp.isExpression.1
    | closing => exact absurd hmode hexp.isExpression.1
    | quote => cases hmode
  | openInterpolation => cases hmode
  | stringPiece hstring => cases hmode.symm.trans hstring
  | closeQuote hstring => exact absurd hmode (hn.leave_string hstring).2.1
  | closeInterpolation hinter => cases hmode.symm.trans (hn.leave_interpolation hinter).2

/-- Between tags, the end of a tag has been read last, or text up to the end of the template. -/
theorem Lexicon.Path.getLast?_of_data (h : lx.Path source s ps ls) (hmode : s.mode = .data) :
    ps = [] ∨ (s.rest = [] ∧ ∃ v, ps.getLast? = some ⟨.text, v⟩) ∨
      ∃ tag v, ps.getLast? = some ⟨tag.endKind, v⟩ ∧ lx.Ends tag v := by
  cases h with
  | start => exact Or.inl rfl
  | @step s₀ _ ps qs ls₀ _ hpath _ _ hmoves hread _ _ =>
    have hn : s₀.toStacks.Nested := by
      rw [hpath.stacks_eq]
      exact hpath.layered.nested Stacks.nested_start
    obtain rfl | ⟨tag, v, hlast, hends⟩ := hmoves.move.getLast?_of_data hn hmode
    · exact Or.inr (Or.inl ⟨hread.rest_of_eq (by simp), s₀.rest, List.getLast?_concat⟩)
    · exact Or.inr (Or.inr ⟨tag, v, by rw [List.getLast?_append, hlast, Option.some_or], hends⟩)

theorem Piece.suffix_of_getLast? {p : Piece} (h : ps.getLast? = some p) : p.value <:+ texts ps := by
  obtain ⟨qs, rfl⟩ := List.getLast?_eq_some_iff.1 h
  simp

end

/-! ## In the standard dialect -/

theorem mem_lineBreakAt {t : Text} {c : Char} (h : c ∈ lineBreakAt t) : c = '\r' ∨ c = '\n' := by
  unfold lineBreakAt at h
  split at h <;> simp_all

theorem Dialect.Ends.exists_eq {tag : Tag} {v : Text} (h : standard.Ends tag v) :
    ∃ c ∈ ['}', '%', '#'], ∃ t, v = c :: '}' :: lineBreakAt t := by
  cases h with
  | print => exact ⟨'}', by decide, [], rfl⟩
  | block t => exact ⟨'%', by decide, t, rfl⟩
  | comment t => exact ⟨'#', by decide, t, rfl⟩

theorem Dialect.Ends.brace_mem {tag : Tag} {v : Text} (h : standard.Ends tag v) : '}' ∈ v := by
  obtain ⟨c, -, t, rfl⟩ := h.exists_eq
  simp

theorem Dialect.Ends.ne_nil {tag : Tag} {v : Text} (h : standard.Ends tag v) : v ≠ [] :=
  List.ne_nil_of_mem h.brace_mem

theorem Dialect.Ends.not_mem {tag : Tag} {v : Text} (h : standard.Ends tag v) : '{' ∉ v := by
  obtain ⟨c, hc, t, rfl⟩ := h.exists_eq
  simp only [List.mem_cons, not_or]
  refine ⟨?_, by decide, fun hmem => ?_⟩
  · rintro rfl
    revert hc
    decide
  · obtain hbreak | hbreak := mem_lineBreakAt hmem <;> cases hbreak

/-- What the end of a tag ends with. -/
theorem Dialect.Ends.getLast_mem {tag : Tag} {v : Text} (h : standard.Ends tag v) :
    v.getLast h.ne_nil ∈ ['}', '\r', '\n'] := by
  have hlast := List.getLast?_eq_some_getLast h.ne_nil
  generalize v.getLast h.ne_nil = c at hlast
  obtain ⟨c', -, t, rfl⟩ := h.exists_eq
  rw [List.getLast?_cons_cons, List.getLast?_cons] at hlast
  obtain rfl := Option.some.inj hlast
  cases hbreak : (lineBreakAt t).getLast? with
  | none => decide
  | some b => obtain rfl | rfl := mem_lineBreakAt (List.mem_of_getLast? hbreak) <;> decide

/-- Where the end of a tag stands, no tag start ends. -/
theorem Dialect.Ends.not_suffix {tag : Tag} {v before piece : Text} {t : TagStart}
    (h : standard.Ends tag v) (hpiece : piece ⊆ standard.startText t) (hne : piece ≠ []) :
    ¬ v <:+ before ++ piece := by
  rintro ⟨rest, hrest⟩
  have hlast := congrArg List.getLast? hrest
  rw [List.getLast?_append, List.getLast?_append, List.getLast?_eq_some_getLast h.ne_nil,
    List.getLast?_eq_some_getLast hne, Option.some_or, Option.some_or, Option.some.injEq] at hlast
  have hmem := hpiece (List.getLast_mem hne)
  have hapart : ∀ (tag : Tag) (m : Option Trim),
      (standard.opening tag ++ standard.modifierText m).any (['}', '\r', '\n'].contains ·) =
        false := by
    rintro (_ | _ | _) (_ | _ | _) <;> decide
  exact List.any_eq_false.1 (hapart t.tag t.modifier) _ hmem
    (List.contains_iff_mem.2 (hlast ▸ h.getLast_mem))

/-- No line break goes on behind the end of a tag, if none begins there or the tag is a print
tag. -/
theorem Dialect.Ends.lineBreakAt_append {tag : Tag} {v t more : Text} (h : standard.Ends tag v)
    (hv : v <:+ t) (hmore : v ≠ standard.print.closing → ∀ c ∈ more.head?, isLineBreak c = false)
    {closing rest : Text}
    (hclosing : closing = standard.block.closing ∨ closing = standard.comment.closing)
    (hrest : closing ++ rest <:+ t) : lineBreakAt (rest ++ more) = lineBreakAt rest := by
  by_cases hprint : v = standard.print.closing
  · subst hprint
    have hsuffix : standard.print.closing <:+ closing ++ rest := by
      refine List.suffix_of_suffix_length_le hv hrest ?_
      rcases hclosing with rfl | rfl <;> exact Nat.le_add_left 2 _
    refine lineBreakAt_append_of_ne ?_ ?_
    · rintro rfl
      rcases hclosing with rfl | rfl <;> revert hsuffix <;> decide
    · rintro rfl
      rcases hclosing with rfl | rfl <;> revert hsuffix <;> decide
  · exact TemplateTokens.lineBreakAt_append (hmore hprint) rest

/-- In front of the end of a tag, the end of a print tag does not begin without ending. -/
theorem Dialect.Ends.eq_print_closing {tag : Tag} {v t rest : Text} (h : standard.Ends tag v)
    (hv : v <:+ t) {m : Option Trim} (ht : t = standard.modifierText m ++ rest)
    (hrest : rest <+: standard.print.closing) : rest = standard.print.closing := by
  obtain ⟨c, hc, u, rfl⟩ := h.exists_eq
  refine hrest.eq_of_length_le (Nat.not_lt.1 fun hshort => ?_)
  have hone : rest.length ≤ 1 := Nat.le_of_lt_succ hshort
  have hlength := hv.length_le
  rw [ht] at hv hlength
  simp only [List.length_cons, List.length_append] at hlength
  cases m with
  | none =>
    rw [show (standard.modifierText none).length = 0 from rfl] at hlength
    omega
  | some trim =>
    -- then the text is the marker and one more character, and begins with neither brace nor sign
    rw [show (standard.modifierText (some trim)).length = 1 from rfl] at hlength
    have hall := hv.eq_of_length_le (by
      simp only [List.length_cons, List.length_append, Dialect.modifierText, List.length_nil]
      omega)
    have hmarker : c = standard.marker trim := (List.cons.inj hall).1
    rw [hmarker] at hc
    revert hc
    cases trim <;> decide

namespace Lexicon.Path

variable {source : Text} {s : State} {ps : List Piece} {ls : List Layer}

/-- Between tags, the next tag start is what a search from the position finds. -/
theorem fresh (h : standard.Path source s ps ls) (hmode : s.mode = .data) :
    s.Fresh Dialect.standard := by
  have hd : standard.defect? = none := Dialect.defect?_standard
  refine ((h.eq_tagStartFrom?_iff hd).2 ?_).trans h.tagStartFrom?_eq
  rintro ⟨t, ht, hnew, u, hu, hlt⟩
  obtain ⟨passed, hall, hpassed⟩ := h.passed hd
  have hbefore : t.start < s.position.offset := by
    rw [hall] at ht
    exact hpassed t ((List.mem_append.1 ht).resolve_right hnew)
  rw [h.tagStartFrom?_eq] at hu
  have hle := Dialect.le_start_of_firstTagStart? hu
  have hne : s.rest ≠ [] := by
    intro hnil
    rw [hnil] at hu
    cases hu
  -- the position is inside of the tag start `t`, behind the character that a tag ends with
  obtain ⟨before, after, hsource, hstart⟩ := Dialect.stands_of_mem_tagStarts hd ht
  have hstop := Dialect.tagStop_eq standard.toDialect t
  rw [h.source_eq] at hsource
  rw [h.offset_eq] at hbefore hle
  obtain rfl | ⟨hnil, -⟩ | ⟨tag, v, hlast, hends⟩ := h.getLast?_of_data hmode
  · exact absurd hbefore (Nat.not_lt_zero _)
  · exact absurd hnil hne
  obtain ⟨x, rfl, -⟩ | ⟨x, hx, hsource⟩ := List.append_eq_append_iff.1 hsource
  · rw [byteSize_append] at hstart
    omega
  rw [hx, byteSize_append] at hbefore hle
  obtain ⟨y, rfl, -⟩ | ⟨y, hy, -⟩ := List.append_eq_append_iff.1 hsource
  · rw [byteSize_append] at hle
    omega
  have hxne : x ≠ [] := by
    rintro rfl
    rw [byteSize_nil] at hbefore
    omega
  have hsub : x ⊆ standard.startText t := hy ▸ List.subset_append_left x y
  exact hends.not_suffix hsub hxne (hx ▸ suffix_of_getLast? hlast)

end Lexicon.Path

end TemplateTokens
