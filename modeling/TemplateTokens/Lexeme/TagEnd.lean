import TemplateTokens.Text.LineBreak
import TemplateTokens.Text.Search
import TemplateTokens.Dialect.Basic

/-!
# Tag ends

A tag ends with its closing delimiter and the trim marker before it, if there is one. The ends of
block tags and comments take the line break behind them along; those of print tags leave it. The
end of a comment is searched for, and the blanks before it belong to it.

Results:

* `closingLine?_sound`: a delimiter found with its line break is the beginning of the text.
* `Dialect.blockEnd?_sound`, `Dialect.printEnd?_sound`, `Dialect.commentEnd?_sound`: so is a tag end
  with its marker, and so is what a comment has before its end.
-/

namespace TemplateTokens

/-- The end of a print or block tag. -/
structure TagEnd where
  modifier : Option Trim
  delimiter : Text
deriving DecidableEq, Repr

/-- The end of a comment, with the rest of the comment before it. -/
structure CommentEnd extends TagEnd where
  before : Text
  blank : Text
deriving DecidableEq, Repr

/-- A delimiter at the start of a text, with the line break behind it. -/
def closingLine? (delimiter t : Text) : Option Text :=
  (delimiter.isPrefixOf? t).map fun rest => delimiter ++ lineBreakAt rest

theorem closingLine?_sound {delimiter t v : Text} (h : closingLine? delimiter t = some v) :
    v <+: t := by
  simp only [closingLine?, Option.map_eq_some_iff] at h
  obtain ⟨rest, hrest, rfl⟩ := h
  refine ⟨rest.drop (lineBreakAt rest).length, ?_⟩
  rw [List.append_assoc, lineBreakAt_append_drop]
  exact isPrefixOf?_eq_some_iff.1 hrest

theorem prefix_of_closingLine? {delimiter t v : Text} (h : closingLine? delimiter t = some v) :
    delimiter <+: v := by
  simp only [closingLine?, Option.map_eq_some_iff] at h
  obtain ⟨rest, -, rfl⟩ := h
  exact List.prefix_append _ _

namespace Dialect

variable (d : Dialect)

/-- The end of a block tag at the start of a text. -/
def blockEnd? (t : Text) : Option TagEnd :=
  (d.afterModifier? (closingLine? d.block.closing) t).map fun (m, delimiter) => ⟨m, delimiter⟩

/-- The end of a print tag at the start of a text. -/
def printEnd? (t : Text) : Option TagEnd :=
  (d.afterModifier? d.print.closing.isPrefixOf? t).map fun (m, _) => ⟨m, d.print.closing⟩

/-- The first end of a comment in a text. -/
def commentEnd? (t : Text) : Option CommentEnd :=
  (search? (afterBlanks? (d.afterModifier? (closingLine? d.comment.closing))) t).map
    fun (before, blank, m, delimiter) => ⟨⟨m, delimiter⟩, before, blank⟩

variable {d}

theorem blockEnd?_sound {t : Text} {e : TagEnd} (h : d.blockEnd? t = some e) :
    d.modifierText e.modifier ++ e.delimiter <+: t ∧ d.block.closing <+: e.delimiter := by
  simp only [blockEnd?, Option.map_eq_some_iff, Prod.exists] at h
  obtain ⟨m, v, h, rfl⟩ := h
  obtain ⟨rest, rfl, hv⟩ := afterModifier?_sound h
  exact ⟨(List.prefix_append_right_inj _).2 (closingLine?_sound hv), prefix_of_closingLine? hv⟩

theorem printEnd?_sound {t : Text} {e : TagEnd} (h : d.printEnd? t = some e) :
    d.modifierText e.modifier ++ e.delimiter <+: t ∧ e.delimiter = d.print.closing := by
  simp only [printEnd?, Option.map_eq_some_iff, Prod.exists] at h
  obtain ⟨m, v, h, rfl⟩ := h
  obtain ⟨rest, rfl, hv⟩ := afterModifier?_sound h
  refine ⟨(List.prefix_append_right_inj _).2 ?_, rfl⟩
  exact ⟨v, isPrefixOf?_eq_some_iff.1 hv⟩

theorem commentEnd?_sound {t : Text} {e : CommentEnd} (h : d.commentEnd? t = some e) :
    e.before ++ (e.blank ++ (d.modifierText e.modifier ++ e.delimiter)) <+: t ∧
      d.comment.closing <+: e.delimiter := by
  simp only [commentEnd?, Option.map_eq_some_iff, Prod.exists] at h
  obtain ⟨before, blank, m, v, h, rfl⟩ := h
  obtain ⟨after, rfl, hafter⟩ := search?_sound h
  obtain ⟨after, rfl, -, hafter⟩ := afterBlanks?_sound hafter
  obtain ⟨rest, rfl, hv⟩ := afterModifier?_sound hafter
  simp only [List.prefix_append_right_inj]
  exact ⟨closingLine?_sound hv, prefix_of_closingLine? hv⟩

end Dialect

end TemplateTokens
