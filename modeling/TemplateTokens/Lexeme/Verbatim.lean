import TemplateTokens.Text.Search
import TemplateTokens.Dialect.Basic

/-!
# Verbatim tags

A verbatim block stands between two block tags that hold one word each. The opening tag is
recognised where a block tag starts; the closing tag is searched for, and nothing before it has a
meaning.

Results:

* `Dialect.wordTag?_sound`: a tag found is the beginning of the text.
-/

namespace TemplateTokens

/-- A block tag that holds one word and blanks around it. -/
structure VerbatimTag where
  openModifier : Option Trim
  leading : Text
  word : Text
  trailing : Text
  closeModifier : Option Trim
deriving DecidableEq, Repr

namespace Dialect

variable (d : Dialect)

/-- The block tag at the start of a text whose content is `word`. -/
def wordTag? (word t : Text) : Option VerbatimTag :=
  (d.block.opening.isPrefixOf? t).bind fun inside =>
    let trailing? (rest : Text) : Option (Text × Option Trim) :=
      (word.isPrefixOf? rest).bind fun rest =>
        (afterBlanks? (d.afterModifier? d.block.closing.isPrefixOf?) rest).map
          fun (trailing, m, _) => (trailing, m)
    (d.afterModifier? (afterBlanks? trailing?) inside).map
      fun (openModifier, leading, trailing, closeModifier) =>
        ⟨openModifier, leading, word, trailing, closeModifier⟩

/-- The tag that opens a verbatim block, at the start of a text. -/
def verbatimOpen? (t : Text) : Option VerbatimTag := d.wordTag? "verbatim".toList t

/-- The first tag in a text that closes a verbatim block, with the text before it. -/
def verbatimClose? (t : Text) : Option (Text × VerbatimTag) :=
  search? (d.wordTag? "endverbatim".toList) t

variable {d}

theorem wordTag?_sound {word t : Text} {tag : VerbatimTag} (h : d.wordTag? word t = some tag) :
    d.block.opening ++ (d.modifierText tag.openModifier ++ (tag.leading ++ (tag.word ++
      (tag.trailing ++ (d.modifierText tag.closeModifier ++ d.block.closing))))) <+: t ∧
      tag.word = word := by
  simp only [wordTag?, Option.bind_eq_some_iff, Option.map_eq_some_iff, Prod.exists] at h
  obtain ⟨inside, hopen, openModifier, leading, trailing, closeModifier, hinside, rfl⟩ := h
  obtain ⟨t₁, rfl, h₁⟩ := afterModifier?_sound hinside
  obtain ⟨t₂, rfl, -, h₂⟩ := afterBlanks?_sound h₁
  simp only [Option.bind_eq_some_iff, Option.map_eq_some_iff, Prod.exists, Prod.mk.injEq] at h₂
  obtain ⟨t₃, hword, _, _, v, h₃, rfl, rfl⟩ := h₂
  obtain ⟨t₄, rfl, -, h₄⟩ := afterBlanks?_sound h₃
  obtain ⟨t₅, rfl, hclose⟩ := afterModifier?_sound h₄
  rw [← isPrefixOf?_eq_some_iff.1 hopen, ← isPrefixOf?_eq_some_iff.1 hword,
    ← isPrefixOf?_eq_some_iff.1 hclose]
  simp only [List.prefix_append_right_inj, List.prefix_append, and_self]

end Dialect

end TemplateTokens
