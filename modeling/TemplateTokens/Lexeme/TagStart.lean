import TemplateTokens.Ranking
import TemplateTokens.Dialect.Basic

/-!
# Tag starts

A tag starts with its opening delimiter and the trim marker behind it, if there is one. Where two
opening delimiters fit, the longer one counts. The tag starts of a template are found from left to
right, each search beginning where the last find ended.

Results:

* `Dialect.mem_tagOrder`: every tag is looked for.
* `Dialect.tagAt?_sound`: what is found is the beginning of the text.
-/

namespace TemplateTokens

/-- The start of a tag: which tag, the byte offset of its delimiter, and the trim asked for behind
the delimiter. -/
structure TagStart where
  tag : Tag
  start : Nat
  modifier : Option Trim
deriving DecidableEq, Repr, Inhabited

namespace Dialect

variable (d : Dialect)

/-- The offset of the end of the delimiter. -/
def modifierStart (s : TagStart) : Nat := s.start + byteSize (d.opening s.tag)

/-- The offset of the end of a tag start. -/
def tagStop (s : TagStart) : Nat := d.modifierStart s + byteSize (d.modifierText s.modifier)

/-- The tags as they are looked for, the ones with longer delimiters first. -/
def tagOrder : List Tag := largestFirst (fun t => byteSize (d.opening t)) [.print, .block, .comment]

theorem mem_tagOrder (t : Tag) : t ∈ d.tagOrder := mem_largestFirst.2 (by cases t <;> decide)

/-- The tag that starts where a text starts, and the trim asked for. -/
def tagAt? (t : Text) : Option (Tag × Option Trim) :=
  d.tagOrder.findSome? fun tag =>
    ((d.opening tag).isPrefixOf? t).map fun rest => (tag, d.modifierAt rest)

theorem tagAt?_sound {t : Text} {tag : Tag} {m : Option Trim} (h : d.tagAt? t = some (tag, m)) :
    d.opening tag <+: t := by
  obtain ⟨tag', -, h⟩ := List.exists_of_findSome?_eq_some h
  simp only [Option.map_eq_some_iff, Prod.mk.injEq] at h
  obtain ⟨rest, hrest, rfl, -⟩ := h
  exact ⟨rest, isPrefixOf?_eq_some_iff.1 hrest⟩

/-- The number of characters of a tag start. -/
def tagLength (tag : Tag) (m : Option Trim) : Nat :=
  (d.opening tag).length + (d.modifierText m).length

/-- The tag starts of a text that begins at byte `offset` of the template, without those in its
first `skip` characters. -/
def tagStartsFrom (offset : Nat) : Nat → Text → List TagStart
  | _, [] => []
  | skip + 1, c :: t => tagStartsFrom (offset + c.utf8Size) skip t
  | 0, c :: t =>
    match d.tagAt? (c :: t) with
    | some (tag, m) =>
      ⟨tag, offset, m⟩ :: tagStartsFrom (offset + c.utf8Size) (d.tagLength tag m - 1) t
    | none => tagStartsFrom (offset + c.utf8Size) 0 t

/-- The tag starts of a template. -/
def tagStarts (source : Text) : List TagStart := d.tagStartsFrom 0 0 source

/-- The first tag start of a text that begins at byte `offset` of the template. -/
def firstTagStart? (offset : Nat) : Text → Option TagStart
  | [] => none
  | c :: t =>
    match d.tagAt? (c :: t) with
    | some (tag, m) => some ⟨tag, offset, m⟩
    | none => firstTagStart? (offset + c.utf8Size) t

/-- The first tag start of a template at or behind byte `start`. -/
def tagStartFrom? (source : Text) (start : Nat) : Option TagStart :=
  let rest := dropBytes start source
  d.firstTagStart? (byteSize source - byteSize rest) rest

end Dialect

end TemplateTokens
