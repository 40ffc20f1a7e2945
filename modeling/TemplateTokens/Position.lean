import TemplateTokens.Text.LineBreak

/-!
# Locations and positions

A *location* is a line and a column, both counted from one; a column counts characters. A
*position* is a location with the byte offset that belongs to it. Moving over a text reads off
the number of its line breaks and the length of its last line.

Results:

* `Location.advance_nil`, `Position.advance_nil`: the empty text moves nothing.
* `Position.offset_advance`: the offset grows by the size of the text.
-/

namespace TemplateTokens

/-! ## Locations -/

/-- A line and a column of a template. -/
structure Location where
  line : Nat
  column : Nat
deriving DecidableEq, Repr, Inhabited

namespace Location

/-- The location of the first character of a template. -/
def start : Location := ⟨1, 1⟩

/-- Earlier lines come first, and earlier columns of one line. -/
instance : Ord Location where
  compare a b := (compare a.line b.line).then (compare a.column b.column)

/-- A location is written as line and column between braces. -/
instance : ToString Location where
  toString l := s!"\x7b{l.line}:{l.column}\x7d"

/-- The location reached from `l` by reading `t`. -/
def advance (l : Location) (t : Text) : Location :=
  let breaks := countLineBreaks t
  if breaks = 0 then ⟨l.line, l.column + t.length⟩
  else ⟨l.line + breaks, 1 + lastLineLength t⟩

@[simp] theorem advance_nil (l : Location) : l.advance [] = l := rfl

end Location

/-! ## Positions -/

/-- A location and its offset in bytes from the start of the template. -/
structure Position extends Location where
  offset : Nat
deriving DecidableEq, Repr, Inhabited

namespace Position

/-- The position of the first character of a template. -/
def start : Position := ⟨Location.start, 0⟩

/-- The position reached from `p` by reading `t`. -/
def advance (p : Position) (t : Text) : Position :=
  ⟨p.toLocation.advance t, p.offset + byteSize t⟩

@[simp] theorem advance_nil (p : Position) : p.advance [] = p := rfl

@[simp] theorem offset_advance (p : Position) (t : Text) :
    (p.advance t).offset = p.offset + byteSize t := rfl

@[simp] theorem toLocation_advance (p : Position) (t : Text) :
    (p.advance t).toLocation = p.toLocation.advance t := rfl

end Position

end TemplateTokens
