import TemplateTokens.Text.Basic

/-!
# Line breaks

A line ends at a carriage return, at a line feed, or at the pair of the two in this order, which
counts once.

Results:

* `lineBreakAt_append_drop`: a break found at the start of a text is its beginning.
-/

namespace TemplateTokens

/-- A character that is a line break or a half of one. -/
def isLineBreak (c : Char) : Bool := c = '\r' || c = '\n'

/-- The line break that a text begins with, empty if there is none. -/
def lineBreakAt : Text → Text
  | '\r' :: '\n' :: _ => ['\r', '\n']
  | '\r' :: _ => ['\r']
  | '\n' :: _ => ['\n']
  | _ => []

theorem lineBreakAt_append_drop (t : Text) :
    lineBreakAt t ++ t.drop (lineBreakAt t).length = t := by
  unfold lineBreakAt; split <;> simp

/-- The number of line breaks in a text. -/
def countLineBreaks : Text → Nat
  | [] => 0
  | '\r' :: '\n' :: t => countLineBreaks t + 1
  | c :: t => if isLineBreak c then countLineBreaks t + 1 else countLineBreaks t

/-- The number of characters after the last line break of a text. -/
def lastLineLength (t : Text) : Nat := (t.reverse.takeWhile (fun c => !isLineBreak c)).length

end TemplateTokens
