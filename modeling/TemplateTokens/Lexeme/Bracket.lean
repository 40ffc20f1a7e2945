import TemplateTokens.Text.Basic

/-!
# Brackets and separators

Three pairs of brackets group the expressions inside tags; five further characters separate their
parts.
-/

namespace TemplateTokens

/-- The brackets that open a group, each with the one that closes it. -/
def brackets : List (Text × Text) := [(['('], [')']), (['['], [']']), (['{'], ['}'])]

/-- The bracket that closes what `opener` opens. -/
def closerOf? (opener : Text) : Option Text :=
  (brackets.find? fun p => p.1 == opener).map Prod.snd

/-- Whether a text is a closing bracket. -/
def isClosingBracket (t : Text) : Bool := brackets.any fun p => p.2 == t

/-- The characters that separate the parts of an expression. -/
def isSeparator (c : Char) : Bool := c = '?' || c = ':' || c = '.' || c = ',' || c = '|'

end TemplateTokens
