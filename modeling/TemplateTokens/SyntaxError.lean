import TemplateTokens.Token.Constraint

/-!
# Syntax errors

A syntax error has a cause and the location where it came to light. What a construct left open
reports beside it is the location where the construct began.
-/

namespace TemplateTokens

/-- The tags and blocks that a template may leave open. -/
inductive Construct where
  | print
  | block
  | comment
  | verbatim
deriving DecidableEq, Repr, Inhabited

/-- The word for a construct in an error message. -/
def Construct.word : Construct → String
  | .print => "variable"
  | .block => "block"
  | .comment => "comment"
  | .verbatim => "verbatim"

/-- Why a template has no tokens, or why a token could not be taken from a stream. -/
inductive SyntaxError.Cause where
  /-- Nothing that may stand in a tag begins here; all that remains of the template. -/
  | unexpectedCharacter (remaining : Text)
  /-- A closing bracket where no bracket is open. -/
  | unexpectedClosingBracket (bracket : Char)
  /-- A closing bracket that does not fit what was opened last. -/
  | unclosedBracket (opener : Text) (openedAt : Location)
  /-- The template ends inside a tag or block. -/
  | unclosed (construct : Construct) (openedAt : Location)
  /-- The template ends inside a bracket, a string or an interpolation. -/
  | unclosedScope (opener : Text) (openedAt : Location)
  /-- A stream has no further token. -/
  | unexpectedEnd
  /-- A stream has another token than the one expected. -/
  | unexpectedToken (found : Token.Kind) (value : Text) (expected : Token.Kind)
      (expectedValue : Option Text)
deriving DecidableEq, Repr

/-- The message for a cause. -/
def SyntaxError.Cause.message : SyntaxError.Cause → String
  | .unexpectedCharacter remaining => s!"Unexpected character \"{String.ofList remaining}\"."
  | .unexpectedClosingBracket bracket => s!"Unexpected \"{bracket}\"."
  | .unclosedBracket opener openedAt =>
    s!"Unclosed bracket \"{String.ofList opener}\" opened at {openedAt}."
  | .unclosed construct openedAt =>
    s!"Unexpected end of file: unclosed {construct.word} opened at {openedAt}."
  | .unclosedScope opener openedAt =>
    s!"Unexpected end of file: unclosed \"{String.ofList opener}\" opened at {openedAt}."
  | .unexpectedEnd => "Unexpected end of template."
  | .unexpectedToken found value expected none =>
    s!"Unexpected token \"{found}\" of value \"{String.ofList value}\" (\"{expected}\" expected)."
  | .unexpectedToken found value expected (some expectedValue) =>
    s!"Unexpected token \"{found}\" of value \"{String.ofList value}\" (\"{expected}\" expected with value \"{String.ofList expectedValue}\")."

/-- A cause and the location where it came to light. -/
structure SyntaxError where
  cause : SyntaxError.Cause
  location : Location
deriving DecidableEq, Repr

namespace SyntaxError

/-- The message without the location. -/
def message (e : SyntaxError) : String := e.cause.message

/-- The message with the location behind it. -/
instance : ToString SyntaxError where
  toString e := s!"{e.message} at line {e.location.line}, column {e.location.column}"

end SyntaxError

end TemplateTokens
