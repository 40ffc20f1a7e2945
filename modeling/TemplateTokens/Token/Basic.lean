import TemplateTokens.Position
import TemplateTokens.Token.Kind

/-!
# Tokens

A token is a kind, the piece of template it stands for, and the location of its first character.
The end of the template stands for no piece.
-/

namespace TemplateTokens

/-- A piece of a template with its kind and its location. -/
structure Token where
  kind : Token.Kind
  value : Option Text
  location : Location
deriving DecidableEq, Repr, Inhabited

namespace Token

/-- The token at the end of a template. -/
def eof (l : Location) : Token := ⟨.eof, none, l⟩

/-- The template text a token stands for, empty if it has none. -/
def text (t : Token) : Text := t.value.getD []

@[simp] theorem text_eof (l : Location) : (eof l).text = [] := rfl

/-- The location just behind a token. -/
def stop (t : Token) : Location := t.location.advance t.text

/-- A token is written as its label and its text in parentheses. -/
instance : ToString Token where
  toString t := s!"{t.kind.label}({String.ofList t.text})"

end Token

end TemplateTokens
