import TemplateTokens.Token.Kind
import TemplateTokens.Lexeme.Bracket
import TemplateTokens.Lexeme.Operator
import TemplateTokens.Lexeme.Quoted
import TemplateTokens.Lexeme.Word

/-!
# The pieces of an expression

What stands between the blanks inside a tag, told from the text alone: operators before names,
names before numbers, then brackets and separators, and strings last.

Results:

* `Lexicon.ofDialect_toDialect`: a lexicon belongs to the dialect it was made from.
-/

namespace TemplateTokens

/-- A dialect with its operators ready to be tried. -/
structure Lexicon extends Dialect where
  ranked : List Operator

namespace Lexicon

/-- The lexicon of a dialect. -/
def ofDialect (d : Dialect) : Lexicon := ⟨d, vocabulary d.operators⟩

@[simp] theorem ofDialect_toDialect (d : Dialect) : (ofDialect d).toDialect = d := rfl

end Lexicon

/-- A piece of an expression. -/
inductive Lexeme where
  /-- An operator, a name, a number or a separator. -/
  | plain (kind : Token.Kind) (value : Text)
  /-- A bracket that opens a group, and the one that will close it. -/
  | opening (bracket closer : Text)
  /-- A bracket that closes a group. -/
  | closing (bracket : Char)
  /-- A whole string. -/
  | quoted (string : QuotedString)
  /-- The quote before a string that is read in pieces. -/
  | quote
deriving DecidableEq, Repr

/-- The piece of an expression that a text which is not empty starts with. -/
def Lexicon.lexemeAt? (lx : Lexicon) (first : Char) (t : Text) : Option Lexeme :=
  match operatorAt? lx.ranked t with
  | some v => some (.plain .operator v)
  | none =>
    match name? t with
    | some v => some (.plain .name v)
    | none =>
      match number? t with
      | some v => some (.plain .number v)
      | none =>
        match closerOf? [first] with
        | some closer => some (.opening [first] closer)
        | none =>
          if isClosingBracket [first] then some (.closing first)
          else if isSeparator first then some (.plain .punctuation [first])
          else
            match lx.quotedString? t with
            | some string => some (.quoted string)
            | none => if first = '"' then some .quote else none

end TemplateTokens
