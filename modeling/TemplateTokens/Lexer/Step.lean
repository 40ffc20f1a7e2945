import TemplateTokens.Lexeme.Basic
import TemplateTokens.Lexeme.TagEnd
import TemplateTokens.Lexeme.Verbatim
import TemplateTokens.Lexer.State

/-!
# The steps of a run

A step reads the next piece of a template in a way that depends on the part of the template the
run is in: text up to a tag and the start of the tag, the end of a tag or a piece of an
expression, a piece of a string, the end of an interpolation.
-/

namespace TemplateTokens

namespace State

variable (s : State) (lx : Lexicon)

/-! ## Expressions -/

/-- Closes a group, which must be what was opened last. -/
def closeBracket (bracket : Char) : Except SyntaxError State :=
  match s.scopes with
  | [] => .error (s.error (.unexpectedClosingBracket bracket))
  | scope :: _ =>
    if scope.closer = [bracket] then .ok (s.emit .punctuation [bracket]).closeScope
    else .error (s.error (.unclosedBracket scope.opener scope.openedAt))

/-- Takes a piece of an expression. -/
def takeLexeme : Lexeme → Except SyntaxError State
  | .plain kind value => .ok (s.emit kind value)
  | .opening bracket closer => .ok (s.openScope bracket closer |>.emit .punctuation bracket)
  | .closing bracket => s.closeBracket bracket
  | .quoted ⟨quote, body⟩ =>
    .ok (s.emit .openingQuote [quote]
      |>.emitSome .string body
      |>.emit .closingQuote [quote])
  | .quote => .ok (s.openScope ['"'] ['"'] |>.emit .openingQuote ['"'] |>.enter .string)

/-- Reads blanks and one piece of an expression. -/
def expressionStep : Except SyntaxError State :=
  let s := s.emitBlanks
  match s.rest with
  | [] => .ok s
  | c :: _ =>
    match lx.lexemeAt? c s.rest with
    | some lexeme => s.takeLexeme lexeme
    | none => .error (s.error (.unexpectedCharacter s.rest))

/-- Reads blanks and the end of a tag or a piece of an expression. A tag ends only where nothing
is open. -/
def tagStep (kind : Token.Kind) (end? : Text → Option TagEnd) : Except SyntaxError State :=
  let s := s.emitBlanks
  match if s.scopes.isEmpty then end? s.rest else none with
  | some e => .ok (s.emitTrim lx.toDialect e.modifier |>.emit kind e.delimiter |>.leave)
  | none => s.expressionStep lx

/-! ## Strings -/

/-- Reads the beginning of an interpolation, a piece of a string, or its closing quote. -/
def stringStep : State :=
  match lx.interpolationOpen? s.rest with
  | some blank =>
    let opening := lx.interpolation.opening
    s.openScope opening lx.interpolation.closing
      |>.emit .interpolationStart opening
      |>.emitSome .whitespace blank
      |>.enter .interpolation
  | none =>
    match stringPiece lx.interpolation.opening s.rest with
    | [] =>
      let closer := (s.scopes.head?.map Scope.closer).getD ['"']
      (s.closeScope.emit .closingQuote closer).leave
    | piece => s.emit .string piece

/-- Reads the end of an interpolation, if it is what was opened last, or a piece of an
expression. -/
def interpolationStep : Except SyntaxError State :=
  let innermost := (s.scopes.head?.map Scope.opener) == some lx.interpolation.opening
  match if innermost then lx.interpolationClose? s.rest else none with
  | some blank =>
    .ok (s.emitSome .whitespace blank
      |>.emit .interpolationEnd lx.interpolation.closing
      |>.closeScope
      |>.leave)
  | none => s.expressionStep lx

/-! ## Text, comments and verbatim blocks -/

/-- Reads the content and the end of a comment. -/
def commentStep : Except SyntaxError State :=
  let s := s.emitBlanks
  match lx.commentEnd? s.rest with
  | none => .error (s.errorAtEnd (.unclosed .comment s.tagOpenedAt))
  | some e =>
    .ok (s.emitSome .text e.before
      |>.emitSome .whitespace e.blank
      |>.emitTrim lx.toDialect e.modifier
      |>.emit .commentEnd e.delimiter)

/-- Reads one of the two tags of a verbatim block. -/
def emitVerbatimTag (tag : VerbatimTag) : State :=
  s.emit .blockStart lx.block.opening
    |>.emitTrim lx.toDialect tag.openModifier
    |>.emitSome .whitespace tag.leading
    |>.emit .name tag.word
    |>.emitSome .whitespace tag.trailing
    |>.emitTrim lx.toDialect tag.closeModifier
    |>.emit .blockEnd lx.block.closing

/-- Reads a verbatim block whose opening tag is known. -/
def verbatimStep (opening : VerbatimTag) : Except SyntaxError State :=
  let s := s.emitVerbatimTag lx opening
  match lx.verbatimClose? s.rest with
  | none => .error (s.errorAtEnd (.unclosed .verbatim s.tagOpenedAt))
  | some (body, closing) => .ok ((s.emitSome .text body).emitVerbatimTag lx closing)

/-- Reads the start of a tag; of a comment or a verbatim block, all of it. -/
def tagStartStep (t : TagStart) : Except SyntaxError State :=
  let s := { s with tagOpenedAt := s.position.toLocation }
  let begun (kind : Token.Kind) : State :=
    s.emit kind (lx.opening t.tag) |>.emitTrim lx.toDialect t.modifier
  match t.tag with
  | .comment => (begun .commentStart).commentStep lx
  | .print => .ok ((begun .printStart).enter .print)
  | .block =>
    match lx.verbatimOpen? s.rest with
    | some opening => s.verbatimStep lx opening
    | none => .ok ((begun .blockStart).enter .block)

/-- Reads text up to the next tag and the start of the tag, or all that remains. -/
def dataStep : Except SyntaxError State :=
  match s.nextTagStart lx.toDialect with
  | (none, s) => .ok (s.emitSome .text s.rest)
  | (some t, s) =>
    s.emitSome .text (takeBytes (t.start - s.position.offset) s.rest) |>.tagStartStep lx t

/-! ## Any part -/

/-- Reads the next piece of a template. -/
def step : Except SyntaxError State :=
  match s.mode with
  | .data => s.dataStep lx
  | .block => s.tagStep lx .blockEnd lx.blockEnd?
  | .print => s.tagStep lx .printEnd lx.printEnd?
  | .string => .ok (s.stringStep lx)
  | .interpolation => s.interpolationStep lx

end State

end TemplateTokens
