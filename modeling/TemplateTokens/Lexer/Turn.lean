import TemplateTokens.Lexer.Basic

/-!
# Turns

A run takes a turn as long as its cursor is before the end of the template, and a turn is a step.
It reads from the cursor on, and a template can only be cut between two characters. The cursor may
be inside of one: where a bracket was closed in place of the interpolation around it, the quote that
ends the string moves the cursor over the text of another closer. A run that has come there breaks
off, and there are neither tokens nor an error.
-/

namespace TemplateTokens

/-- What comes of a turn. -/
inductive Turn where
  /-- The cursor is inside a character. -/
  | torn
  | failed (e : SyntaxError)
  | moved (s : State)

/-- The tokens or the error of a run whose last turn this is. A run that breaks off has neither. -/
def Turn.tokens? : Turn → Option (Except SyntaxError (Array Token))
  | .torn => none
  | .failed e => some (.error e)
  | .moved s => some s.finish

/-- A turn of the run over a template. -/
def State.turn (lx : Lexicon) (source : Text) (s : State) : Turn :=
  if isBoundary s.position.offset source then
    match s.step lx with
    | .ok s' => .moved s'
    | .error e => .failed e
  else .torn

/-- Turns one after the other up to the end of the template, but at most `fuel` of them. -/
def turns (lx : Lexicon) (source : Text) : Nat → State → Turn
  | 0, s => .moved s
  | fuel + 1, s =>
    if s.position.offset < byteSize source then
      match s.turn lx source with
      | .moved s' => turns lx source fuel s'
      | last => last
    else .moved s

namespace Lexer

/-- What comes of the run over a template. Every turn moves the cursor, so the size of the template
bounds their number. -/
def lastTurn (l : Lexer) (source : Text) : Turn :=
  turns (.ofDialect l.dialect) source (byteSize source) (.start l.dialect source)

/-- Whether the run over a template breaks off. -/
def tears (l : Lexer) (source : Text) : Bool := (l.lastTurn source).tokens?.isNone

end Lexer

end TemplateTokens
