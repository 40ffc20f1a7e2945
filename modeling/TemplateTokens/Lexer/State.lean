import TemplateTokens.SyntaxError
import TemplateTokens.Lexeme.TagStart

/-!
# The state of a run

A run reads a template from left to right. Its state holds the position and what remains of the
template, the part of the template it is in and those around it, what has been opened and not yet
closed, and the tokens so far.

Results:

* `State.rest_emit`: a token that is the beginning of the rest is taken off it.
* `State.offset_emit`, `State.location_emit`: the position moves over the token.
-/

namespace TemplateTokens

/-- A bracket, a quote or an interpolation that is open. -/
structure Scope where
  opener : Text
  closer : Text
  openedAt : Location
deriving DecidableEq, Repr, Inhabited

/-- The part of a template that is being read. -/
inductive Mode where
  /-- Text between tags. -/
  | data
  /-- The content of a block tag. -/
  | block
  /-- The content of a print tag. -/
  | print
  /-- A double-quoted string. -/
  | string
  /-- The content of an interpolation. -/
  | interpolation
deriving DecidableEq, Repr, Inhabited

/-- The state of a run. -/
structure State where
  position : Position
  /-- What remains of the template behind the position. -/
  rest : Text
  mode : Mode
  /-- The parts around the one that is being read, innermost first. -/
  outer : List Mode
  /-- What is open, innermost first. -/
  scopes : List Scope
  tokens : Array Token
  /-- The tag starts of the whole template that have not been passed. -/
  tagStarts : List TagStart
  /-- Where the last tag started. -/
  tagOpenedAt : Location
deriving DecidableEq, Repr

namespace State

/-- The state before the first character of a template. -/
def start (d : Dialect) (source : Text) : State where
  position := Position.start
  rest := source
  mode := .data
  outer := []
  scopes := []
  tokens := #[]
  tagStarts := d.tagStarts source
  tagOpenedAt := Location.start

/-! ## Emitting tokens -/

/-- Adds a token and moves over its text. -/
def emit (s : State) (kind : Token.Kind) (value : Text) : State :=
  { s with
    position := s.position.advance value
    rest := dropBytes (byteSize value) s.rest
    tokens := s.tokens.push ⟨kind, some value, s.position.toLocation⟩ }

/-- Adds a token unless its text is empty. -/
def emitSome (s : State) (kind : Token.Kind) (value : Text) : State :=
  if value.isEmpty then s else s.emit kind value

/-- Adds a token for the blanks at the position, if there are any. -/
def emitBlanks (s : State) : State := s.emitSome .whitespace (blanks s.rest)

/-- Adds a token for a trim marker, if there is one. -/
def emitTrim (s : State) (d : Dialect) (modifier : Option Trim) : State :=
  match modifier with
  | none => s
  | some .whole => s.emit .trimming [d.trim]
  | some .line => s.emit .lineTrimming [d.lineTrim]

theorem rest_emit {s : State} {kind : Token.Kind} {value rest : Text}
    (h : s.rest = value ++ rest) : (s.emit kind value).rest = rest := by
  simp [emit, h, dropBytes_append]

@[simp] theorem offset_emit (s : State) (kind : Token.Kind) (value : Text) :
    (s.emit kind value).position.offset = s.position.offset + byteSize value := rfl

@[simp] theorem location_emit (s : State) (kind : Token.Kind) (value : Text) :
    (s.emit kind value).position.toLocation = s.position.toLocation.advance value := rfl

/-! ## Modes and scopes -/

/-- Goes into a part of the template. -/
def enter (s : State) (mode : Mode) : State := { s with mode, outer := s.mode :: s.outer }

/-- Goes back to the part around the present one. -/
def leave (s : State) : State :=
  { s with mode := s.outer.headD .data, outer := s.outer.tail }

/-- Opens a scope at the position. -/
def openScope (s : State) (opener closer : Text) : State :=
  { s with scopes := ⟨opener, closer, s.position.toLocation⟩ :: s.scopes }

/-- Closes the innermost scope. -/
def closeScope (s : State) : State := { s with scopes := s.scopes.tail }

/-- An error at the position. -/
def error (s : State) (cause : SyntaxError.Cause) : SyntaxError := ⟨cause, s.position.toLocation⟩

/-- An error at the end of the template. -/
def errorAtEnd (s : State) (cause : SyntaxError.Cause) : SyntaxError :=
  ⟨cause, s.position.toLocation.advance s.rest⟩

/-! ## The next tag -/

/-- The next tag start, and the state in which those before the position and it are passed. If
one of those just passed reaches over the position, a later tag start may begin inside of it, and
the search is made anew from the position. -/
def nextTagStart (s : State) (d : Dialect) : Option TagStart × State :=
  let passed := s.tagStarts.takeWhile fun t => t.start < s.position.offset
  let ahead := s.tagStarts.dropWhile fun t => t.start < s.position.offset
  if passed.any fun t => s.position.offset < d.tagStop t then
    (d.firstTagStart? s.position.offset s.rest, { s with tagStarts := ahead })
  else (ahead.head?, { s with tagStarts := ahead.tail })

end State

end TemplateTokens
