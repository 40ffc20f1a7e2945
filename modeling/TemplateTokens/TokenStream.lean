import TemplateTokens.Lexer.Basic

/-!
# Token streams

A stream is a row of tokens that ends with the end of the template, and a cursor on one of them.
Whoever reads it looks at the token under the cursor, moves over it when it is the expected one,
looks ahead, puts tokens in front of the cursor, or goes back to the beginning. An operation that
fails leaves the stream as it is.

Results:

* `TokenStream.size_pos`: no stream is empty.
* `TokenStream.next_of_lt`, `TokenStream.next_of_not_lt`: the cursor moves unless it is on the
  last token.
* `TokenStream.expect_eq`: a token is refused exactly where the test fails.
-/

namespace TemplateTokens

/-- A row of tokens with a cursor on one of them. -/
structure TokenStream where
  tokens : Array Token
  cursor : Nat
  /-- The template the tokens were made from, where it is known. -/
  source : Option Text
  cursor_lt : cursor < tokens.size

namespace TokenStream

theorem size_pos (s : TokenStream) : 0 < s.tokens.size := Nat.zero_lt_of_lt s.cursor_lt

/-! ## Making streams -/

/-- A row of tokens with the end of the template behind it, if that is missing. -/
def terminated (tokens : Array Token) : Array Token :=
  match tokens.back? with
  | none => #[.eof Location.start]
  | some last => if last.kind = .eof then tokens else tokens.push (.eof last.stop)

theorem terminated_size_pos (tokens : Array Token) : 0 < (terminated tokens).size := by
  unfold terminated
  split
  · simp
  · rename_i last h
    split
    · rw [Array.back?_eq_getElem?] at h
      obtain ⟨hlt, -⟩ := Array.getElem?_eq_some_iff.1 h
      omega
    · simp

/-- The stream of a row of tokens, with the cursor on the first. -/
def ofTokens (tokens : Array Token) (source : Option Text) : TokenStream where
  tokens := terminated tokens
  cursor := 0
  source := source
  cursor_lt := terminated_size_pos tokens

/-! ## Looking -/

/-- The token under the cursor. -/
def current (s : TokenStream) : Token :=
  have := s.cursor_lt
  s.tokens[s.cursor]

/-- Whether the token under the cursor is of a kind and meets a constraint. -/
def test (s : TokenStream) (kind : Token.Kind) (constraint : Option Constraint) : Bool :=
  s.current.test kind constraint

/-- Whether the token under the cursor is the end of the template. -/
def isEof (s : TokenStream) : Bool := s.current.kind = .eof

/-- The error of a stream that has no further token. -/
def endError (s : TokenStream) : SyntaxError := ⟨.unexpectedEnd, s.current.location⟩

/-- The token `n` places behind the cursor. -/
def look (s : TokenStream) (n : Nat) : Except SyntaxError Token :=
  match s.tokens[s.cursor + n]? with
  | some t => .ok t
  | none => .error s.endError

/-! ## Moving -/

/-- The token under the cursor and the stream with the cursor on the token behind it. There is no
moving over the last token. -/
def next (s : TokenStream) : Except SyntaxError (Token × TokenStream) :=
  if h : s.cursor + 1 < s.tokens.size then
    .ok (s.current, { s with cursor := s.cursor + 1, cursor_lt := h })
  else .error s.endError

theorem next_of_lt {s : TokenStream} (h : s.cursor + 1 < s.tokens.size) :
    s.next = .ok (s.current, { s with cursor := s.cursor + 1, cursor_lt := h }) := by
  simp [next, h]

theorem next_of_not_lt {s : TokenStream} (h : ¬s.cursor + 1 < s.tokens.size) :
    s.next = .error s.endError := by
  simp [next, h]

/-- Moves over the token under the cursor if it is of a kind and meets a constraint. -/
def nextIf (s : TokenStream) (kind : Token.Kind) (constraint : Option Constraint) :
    Option (Token × TokenStream) :=
  if s.test kind constraint then s.next.toOption else none

/-- Moves over the token under the cursor, which must be of a kind and meet a constraint. -/
def expect (s : TokenStream) (kind : Token.Kind) (constraint : Option Constraint) :
    Except SyntaxError (Token × TokenStream) :=
  let t := s.current
  if t.kind == kind && constraint.all fun c => c.accepts t.value then s.next
  else
    .error ⟨.unexpectedToken t.kind t.text kind (constraint.map Constraint.description), t.location⟩

/-- What must be met is what is tested. -/
theorem expect_eq (s : TokenStream) (kind : Token.Kind) (constraint : Option Constraint) :
    s.expect kind constraint =
      if s.test kind constraint then s.next
      else .error ⟨.unexpectedToken s.current.kind s.current.text kind
        (constraint.map Constraint.description), s.current.location⟩ := rfl

/-- Moves the cursor to the first token. -/
def rewind (s : TokenStream) : TokenStream := { s with cursor := 0, cursor_lt := s.size_pos }

/-- Puts tokens in front of the token under the cursor; the cursor is then on the first of them. -/
def inject (s : TokenStream) (ts : Array Token) : TokenStream where
  tokens := s.tokens.extract 0 s.cursor ++ ts ++ s.tokens.extract s.cursor s.tokens.size
  cursor := s.cursor
  source := s.source
  cursor_lt := by have := s.cursor_lt; simp; omega

/-! ## Writing -/

/-- The text of all tokens. -/
def serialize (s : TokenStream) : Text := s.tokens.toList.flatMap Token.text

/-- A stream is written with one token on each line. -/
instance : ToString TokenStream where
  toString s := "\n".intercalate (s.tokens.toList.map toString)

end TokenStream

/-! ## Templates -/

namespace Lexer

/-- The token stream of a template. -/
def tokenize (l : Lexer) (source : Text) : Except SyntaxError TokenStream :=
  (l.tokens source).map fun tokens => .ofTokens tokens (some source)

end Lexer

/-- Why a template could not be turned into tokens: the dialect is of no use, or the template is
wrong. -/
inductive Failure where
  | dialect (defect : Dialect.Defect)
  | template (error : SyntaxError)
deriving DecidableEq, Repr

instance : ToString Failure where
  toString
    | .dialect defect => toString defect
    | .template error => toString error

/-- The token stream of a template in a dialect. -/
def tokenizeIn (d : Dialect) (source : Text) : Except Failure TokenStream :=
  match Lexer.ofDialect d with
  | .error defect => .error (.dialect defect)
  | .ok l => (l.tokenize source).mapError .template

/-- The token stream of a template in the standard dialect. -/
def tokenize (source : Text) : Except SyntaxError TokenStream := Lexer.standard.tokenize source

end TemplateTokens
