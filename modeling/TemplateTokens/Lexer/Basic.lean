import TemplateTokens.Dialect.Defect
import TemplateTokens.Lexer.Step

/-!
# Lexers

A lexer is a dialect without defect. It turns a template into tokens by taking steps until nothing
remains, and then requires that nothing is left open.

Results:

* `run_nil`, `run_succ`: nothing happens at the end of a template, and before it a step is taken.
* `Lexer.ofDialect_eq_ok_iff`: exactly the dialects without defect have a lexer.
-/

namespace TemplateTokens

/-! ## Runs -/

/-- Takes steps until nothing remains, at most `fuel` of them. -/
def run (lx : Lexicon) : Nat → State → Except SyntaxError State
  | 0, s => .ok s
  | fuel + 1, s => if s.rest.isEmpty then .ok s else (s.step lx).bind (run lx fuel)

theorem run_nil (lx : Lexicon) (fuel : Nat) {s : State} (h : s.rest = []) :
    run lx fuel s = .ok s := by
  cases fuel <;> simp [run, h]

theorem run_succ (lx : Lexicon) (fuel : Nat) {s : State} (h : s.rest ≠ []) :
    run lx (fuel + 1) s = (s.step lx).bind (run lx fuel) := by
  simp [run, h]

/-- The tokens of a state at the end of a template, where neither a tag nor anything inside a tag
may be open. -/
def State.finish (s : State) : Except SyntaxError (Array Token) :=
  match s.mode with
  | .print => .error (s.error (.unclosed .print s.tagOpenedAt))
  | .block => .error (s.error (.unclosed .block s.tagOpenedAt))
  | _ =>
    match s.scopes with
    | scope :: _ => .error (s.error (.unclosedScope scope.opener scope.openedAt))
    | [] => .ok (s.tokens.push (.eof s.position.toLocation))

/-- The tokens of a template. Every step takes at least one character, so the number of
characters bounds the number of steps; only an operator made of white space alone takes none. -/
def Lexicon.tokens (lx : Lexicon) (source : Text) : Except SyntaxError (Array Token) :=
  (run lx source.length (.start lx.toDialect source)).bind State.finish

/-! ## Lexers -/

/-- A dialect that templates can be read in. -/
structure Lexer where
  dialect : Dialect
  usable : dialect.defect? = none

namespace Lexer

/-- The lexer for the standard dialect. -/
def standard : Lexer := ⟨Dialect.standard, Dialect.defect?_standard⟩

/-- The lexer for a dialect, or the first defect of the dialect. -/
def ofDialect (d : Dialect) : Except Dialect.Defect Lexer :=
  match h : d.defect? with
  | none => .ok ⟨d, h⟩
  | some defect => .error defect

theorem ofDialect_eq_ok_iff {d : Dialect} {l : Lexer} :
    ofDialect d = .ok l ↔ d.defect? = none ∧ l.dialect = d := by
  unfold ofDialect
  split
  · rename_i h
    constructor
    · intro e; cases e; exact ⟨h, rfl⟩
    · rintro ⟨-, rfl⟩; rfl
  · rename_i h
    simp [h]

/-- The tokens of a template. -/
def tokens (l : Lexer) (source : Text) : Except SyntaxError (Array Token) :=
  (Lexicon.ofDialect l.dialect).tokens source

end Lexer

end TemplateTokens
