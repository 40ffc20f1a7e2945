import TemplateTokens.Proofs.Lexer.Piece

/-!
# The two stacks of a run

A run keeps the parts of the template around the one it reads, and the scopes that are open. This
module has what the small steps of a run do to them: emitting tokens leaves both alone, going into
a part and opening a scope change one each.
-/

namespace TemplateTokens

/-! ## The two stacks -/

/-- The part of a template that is being read, the parts around it, and the scopes that are
open. -/
structure Stacks where
  mode : Mode
  outer : List Mode
  scopes : List Scope
deriving DecidableEq, Repr

namespace Stacks

/-- Goes into a part of the template. -/
def enter (st : Stacks) (mode : Mode) : Stacks := ⟨mode, st.mode :: st.outer, st.scopes⟩

/-- Goes back to the part around the present one. -/
def leave (st : Stacks) : Stacks := ⟨st.outer.headD .data, st.outer.tail, st.scopes⟩

/-- Opens a scope. -/
def push (st : Stacks) (scope : Scope) : Stacks := { st with scopes := scope :: st.scopes }

/-- Closes the innermost scope. -/
def pop (st : Stacks) : Stacks := { st with scopes := st.scopes.tail }

end Stacks

namespace State

/-- The two stacks of a state. -/
def toStacks (s : State) : Stacks := ⟨s.mode, s.outer, s.scopes⟩

section Stacks

variable (s : State)

@[simp] theorem toStacks_emit (kind : Token.Kind) (value : Text) :
    (s.emit kind value).toStacks = s.toStacks := rfl

@[simp] theorem toStacks_emitSome (kind : Token.Kind) (value : Text) :
    (s.emitSome kind value).toStacks = s.toStacks := by
  unfold emitSome
  split <;> rfl

@[simp] theorem toStacks_emitTrim (d : Dialect) (m : Option Trim) :
    (s.emitTrim d m).toStacks = s.toStacks := by
  rcases m with _ | ⟨_ | _⟩ <;> rfl

@[simp] theorem toStacks_emitBlanks : s.emitBlanks.toStacks = s.toStacks := s.toStacks_emitSome _ _

theorem mode_emitBlanks : s.emitBlanks.mode = s.mode := congrArg Stacks.mode s.toStacks_emitBlanks

@[simp] theorem toStacks_enter (m : Mode) : (s.enter m).toStacks = s.toStacks.enter m := rfl

@[simp] theorem toStacks_leave : s.leave.toStacks = s.toStacks.leave := rfl

@[simp] theorem toStacks_openScope (opener closer : Text) : (s.openScope opener closer).toStacks =
    s.toStacks.push ⟨opener, closer, s.position.toLocation⟩ := rfl

@[simp] theorem toStacks_closeScope : s.closeScope.toStacks = s.toStacks.pop := rfl

end Stacks

/-! ## What emitting leaves alone -/

section Emit

variable (s : State)

@[simp] theorem tagStarts_emitSome (kind : Token.Kind) (value : Text) :
    (s.emitSome kind value).tagStarts = s.tagStarts := by
  unfold emitSome
  split <;> rfl

@[simp] theorem tagStarts_emitTrim (d : Dialect) (m : Option Trim) :
    (s.emitTrim d m).tagStarts = s.tagStarts := by
  rcases m with _ | ⟨_ | _⟩ <;> rfl

@[simp] theorem tagOpenedAt_emitSome (kind : Token.Kind) (value : Text) :
    (s.emitSome kind value).tagOpenedAt = s.tagOpenedAt := by
  unfold emitSome
  split <;> rfl

@[simp] theorem tagOpenedAt_emitTrim (d : Dialect) (m : Option Trim) :
    (s.emitTrim d m).tagOpenedAt = s.tagOpenedAt := by
  rcases m with _ | ⟨_ | _⟩ <;> rfl

end Emit

end State

end TemplateTokens
