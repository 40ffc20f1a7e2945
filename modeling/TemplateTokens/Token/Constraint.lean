import TemplateTokens.Decimal.Numeral
import TemplateTokens.Decimal.Positional
import TemplateTokens.Token.Basic

/-!
# Constraints on the value of a token

A constraint asks for one text, for one of several texts, or for a number. A token without a value
meets none.

Results:

* `Constraint.accepts_none`: no value meets no constraint.
* `Token.test_none`: without a constraint only the kind counts.
-/

namespace TemplateTokens

/-- A condition on the value of a token. -/
inductive Constraint where
  /-- The value is this text. -/
  | text (expected : Text)
  /-- The value is one of these texts. -/
  | oneOf (candidates : List Text)
  /-- The value, white space around it aside, is a numeral of this number. -/
  | number (expected : Float)

namespace Constraint

/-- Whether a value meets a constraint. -/
def accepts (c : Constraint) (value : Option Text) : Bool :=
  match value with
  | none => false
  | some v =>
    match c with
    | .text expected => v == expected
    | .oneOf candidates => candidates.contains v
    | .number expected =>
      match Numeral.ofText? (trimWhiteSpace v) with
      | some numeral => numeral.toFloat == expected
      | none => false

@[simp] theorem accepts_none (c : Constraint) : c.accepts none = false := rfl

/-- A constraint as it stands in an error message: alternatives are joined by commas. -/
def description : Constraint → Text
  | .text expected => expected
  | .oneOf candidates => (candidates.intersperse [',']).flatten
  | .number expected => floatText expected

end Constraint

/-- Whether a token is of a kind and its value meets a constraint, where one is given. -/
def Token.test (t : Token) (kind : Kind) (constraint : Option Constraint) : Bool :=
  t.kind == kind && constraint.all fun c => c.accepts t.value

theorem Token.test_none (t : Token) (kind : Kind) : t.test kind none = (t.kind == kind) := by
  simp [Token.test]

end TemplateTokens
