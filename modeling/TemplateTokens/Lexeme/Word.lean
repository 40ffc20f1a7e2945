import TemplateTokens.Text.Basic

/-!
# Names and numbers

A name starts with an ASCII letter, an underscore or a character from U+007F on, and continues
with these and ASCII digits. A number is a run of digits, with a point and a second run behind it
if both are there.

Results:

* `name?_sound`, `number?_sound`: what is found is the beginning of the text.
-/

namespace TemplateTokens

/-- A character that a name may start with. -/
def isNameStart (c : Char) : Bool := c.isAlpha || c = '_' || 0x7f ≤ c.toNat

/-- A character that may continue a name. -/
def isNameRest (c : Char) : Bool := isNameStart c || c.isDigit

/-- The name at the start of a text. -/
def name? : Text → Option Text
  | [] => none
  | c :: t => if isNameStart c then some (c :: t.takeWhile isNameRest) else none

theorem name?_sound {t v : Text} (h : name? t = some v) : v <+: t := by
  cases t with
  | nil => simp [name?] at h
  | cons c t =>
    simp only [name?] at h
    split at h
    · simp only [Option.some.injEq] at h
      subst h
      exact List.cons_prefix_cons.2 ⟨rfl, List.takeWhile_prefix _⟩
    · simp at h

/-- The point and the digits of a fraction at the start of a text, empty if there is none. -/
def fractionAt : Text → Text
  | '.' :: t =>
    let digits := t.takeWhile Char.isDigit
    if digits.isEmpty then [] else '.' :: digits
  | _ => []

theorem fractionAt_prefix (t : Text) : fractionAt t <+: t := by
  unfold fractionAt
  split
  · dsimp only
    split
    · exact List.nil_prefix
    · exact List.cons_prefix_cons.2 ⟨rfl, List.takeWhile_prefix _⟩
  · exact List.nil_prefix

/-- The number at the start of a text. -/
def number? (t : Text) : Option Text :=
  let whole := t.takeWhile Char.isDigit
  if whole.isEmpty then none else some (whole ++ fractionAt (t.dropWhile Char.isDigit))

theorem number?_sound {t v : Text} (h : number? t = some v) : v <+: t := by
  simp only [number?] at h
  split at h
  · simp at h
  · simp only [Option.some.injEq] at h
    subst h
    obtain ⟨r, hr⟩ := fractionAt_prefix (t.dropWhile Char.isDigit)
    exact ⟨r, by rw [List.append_assoc, hr, List.takeWhile_append_dropWhile]⟩

end TemplateTokens
