import TemplateTokens.Text.Blank

/-!
# Dialects

A dialect fixes how the tags of a template are written: the delimiters of print tags, block tags,
comments and string interpolations, the two trim markers that may stand beside a delimiter, and
the operators of the expressions inside tags.

Results:

* `modifierText_injective`: the two markers of a dialect with different markers can be told apart.
* `modifierText_modifierAt`, `afterModifier?_sound`: a marker found begins the text.
* `afterModifier?_isSome`: what needs no marker before it is not missed.
-/

namespace TemplateTokens

/-! ## The parts of a dialect -/

/-- The two delimiters of a construct. -/
structure Delimiters where
  opening : Text
  closing : Text
deriving DecidableEq, Repr, Inhabited

/-- The three tags of a template. -/
inductive Tag where
  | print
  | block
  | comment
deriving DecidableEq, Repr, Inhabited

/-- The two ways in which white space beside a tag may be asked to go. -/
inductive Trim where
  /-- All of it. -/
  | whole
  /-- Only that on the line of the tag. -/
  | line
deriving DecidableEq, Repr, Inhabited

/-- The way a template is written. -/
structure Dialect where
  print : Delimiters
  block : Delimiters
  comment : Delimiters
  interpolation : Delimiters
  trim : Char
  lineTrim : Char
  operators : List Text
deriving DecidableEq, Repr, Inhabited

namespace Dialect

/-- The operators of the standard dialect. -/
def standardOperators : List Text :=
  ["=", "or", "and", "b-or", "b-xor", "b-and", "==", "!=", "<", "<=", ">", ">=", "is", "is not",
    "not", "in", "not in", "matches", "starts with", "ends with", "..", "+", "-", "~", "*", "/",
    "//", "%", "**", "??"].map String.toList

/-- The standard dialect: doubled braces around print tags, a brace with a percent or a number
sign for block tags and comments, `-` and `~` as trim markers. -/
def standard : Dialect where
  print := ⟨['{', '{'], ['}', '}']⟩
  block := ⟨['{', '%'], ['%', '}']⟩
  comment := ⟨['{', '#'], ['#', '}']⟩
  interpolation := ⟨['#', '{'], ['}']⟩
  trim := '-'
  lineTrim := '~'
  operators := standardOperators

/-- The delimiter that opens a tag. -/
def opening (d : Dialect) : Tag → Text
  | .print => d.print.opening
  | .block => d.block.opening
  | .comment => d.comment.opening

/-! ## Trim markers -/

/-- The marker of a trim. -/
def marker (d : Dialect) : Trim → Char
  | .whole => d.trim
  | .line => d.lineTrim

/-- The text of a trim marker, empty where there is none. -/
def modifierText (d : Dialect) : Option Trim → Text
  | none => []
  | some t => [d.marker t]

theorem modifierText_injective {d : Dialect} (h : d.trim ≠ d.lineTrim) {m n : Option Trim}
    (e : d.modifierText m = d.modifierText n) : m = n := by
  rcases m with _ | ⟨_ | _⟩ <;> rcases n with _ | ⟨_ | _⟩ <;>
    simp_all [modifierText, marker, eq_comm]

/-- The trim whose marker a text begins with. -/
def modifierAt (d : Dialect) : Text → Option Trim
  | [] => none
  | c :: _ => if c = d.trim then some .whole else if c = d.lineTrim then some .line else none

theorem modifierText_modifierAt (d : Dialect) (t : Text) :
    d.modifierText (d.modifierAt t) <+: t := by
  cases t with
  | nil => exact List.nil_prefix
  | cons c t =>
    by_cases h : c = d.trim
    · simp [modifierAt, h, modifierText, marker]
    · by_cases h' : c = d.lineTrim
      · have hne : d.lineTrim ≠ d.trim := h' ▸ h
        simp [modifierAt, h', hne, modifierText, marker]
      · simp [modifierAt, h, h', modifierText]

/-- What may stand in front of a closing delimiter, in the order in which it is tried. -/
def modifiers : List (Option Trim) := [some .whole, some .line, none]

/-- What `find` finds behind a trim marker or behind none: the trim and what was found. -/
def afterModifier? {α : Type} (d : Dialect) (find : Text → Option α) (t : Text) :
    Option (Option Trim × α) :=
  modifiers.findSome? fun m =>
    ((d.modifierText m).isPrefixOf? t).bind fun rest => (find rest).map fun found => (m, found)

theorem afterModifier?_sound {α : Type} {d : Dialect} {find : Text → Option α} {t : Text}
    {m : Option Trim} {found : α} (h : d.afterModifier? find t = some (m, found)) :
    ∃ rest, t = d.modifierText m ++ rest ∧ find rest = some found := by
  obtain ⟨m', -, h⟩ := List.exists_of_findSome?_eq_some h
  simp only [Option.bind_eq_some_iff, Option.map_eq_some_iff, Prod.mk.injEq] at h
  obtain ⟨rest, hrest, found', hf, rfl, rfl⟩ := h
  exact ⟨rest, (isPrefixOf?_eq_some_iff.1 hrest).symm, hf⟩

theorem afterModifier?_isSome {α : Type} {d : Dialect} {find : Text → Option α} {t : Text}
    (h : (find t).isSome) : (d.afterModifier? find t).isSome := by
  refine List.findSome?_isSome_iff.2 ⟨none, by simp [modifiers], ?_⟩
  rw [isPrefixOf?_eq_some_iff.2 (show d.modifierText none ++ t = t from rfl), Option.bind_some,
    Option.isSome_map]
  exact h

end Dialect

end TemplateTokens
