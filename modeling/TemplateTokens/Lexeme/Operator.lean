import TemplateTokens.Ranking
import TemplateTokens.Text.Blank

/-!
# Operators

An operator is one word or several, and between two of its words any white space may stand. An
operator that ends in an ASCII letter must be followed by white space or by an opening
parenthesis, so that it is not taken from the front of a name. Longer operators are tried first,
and the equals sign is an operator whatever the vocabulary.

Results:

* `Operator.wordsAt?_sound`: what is found is the beginning of the text.
* `Operator.wordsAt?_ne_nil`: an operator with a word is not found in nothing.
* `assignment_mem_vocabulary`: the equals sign is in every vocabulary.
-/

namespace TemplateTokens

/-- An operator as it is recognised. -/
structure Operator where
  words : List Text
  /-- Whether white space or a parenthesis must follow. -/
  guarded : Bool
deriving DecidableEq, Repr

namespace Operator

/-- The operator with a given spelling. -/
def ofText (t : Text) : Operator := ⟨splitWords t, (t.getLast?).any Char.isAlpha⟩

/-- Words at the start of a text, in order and with white space between each two: the piece of
the text that they take up. -/
def wordsAt? : List Text → Text → Option Text
  | [], _ => some []
  | [w], t => if w.isPrefixOf t then some w else none
  | w :: ws, t =>
    (w.isPrefixOf? t).bind fun rest =>
      let gap := rest.takeWhile isWhiteSpace
      if gap.isEmpty then none
      else (wordsAt? ws (rest.dropWhile isWhiteSpace)).map fun later => w ++ gap ++ later

theorem wordsAt?_sound {ws : List Text} {t v : Text} (h : wordsAt? ws t = some v) : v <+: t := by
  fun_induction wordsAt? ws t generalizing v with
  | case1 t => simp at h; subst h; exact List.nil_prefix
  | case2 t w hw =>
    simp only [Option.some.injEq] at h
    subst h
    exact List.isPrefixOf_iff_prefix.1 hw
  | case3 t w hw => simp at h
  | case4 t w ws hne ih =>
    simp only [Option.bind_eq_some_iff] at h
    obtain ⟨rest, hrest, h⟩ := h
    split at h
    · simp at h
    · simp only [Option.map_eq_some_iff] at h
      obtain ⟨later, hlater, rfl⟩ := h
      obtain ⟨tail, htail⟩ := ih rest hlater
      refine ⟨tail, ?_⟩
      rw [List.append_assoc, htail, List.append_assoc, List.takeWhile_append_dropWhile]
      exact isPrefixOf?_eq_some_iff.1 hrest

theorem wordsAt?_ne_nil {ws : List Text} {t v : Text} (hws : ws ≠ []) (hw : ∀ w ∈ ws, w ≠ [])
    (h : wordsAt? ws t = some v) : v ≠ [] := by
  rcases ws with _ | ⟨w, _ | ⟨w', ws⟩⟩
  · exact absurd rfl hws
  · simp only [wordsAt?] at h
    split at h
    · cases h
      exact hw v (by simp)
    · cases h
  · simp only [wordsAt?, Option.bind_eq_some_iff] at h
    obtain ⟨rest, -, h⟩ := h
    split at h
    · cases h
    · obtain ⟨later, -, rfl⟩ := Option.map_eq_some_iff.1 h
      simp [hw w (by simp)]

/-- Whether a guarded operator may end in front of a text. -/
def mayEndBefore : Text → Bool
  | [] => false
  | c :: _ => isWhiteSpace c || c = '('

/-- The piece at the start of a text that an operator takes up. -/
def at? (o : Operator) (t : Text) : Option Text :=
  (wordsAt? o.words t).bind fun found =>
    if o.guarded && !mayEndBefore (t.drop found.length) then none else some found

end Operator

/-- The spelling of assignment. -/
def assignment : Text := ['=']

/-- A list of operators with assignment among them. -/
def withAssignment (operators : List Text) : List Text :=
  if operators.contains assignment then operators else operators ++ [assignment]

/-- The operators of a vocabulary as they are tried: by decreasing size of their spelling. -/
def vocabulary (operators : List Text) : List Operator :=
  (largestFirst byteSize (withAssignment operators)).map Operator.ofText

theorem assignment_mem_vocabulary (operators : List Text) :
    Operator.ofText assignment ∈ vocabulary operators := by
  refine List.mem_map.2 ⟨assignment, mem_largestFirst.2 ?_, rfl⟩
  unfold withAssignment
  split
  · rename_i h; exact List.contains_iff_mem.1 h
  · simp

/-- The piece at the start of a text that the first matching operator takes up. -/
def operatorAt? (operators : List Operator) (t : Text) : Option Text :=
  operators.findSome? fun o => o.at? t

end TemplateTokens
