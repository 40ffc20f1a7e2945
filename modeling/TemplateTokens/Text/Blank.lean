import TemplateTokens.Text.Basic

/-!
# Blanks and white space

Two classes of separating characters are in use. *Blanks* are the six ASCII characters that may
stand between tokens inside a tag. *White space* is the Unicode property `White_Space`; it
separates the words of an operator and is trimmed from a numeral.

Results:

* `isWhiteSpace_of_isBlank`: every blank is white space.
* `blanks_append_dropWhile`, `dropWhile_of_eq_blanks_append`: the leading blanks and what follows
  them are the whole text.
* `splitWords_ne_nil`, `flatten_splitWords`: no word is empty, and the words are the text without
  its white space.
-/

namespace TemplateTokens

/-- Space, line feed, carriage return, tab, vertical tab and form feed. -/
def isBlank (c : Char) : Bool :=
  c = ' ' || c = '\n' || c = '\r' || c = '\t' || c = '\x0b' || c = '\x0c'

/-- The Unicode property `White_Space`. -/
def isWhiteSpace (c : Char) : Bool :=
  let n := c.toNat
  (0x09 ≤ n && n ≤ 0x0d) || n = 0x20 || n = 0x85 || n = 0xa0 || n = 0x1680 ||
    (0x2000 ≤ n && n ≤ 0x200a) || n = 0x2028 || n = 0x2029 || n = 0x202f || n = 0x205f ||
    n = 0x3000

theorem isWhiteSpace_of_isBlank {c : Char} (h : isBlank c = true) : isWhiteSpace c = true := by
  simp only [isBlank, Bool.or_eq_true, decide_eq_true_eq] at h
  rcases h with ((((rfl | rfl) | rfl) | rfl) | rfl) | rfl <;> decide

/-! ## Runs of blanks -/

/-- The run of blanks that a text begins with. -/
def blanks (t : Text) : Text := t.takeWhile isBlank

theorem blanks_append_dropWhile (t : Text) : blanks t ++ t.dropWhile isBlank = t :=
  List.takeWhile_append_dropWhile

/-- What stands behind the blanks that a text begins with. -/
theorem dropWhile_of_eq_blanks_append {t u : Text} (h : t = blanks t ++ u) :
    t.dropWhile isBlank = u :=
  List.append_cancel_left ((blanks_append_dropWhile t).trans h)

theorem blanks_dropWhile (t : Text) : blanks (t.dropWhile isBlank) = [] := by
  have h := List.head?_dropWhile_not isBlank t
  cases hd : t.dropWhile isBlank with
  | nil => rfl
  | cons c rest =>
    rw [hd] at h
    rw [blanks, List.takeWhile_cons_of_neg (by simpa using h)]

/-! ## White space around and between words -/

/-- A text without the white space at its two ends. -/
def trimWhiteSpace (t : Text) : Text :=
  ((t.dropWhile isWhiteSpace).reverse.dropWhile isWhiteSpace).reverse

/-- The maximal pieces of a text that are free of white space, in order. -/
def splitWords (t : Text) : List Text :=
  (t.splitOnP isWhiteSpace).filter fun w => !w.isEmpty

theorem splitWords_ne_nil {t w : Text} (h : w ∈ splitWords t) : w ≠ [] := by
  have := (List.mem_filter.1 h).2
  intro e
  simp [e] at this

theorem flatten_splitOnP {α : Type} (p : α → Bool) (l : List α) :
    (l.splitOnP p).flatten = l.filter fun a => !p a := by
  induction l with
  | nil => rfl
  | cons a l ih =>
    rw [List.splitOnP_cons_eq_if_modifyHead]
    cases hp : p a with
    | true => simpa [hp] using ih
    | false =>
      obtain ⟨w, ws, hw⟩ := List.exists_cons_of_ne_nil (List.splitOnP_ne_nil p l)
      rw [hw] at ih ⊢
      simpa [hp] using ih

/-- The words of a text are the text without its white space. -/
theorem flatten_splitWords (t : Text) :
    (splitWords t).flatten = t.filter fun c => !isWhiteSpace c := by
  rw [splitWords, List.flatten_filter_not_isEmpty, flatten_splitOnP]

end TemplateTokens
