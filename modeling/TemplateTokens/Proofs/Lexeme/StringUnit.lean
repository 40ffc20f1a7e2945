import Mathlib.Data.List.Infix
import TemplateTokens.Lexeme.Quoted

/-!
# The units of a string

A string is read in units: a backslash with the character behind it, or one other character. Two
matchers go over a string, one that takes it whole and one that takes a piece of it. On a text in
which no unit is a quote or the beginning of an interpolation both go over all units of it, and
they differ only where one of the units is the character that an interpolation begins with.

Results:

* `flatten_units`: the units of a text are the text.
* `stringPiece_of_isBody`: the piece of a string that begins with a body is that body.
* `quotedBody?_of_isBody`: the whole string that begins with a body has that body, and there is
  none if the body has the barred character as a unit.
-/

namespace TemplateTokens

/-- The units of a text. A backslash with no character behind it is a unit of its own. -/
def units : Text → List Text
  | [] => []
  | '\\' :: c :: t => ['\\', c] :: units t
  | c :: t => [c] :: units t

theorem units_cons {c : Char} {t : Text} (h : c = '\\' → t = []) :
    units (c :: t) = [c] :: units t := by
  rw [units]
  rintro b u rfl rfl
  cases h rfl

theorem flatten_units (t : Text) : (units t).flatten = t := by
  fun_induction units t with
  | case1 => rfl
  | case2 c t ih => rw [List.flatten_cons, ih]; rfl
  | case3 c t _ ih => rw [List.flatten_cons, ih]; rfl

/-- A text that can stand between double quotes in front of `tail`: its last backslash takes a
character with it, and no unit of it is a quote or begins an interpolation. -/
structure IsBody (opening body tail : Text) : Prop where
  escape : ['\\'] ∉ units body
  quote : ['"'] ∉ units body
  marker : ∀ us ∈ (units body).tails, us ≠ [] → ¬ opening <+: us.flatten ++ '"' :: tail

namespace IsBody

variable {opening body tail : Text}

theorem isBody_iff : (['\\'] ∉ units body ∧ ['"'] ∉ units body ∧
    ∀ us ∈ (units body).tails, us ≠ [] → ¬ opening <+: us.flatten ++ '"' :: tail) ↔
      IsBody opening body tail :=
  ⟨fun ⟨h₁, h₂, h₃⟩ => ⟨h₁, h₂, h₃⟩, fun h => ⟨h.escape, h.quote, h.marker⟩⟩

instance : Decidable (IsBody opening body tail) := decidable_of_decidable_of_iff isBody_iff

/-- What stands behind the first unit of a body is a body. -/
theorem of_units_eq {u t : Text} (h : IsBody opening body tail) (e : units body = u :: units t) :
    IsBody opening t tail where
  escape := fun hmem => h.escape (e ▸ List.mem_cons_of_mem u hmem)
  quote := fun hmem => h.quote (e ▸ List.mem_cons_of_mem u hmem)
  marker := by
    intro us hus
    apply h.marker us
    rw [e, List.tails_cons]
    exact List.mem_cons_of_mem _ hus

/-- No interpolation begins where a body does. -/
theorem not_isPrefix (h : IsBody opening body tail) (hne : body ≠ []) :
    ¬ opening <+: body ++ '"' :: tail := by
  have hunits : units body ≠ [] := by
    intro e
    have hflat := flatten_units body
    rw [e] at hflat
    exact hne hflat.symm
  have hmarker := h.marker (units body) ((List.mem_tails _ _).2 List.suffix_rfl) hunits
  rwa [flatten_units] at hmarker

/-- A body is empty, or a body behind one that takes a character with it or behind a character
that is neither a quote nor an escape and with which no interpolation begins. -/
@[elab_as_elim]
theorem induction {motive : ∀ body, IsBody opening body tail → Prop}
    (nil : ∀ h, motive [] h)
    (escaped : ∀ c t (h : IsBody opening t tail) h', motive t h → motive ('\\' :: c :: t) h')
    (plain : ∀ c t (h : IsBody opening t tail) h', c ≠ '\\' → c ≠ '"' →
      ¬ opening <+: c :: (t ++ '"' :: tail) → motive t h → motive (c :: t) h')
    {body : Text} (h : IsBody opening body tail) : motive body h := by
  fun_induction units body with
  | case1 => exact nil h
  | case2 c t ih =>
    have ht : IsBody opening t tail := h.of_units_eq (by rw [units])
    exact escaped c t ht h (ih ht)
  | case3 c t hescape ih =>
    have hunits : units (c :: t) = [c] :: units t := by
      rw [units]
      exact hescape
    have ht : IsBody opening t tail := h.of_units_eq hunits
    have hbackslash : c ≠ '\\' := by
      rintro rfl
      exact h.escape (hunits ▸ List.mem_cons_self)
    have hquote : c ≠ '"' := by
      rintro rfl
      exact h.quote (hunits ▸ List.mem_cons_self)
    exact plain c t ht h hbackslash hquote (h.not_isPrefix (List.cons_ne_nil c t)) (ih ht)

end IsBody

/-- A piece of a string goes over a body, up to the quote behind it. -/
theorem stringPiece_of_isBody {opening body tail : Text} (h : IsBody opening body tail) :
    stringPiece opening (body ++ '"' :: tail) = body := by
  induction h using IsBody.induction with
  | nil => rfl
  | escaped c t _ _ ih => rw [List.cons_append, List.cons_append, stringPiece, ih]
  | plain c t _ _ hbackslash hquote hmarker ih =>
    rw [List.cons_append, stringPiece, ih, if_neg]
    · simpa using fun _ => hmarker
    · exact hquote
    · exact fun _ _ h => absurd h hbackslash

/-- A whole string is found over a body, unless the barred character is one of its units. -/
theorem quotedBody?_of_isBody {opening body tail : Text} (h : IsBody opening body tail)
    (barred : Char) : quotedBody? '"' (some barred == some ·) (body ++ '"' :: tail) =
      if [barred] ∈ units body then none else some body := by
  induction h using IsBody.induction with
  | nil => rfl
  | escaped c t _ _ ih =>
    have hmem : [barred] ∈ units ('\\' :: c :: t) ↔ [barred] ∈ units t := by simp [units]
    rw [List.cons_append, List.cons_append, quotedBody?, ih]
    simp only [hmem]
    split <;> rfl
  | plain c t _ _ hbackslash hquote _ ih =>
    have hmem : [barred] ∈ units (c :: t) ↔ barred = c ∨ [barred] ∈ units t := by
      rw [units_cons fun h => absurd h hbackslash]
      simp
    rw [List.cons_append, quotedBody?.eq_3 _ _ _ _ fun _ _ h _ => hbackslash h, if_neg hquote, ih]
    by_cases hc : barred = c
    · rw [if_pos (by simp [hc]), if_pos (hmem.2 (Or.inl hc))]
    · simp only [hmem, hc, hbackslash, false_or, decide_false, Bool.false_or]
      rw [if_neg (by simpa using hc)]
      split <;> rfl

end TemplateTokens
