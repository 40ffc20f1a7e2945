import Mathlib.Algebra.Group.Nat.Even
import TemplateTokens.Proofs.Lexeme.StringUnit

/-!
# Where a piece of a string ends

A piece of a string ends in front of the first quote or beginning of an interpolation that is not
escaped. What is escaped can be said in two ways. The text can be cut into units, of which one that
begins with a backslash takes the next character with it, so that only the beginnings of the other
units count. Or the backslashes in front of a place can be counted: the last of them escapes what
stands at the place exactly if their number is odd. Both say where the piece ends, also if the
interpolation begins with a quote or a backslash, and if the text ends with a backslash that has no
character to take with it.

Results:

* `exists_firstStop`: a piece is all units in front of the first one that stops it.
* `byteSize_stringPiece`: its size is the offset of that unit.
* `exists_take_units_iff`: the places between two units are those behind an even number of
  backslashes.
* `stringPiece_append_eq_iff`: a piece ends at the first such place that can stop it.
-/

namespace TemplateTokens

variable {opening t t' u before after : Text} {k : Nat}

/-! ## By units -/

/-- The offset of a unit of a text. Behind the last unit it is the size of the text. -/
def unitOffset (t : Text) (k : Nat) : Nat := byteSize ((units t).take k).flatten

/-- The unit with this number is not an escape, and a quote stands or an interpolation begins at
it. -/
def StopsAt (opening t : Text) (k : Nat) : Prop :=
  ∃ u ∈ (units t)[k]?, u.head? ≠ some '\\' ∧
    (['"'] <+: ((units t).drop k).flatten ∨ opening <+: ((units t).drop k).flatten)

/-- No unit before this one stops a piece of `t`, and this one does or is not there any more. -/
structure FirstStop (opening t : Text) (k : Nat) : Prop where
  passed : ∀ j < k, ¬ StopsAt opening t j
  stopped : StopsAt opening t k ∨ k = (units t).length

/-- A piece of a string ends in front of this text, unless the beginning of it is escaped by what
stands before it. -/
def IsStop (opening t : Text) : Prop :=
  t ≠ [] ∧ t.head? ≠ some '\\' ∧ (['"'] <+: t ∨ opening <+: t)

theorem stopsAt_zero : StopsAt opening t 0 ↔ IsStop opening t := by
  rw [StopsAt, IsStop, List.drop_zero, flatten_units]
  fun_cases units t with
  | case1 => simp
  | case2 c t => simp
  | case3 c t => simp

theorem stopsAt_succ (h : units t = u :: units t') :
    StopsAt opening t (k + 1) ↔ StopsAt opening t' k := by
  rw [StopsAt, StopsAt, h, List.getElem?_cons_succ, List.drop_succ_cons]

theorem not_stopsAt_of_length_le (h : (units t).length ≤ k) : ¬ StopsAt opening t k := by
  rintro ⟨u, hu, -⟩
  rw [List.getElem?_eq_none h] at hu
  cases hu

theorem FirstStop.zero (h : StopsAt opening t 0 ∨ units t = []) : FirstStop opening t 0 where
  passed j hj := absurd hj (Nat.not_lt_zero j)
  stopped := h.imp_right fun hnil => by rw [hnil, List.length_nil]

theorem FirstStop.cons (hunits : units t = u :: units t') (hzero : ¬ StopsAt opening t 0)
    (h : FirstStop opening t' k) : FirstStop opening t (k + 1) where
  passed := by
    intro j hj
    cases j with
    | zero => exact hzero
    | succ j =>
      rw [stopsAt_succ hunits]
      exact h.passed j (by omega)
  stopped := by
    rw [stopsAt_succ hunits, hunits, List.length_cons, Nat.add_right_cancel_iff]
    exact h.stopped

/-- A piece of a string is all units in front of the first one that stops it. -/
theorem exists_firstStop (opening t : Text) :
    ∃ k, FirstStop opening t k ∧ stringPiece opening t = ((units t).take k).flatten := by
  fun_induction stringPiece opening t with
  | case1 => exact ⟨0, .zero (Or.inr rfl), rfl⟩
  | case2 t =>
    have hstop : StopsAt opening ('"' :: t) 0 := by simp [stopsAt_zero, IsStop]
    exact ⟨0, .zero (Or.inl hstop), rfl⟩
  | case3 c t ih =>
    obtain ⟨k, hfirst, heq⟩ := ih
    have hunits : units ('\\' :: c :: t) = ['\\', c] :: units t := rfl
    have hzero : ¬ StopsAt opening ('\\' :: c :: t) 0 := by simp [stopsAt_zero, IsStop]
    refine ⟨k + 1, hfirst.cons hunits hzero, ?_⟩
    rw [hunits, List.take_succ_cons, List.flatten_cons, heq]
    rfl
  | case4 c t _ _ hopening =>
    have hstop : StopsAt opening (c :: t) 0 := by
      simp only [ne_eq, Bool.and_eq_true, decide_eq_true_eq, List.isPrefixOf_iff_prefix]
        at hopening
      simp [stopsAt_zero, IsStop, hopening.1, hopening.2]
    exact ⟨0, .zero (Or.inl hstop), rfl⟩
  | case5 c t hquote hescape hopening ih =>
    obtain ⟨k, hfirst, heq⟩ := ih
    -- one character, or the backslash at the end of the text
    have hunits : units (c :: t) = [c] :: units t := by
      rw [units]
      exact hescape
    have hzero : ¬ StopsAt opening (c :: t) 0 := by
      rw [stopsAt_zero]
      rintro ⟨-, hhead, hquote' | hopening'⟩
      · exact hquote (List.cons_prefix_cons.1 hquote').1.symm
      · apply hopening
        simpa [List.isPrefixOf_iff_prefix.2 hopening'] using hhead
    refine ⟨k + 1, hfirst.cons hunits hzero, ?_⟩
    rw [hunits, List.take_succ_cons, List.flatten_cons, heq]
    rfl

/-- The size of a piece of a string is the offset of the first unit that is not an escape and at
which a quote stands or an interpolation begins, and the size of the text if there is none. It is
not larger than the text, and it does not end inside of a character. -/
theorem byteSize_stringPiece (opening t : Text) :
    ((∃ k, StopsAt opening t k ∧ (∀ j < k, ¬ StopsAt opening t j) ∧
        byteSize (stringPiece opening t) = unitOffset t k) ∨
      (∀ k, ¬ StopsAt opening t k) ∧ byteSize (stringPiece opening t) = byteSize t) ∧
    byteSize (stringPiece opening t) ≤ byteSize t ∧
    isBoundary (byteSize (stringPiece opening t)) t = true := by
  refine ⟨?_, ?_⟩
  · obtain ⟨k, hfirst, heq⟩ := exists_firstStop opening t
    obtain hstop | hend := hfirst.stopped
    · exact Or.inl ⟨k, hstop, hfirst.passed, by rw [heq, unitOffset]⟩
    · refine Or.inr ⟨fun j => ?_, ?_⟩
      · rcases Nat.lt_or_ge j k with hj | hj
        · exact hfirst.passed j hj
        · exact not_stopsAt_of_length_le (hend ▸ hj)
      · rw [heq, hend, List.take_length, flatten_units]
  · obtain ⟨rest, hrest⟩ := stringPiece_prefix opening t
    refine ⟨?_, isBoundary_iff.2 ⟨_, rest, hrest.symm, rfl⟩⟩
    have hsize := congrArg byteSize hrest
    rw [byteSize_append] at hsize
    omega

/-! ## By backslashes -/

/-- The number of backslashes at the end of a text. -/
def escapeRun (t : Text) : Nat := (t.reverse.takeWhile (· == '\\')).length

theorem escapeRun_append (s t : Text) :
    escapeRun (s ++ t) =
      if escapeRun t = t.length then escapeRun s + t.length else escapeRun t := by
  unfold escapeRun
  rw [List.reverse_append, List.takeWhile_append, List.length_reverse]
  split_ifs
  · rw [List.length_append, List.length_reverse, Nat.add_comm]
  · rfl

theorem even_escapeRun_append {s : Text} (hs : Even (escapeRun s)) :
    Even (escapeRun (s ++ t)) ↔ Even (escapeRun t) := by
  rw [escapeRun_append]
  split
  · rename_i hrun
    rw [hrun, Nat.even_add]
    exact iff_true_left hs
  · rfl

theorem even_escapeRun_escape (c : Char) : Even (escapeRun ['\\', c]) := by
  by_cases hc : c = '\\'
  · subst hc
    decide
  · have hrun : escapeRun ['\\', c] = 0 := by simp [escapeRun, hc]
    simp [hrun]

theorem exists_take_cons {us : List Text} (hu : u ≠ []) :
    (∃ k, ((u :: us).take k).flatten = u ++ before) ↔ ∃ k, (us.take k).flatten = before := by
  constructor
  · rintro ⟨k, hk⟩
    cases k with
    | zero => exact absurd (List.append_eq_nil_iff.1 hk.symm).1 hu
    | succ k => exact ⟨k, List.append_cancel_left hk⟩
  · rintro ⟨k, rfl⟩
    exact ⟨k + 1, rfl⟩

/-- A place in a text is not inside of a unit exactly if an even number of backslashes stands in
front of it. -/
theorem exists_take_units_iff (h : t = before ++ after) (hne : after ≠ []) :
    (∃ k, ((units t).take k).flatten = before) ↔ Even (escapeRun before) := by
  fun_induction units t generalizing before with
  | case1 => exact absurd (List.append_eq_nil_iff.1 h.symm).2 hne
  | case2 c t ih =>
    cases before with
    | nil => exact iff_of_true ⟨0, rfl⟩ (by decide)
    | cons b before =>
      obtain ⟨rfl, ht⟩ := List.cons.inj h
      cases before with
      | nil =>
        -- the place between a backslash and the character that it takes with it
        refine iff_of_false ?_ (by decide)
        rintro ⟨k, hk⟩
        cases k with
        | zero => cases hk
        | succ k => cases hk
      | cons b before =>
        obtain ⟨rfl, hrest⟩ := List.cons.inj ht
        rw [show '\\' :: c :: before = ['\\', c] ++ before from rfl,
          exists_take_cons (List.cons_ne_nil _ _),
          even_escapeRun_append (even_escapeRun_escape c)]
        exact ih hrest
  | case3 c t hescape ih =>
    cases before with
    | nil => exact iff_of_true ⟨0, rfl⟩ (by decide)
    | cons b before =>
      obtain ⟨rfl, ht⟩ := List.cons.inj h
      -- the place is not the end of the text, so a backslash would have had a character to take
      have hc : c ≠ '\\' := by
        intro hc
        obtain ⟨a, rest, hrest⟩ :=
          List.exists_cons_of_ne_nil (List.append_ne_nil_of_right_ne_nil before hne)
        exact hescape a rest hc (ht.trans hrest)
      have hrun : Even (escapeRun [c]) := by simp [escapeRun, hc]
      rw [show c :: before = [c] ++ before from rfl,
        exists_take_cons (List.cons_ne_nil _ _), even_escapeRun_append hrun]
      exact ih ht

theorem exists_units_eq (h : t ≠ []) : ∃ u t', units t = u :: units t' := by
  fun_cases units t with
  | case1 => exact absurd rfl h
  | case2 c t => exact ⟨_, t, rfl⟩
  | case3 c t => exact ⟨_, t, rfl⟩

theorem stopsAt_iff (opening t : Text) (k : Nat) :
    StopsAt opening t k ↔ IsStop opening ((units t).drop k).flatten := by
  induction k generalizing t with
  | zero =>
    rw [List.drop_zero, flatten_units]
    exact stopsAt_zero
  | succ k ih =>
    by_cases hnil : t = []
    · subst hnil
      exact iff_of_false (not_stopsAt_of_length_le (Nat.zero_le _)) fun h => h.1 rfl
    · obtain ⟨u, t', hunits⟩ := exists_units_eq hnil
      rw [stopsAt_succ hunits, hunits, List.drop_succ_cons]
      exact ih t'

/-- A text and what stands behind it, where a piece of a string ends between them: behind an even
number of backslashes, nothing in the text can stop the piece, and what stands behind it can or is
empty. -/
structure IsPiece (opening before after : Text) : Prop where
  first : ∀ pre suf, before = pre ++ suf → suf ≠ [] → Even (escapeRun pre) →
    ¬ IsStop opening (suf ++ after)
  stops : after = [] ∨ Even (escapeRun before) ∧ IsStop opening after

theorem take_append_drop_units (t : Text) (k : Nat) :
    ((units t).take k).flatten ++ ((units t).drop k).flatten = t := by
  rw [← List.flatten_append, List.take_append_drop, flatten_units]

theorem FirstStop.isPiece (h : FirstStop opening t k) :
    IsPiece opening ((units t).take k).flatten ((units t).drop k).flatten where
  first := by
    intro pre suf hpre hne heven hstop
    have htext : t = pre ++ (suf ++ ((units t).drop k).flatten) := by
      rw [← List.append_assoc, ← hpre, take_append_drop_units]
    obtain ⟨j, rfl⟩ := (exists_take_units_iff htext hstop.1).2 heven
    have hbehind : ((units t).drop j).flatten = suf ++ ((units t).drop k).flatten :=
      List.append_cancel_left ((take_append_drop_units t j).trans htext)
    have hj : ¬ j < k := fun hj => h.passed j hj ((stopsAt_iff opening t j).2 (hbehind ▸ hstop))
    -- all units of the piece stand in front of that place, so no part of it is behind
    obtain ⟨us, hus⟩ := List.take_prefix_take_left (l := units t) (Nat.le_of_not_lt hj)
    have hlength := congrArg (List.length ∘ List.flatten) hus
    simp only [Function.comp, List.flatten_append, hpre, List.length_append] at hlength
    exact hne (List.eq_nil_of_length_eq_zero (by omega))
  stops := by
    obtain hstop | hend := h.stopped
    · have hstop' := (stopsAt_iff opening t k).1 hstop
      have hsplit := (take_append_drop_units t k).symm
      exact Or.inr ⟨(exists_take_units_iff hsplit hstop'.1).1 ⟨k, rfl⟩, hstop'⟩
    · left
      rw [hend, List.drop_length]
      rfl

/-- Of two pieces of the same string none is the longer one. -/
theorem IsPiece.eq_nil {suf : Text} (hlong : IsPiece opening (before ++ suf) after)
    (h : IsPiece opening before (suf ++ after)) : suf = [] := by
  by_contra hne
  obtain hnil | ⟨heven, hstop⟩ := h.stops
  · exact hne (List.append_eq_nil_iff.1 hnil).1
  · exact hlong.first before suf rfl hne heven hstop

theorem IsPiece.unique {before' after' : Text} (h : IsPiece opening before after)
    (h' : IsPiece opening before' after') (e : before ++ after = before' ++ after') :
    before = before' := by
  obtain ⟨suf, rfl, rfl⟩ | ⟨suf, rfl, rfl⟩ := List.append_eq_append_iff.1 e
  · rw [h'.eq_nil h, List.append_nil]
  · rw [h.eq_nil h', List.append_nil]

/-- A piece of a string ends in front of the first quote or beginning of an interpolation that does
not begin with a backslash and stands behind an even number of them, or else at the end of the
text. -/
theorem stringPiece_append_eq_iff :
    stringPiece opening (before ++ after) = before ↔ IsPiece opening before after := by
  obtain ⟨k, hfirst, heq⟩ := exists_firstStop opening (before ++ after)
  have hsplit := take_append_drop_units (before ++ after) k
  have hpiece := hfirst.isPiece
  rw [heq]
  constructor
  · intro hbefore
    rw [hbefore] at hsplit hpiece
    rwa [List.append_cancel_left hsplit] at hpiece
  · intro h
    exact hpiece.unique h hsplit

/-- Two backslashes in front of a quote are one that is escaped, and a third one escapes the
quote. -/
example : stringPiece ['#', '{'] ['\\', '\\', '"', 'a'] = ['\\', '\\'] ∧
    stringPiece ['#', '{'] ['\\', '\\', '\\', '"', 'é', '#', '{'] =
      ['\\', '\\', '\\', '"', 'é'] := by
  decide

end TemplateTokens
