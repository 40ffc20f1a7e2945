import TemplateTokens.Text.Blank

/-!
# Searching in text

A *matcher* looks at the start of a text and answers with what it found there. Two ways of
applying a matcher are shared by the delimiters: at the first place where it succeeds, and after
as many blanks as it allows.

Results:

* `search?_eq_none`: a search fails exactly when the matcher fails everywhere.
* `search?_sound`: what is found stands behind the text before it.
* `search?_first`: the matcher fails at every place before the one found.
* `search?_eq_some`: a match with none before it is found.
* `afterBlanks?_sound`: what is skipped before a match is a run of blanks.
* `afterBlanks?_isSome`: a match behind a run of blanks is not missed.
-/

namespace TemplateTokens

variable {α : Type}

/-- The first place of a text, its end included, where `find` succeeds: the text before it and
what was found. -/
def search? (find : Text → Option α) : Text → Option (Text × α)
  | [] => (find []).map fun found => ([], found)
  | c :: t =>
    match find (c :: t) with
    | some found => some ([], found)
    | none => (search? find t).map fun (before, found) => (c :: before, found)

theorem search?_eq_none (find : Text → Option α) (t : Text) :
    search? find t = none ↔ ∀ before after, t = before ++ after → find after = none := by
  induction t with
  | nil =>
    simp only [search?, Option.map_eq_none_iff]
    constructor
    · intro h before after e
      obtain ⟨-, rfl⟩ := List.append_eq_nil_iff.1 e.symm
      exact h
    · intro h
      exact h [] [] rfl
  | cons c t ih =>
    constructor
    · intro h before after e
      cases hf : find (c :: t) with
      | some found => simp [search?, hf] at h
      | none =>
        simp [search?, hf] at h
        cases before with
        | nil => rw [← (show c :: t = after from e)]; exact hf
        | cons d before => simp at e; exact ih.1 h before after e.2
    · intro h
      have hf := h [] (c :: t) rfl
      have ht := ih.2 fun before after e => h (c :: before) after (by simp [e])
      simp [search?, hf, ht]

theorem search?_sound {find : Text → Option α} {t before : Text} {found : α}
    (h : search? find t = some (before, found)) :
    ∃ after, t = before ++ after ∧ find after = some found := by
  induction t generalizing before with
  | nil =>
    simp only [search?, Option.map_eq_some_iff, Prod.mk.injEq] at h
    obtain ⟨found', hf, rfl, rfl⟩ := h
    exact ⟨[], rfl, hf⟩
  | cons c t ih =>
    simp only [search?] at h
    split at h
    · rename_i found' hf
      simp only [Option.some.injEq, Prod.mk.injEq] at h
      obtain ⟨rfl, rfl⟩ := h
      exact ⟨c :: t, rfl, hf⟩
    · simp only [Option.map_eq_some_iff, Prod.mk.injEq, Prod.exists] at h
      obtain ⟨before', found', h', rfl, rfl⟩ := h
      obtain ⟨after, e, hf⟩ := ih h'
      exact ⟨after, by simp [e], hf⟩

theorem search?_first {find : Text → Option α} {t before after : Text} {found : α}
    (h : search? find t = some (before, found)) (e : t = before ++ after) {pre suf : Text}
    (hsplit : before = pre ++ suf) (hne : suf ≠ []) : find (suf ++ after) = none := by
  induction t generalizing before pre with
  | nil =>
    obtain ⟨rfl, -⟩ := List.append_eq_nil_iff.1 e.symm
    exact absurd (List.append_eq_nil_iff.1 hsplit.symm).2 hne
  | cons c t ih =>
    simp only [search?] at h
    split at h
    · simp only [Option.some.injEq, Prod.mk.injEq] at h
      obtain ⟨rfl, -⟩ := h
      exact absurd (List.append_eq_nil_iff.1 hsplit.symm).2 hne
    · rename_i hf
      simp only [Option.map_eq_some_iff, Prod.mk.injEq, Prod.exists] at h
      obtain ⟨before', found', h', rfl, rfl⟩ := h
      have ht : t = before' ++ after := (List.cons.inj e).2
      cases pre with
      | nil =>
        rw [← (show c :: before' = suf from hsplit), List.cons_append, ← ht]
        exact hf
      | cons b pre => exact ih h' ht (List.cons.inj hsplit).2

theorem search?_eq_some {find : Text → Option α} {before after : Text} {found : α}
    (h : find after = some found)
    (hfirst : ∀ pre suf, before = pre ++ suf → suf ≠ [] → find (suf ++ after) = none) :
    search? find (before ++ after) = some (before, found) := by
  induction before with
  | nil => cases after <;> simp [search?, h]
  | cons c before ih =>
    have hhere : find (c :: (before ++ after)) = none := hfirst [] _ rfl (List.cons_ne_nil c before)
    have hlater := ih fun pre suf e hne => hfirst (c :: pre) suf (congrArg (c :: ·) e) hne
    rw [List.cons_append, search?, hhere, hlater]
    rfl

/-- What `find` finds after a run of blanks, longer runs first: the run and what was found. -/
def afterBlanks? (find : Text → Option α) : Text → Option (Text × α)
  | [] => (find []).map fun found => ([], found)
  | c :: t =>
    let longer :=
      if isBlank c then (afterBlanks? find t).map fun (run, found) => (c :: run, found) else none
    longer <|> (find (c :: t)).map fun found => ([], found)

theorem afterBlanks?_sound {find : Text → Option α} {t run : Text} {found : α}
    (h : afterBlanks? find t = some (run, found)) :
    ∃ after, t = run ++ after ∧ run.all isBlank = true ∧ find after = some found := by
  induction t generalizing run with
  | nil =>
    simp only [afterBlanks?, Option.map_eq_some_iff, Prod.mk.injEq] at h
    obtain ⟨found', hf, rfl, rfl⟩ := h
    exact ⟨[], rfl, rfl, hf⟩
  | cons c t ih =>
    simp only [afterBlanks?, Option.orElse_eq_orElse, Option.orElse_eq_or,
      Option.or_eq_some_iff] at h
    rcases h with h | ⟨-, h⟩
    · split at h
      · rename_i hc
        simp only [Option.map_eq_some_iff, Prod.mk.injEq, Prod.exists] at h
        obtain ⟨run', found', h', rfl, rfl⟩ := h
        obtain ⟨after, e, hall, hf⟩ := ih h'
        exact ⟨after, by simp [e], by simp [hc, hall], hf⟩
      · simp at h
    · simp only [Option.map_eq_some_iff, Prod.mk.injEq] at h
      obtain ⟨found', hf, rfl, rfl⟩ := h
      exact ⟨c :: t, rfl, rfl, hf⟩

theorem afterBlanks?_isSome {find : Text → Option α} {run after : Text}
    (hrun : run.all isBlank = true) (h : (find after).isSome) :
    (afterBlanks? find (run ++ after)).isSome := by
  induction run with
  | nil => cases after <;> simp_all [afterBlanks?]
  | cons c run ih =>
    simp only [List.all_cons, Bool.and_eq_true] at hrun
    simp [afterBlanks?, hrun.1, ih hrun.2]

end TemplateTokens
