import TemplateTokens.Proofs.Lexer.Run

/-!
# Rows of steps

Steps taken one after the other lead from one state to another, and read a row of pieces on the way.
On a path, a run with enough fuel goes on as it does from any state that it leads to.

Results:

* `Lexicon.Leads.trans`, `Lexicon.Leads.reads`: rows of steps are put together, and read what their
  steps read.
* `Lexicon.Path.leads`: a row of steps stays on the path where no run can slip.
* `Lexicon.Path.exists_leads`: a run that comes to an end is a row of steps.
* `Lexicon.Path.run_eq_of_leads`: the result of a run is that of a run from any state on its way.
-/

namespace TemplateTokens

open Piece

/-- Steps that lead from one state to another, with the pieces they read. -/
inductive Lexicon.Leads (lx : Lexicon) : State → List Piece → State → Prop
  | refl (s : State) : Leads lx s [] s
  | step {s s₁ s' : State} {qs rs : List Piece} : s.rest ≠ [] → s.step lx = .ok s₁ →
      s.Reads qs s₁ → Leads lx s₁ rs s' → Leads lx s (qs ++ rs) s'

/-- What was read is known from the tokens. -/
theorem State.Reads.unique {s s' : State} {ps qs : List Piece} (h : s.Reads ps s')
    (h' : s.Reads qs s') : ps = qs := by
  have htokens := List.append_cancel_left (h.tokens_eq.symm.trans h'.tokens_eq)
  rw [← map_piece_tokensFrom s.position.toLocation ps, htokens, map_piece_tokensFrom]

namespace Lexicon

variable {lx : Lexicon} {source : Text} {s s₁ s' : State} {ps qs rs : List Piece} {ls : List Layer}

namespace Leads

theorem one (hne : s.rest ≠ []) (hstep : s.step lx = .ok s') (hread : s.Reads qs s') :
    lx.Leads s qs s' := by
  have h := Leads.step hne hstep hread (.refl s')
  rwa [List.append_nil] at h

theorem trans (h : lx.Leads s qs s₁) (h' : lx.Leads s₁ rs s') : lx.Leads s (qs ++ rs) s' := by
  induction h with
  | refl => exact h'
  | step hne hstep hread _ ih =>
    rw [List.append_assoc]
    exact .step hne hstep hread (ih h')

theorem reads (h : lx.Leads s rs s') : s.Reads rs s' := by
  induction h with
  | refl => exact .refl _
  | step _ _ hread _ ih => exact hread.trans ih

/-- At the end of the template no step is taken. -/
theorem eq_nil (h : lx.Leads s rs s') (hnil : s.rest = []) : rs = [] ∧ s' = s := by
  cases h with
  | refl => exact ⟨rfl, rfl⟩
  | step hne => exact absurd hnil hne

end Leads

/-! ## Along a path -/

namespace Path

theorem leads_of_start (h : lx.Path source s ps ls) :
    lx.Leads (.start lx.toDialect source) ps s := by
  induction h with
  | start => exact .refl _
  | step _ hne hstep _ hread _ _ ih => exact ih.trans (.one hne hstep hread)

section

variable (hd : lx.defect? = none) (hm : closerOf? lx.interpolation.opening = none)

include hd hm

/-- A step along a path that cannot slip does what a step can do, and stays on the path. -/
theorem exists_moves (h : lx.Path source s ps ls) (hne : s.rest ≠ [])
    (hstep : s.step lx = .ok s') :
    ∃ qs ls', qs ≠ [] ∧ s.Moves lx qs s' ∧ s.Reads qs s' ∧ lx.Path source s' (ps ++ qs) ls' := by
  obtain ⟨qs, hmoves⟩ : s.Outcome lx (.ok s') := hstep ▸ h.outcome hd hne
  have hread := hmoves.reads (hmoves.move.texts_isPrefix h.quoteCloser_eq)
  obtain ⟨qs', ls', hqs, hread', -, hpath⟩ | ⟨hslip, -⟩ := h.next hd hne hstep
  · obtain rfl := hread.unique hread'
    exact ⟨qs, ls', hqs, hmoves, hread, hpath⟩
  · have hsome := h.closerOf?_isSome hslip
    rw [hm] at hsome
    cases hsome

theorem moves (h : lx.Path source s ps ls) (hne : s.rest ≠ []) (hstep : s.step lx = .ok s')
    (hread : s.Reads qs s') :
    qs ≠ [] ∧ s.Moves lx qs s' ∧ ∃ ls', lx.Path source s' (ps ++ qs) ls' := by
  obtain ⟨qs', ls', hqs, hmoves, hread', hpath⟩ := h.exists_moves hd hm hne hstep
  obtain rfl := hread.unique hread'
  exact ⟨hqs, hmoves, ls', hpath⟩

theorem leads (h : lx.Path source s ps ls) (hleads : lx.Leads s rs s') :
    ∃ ls', lx.Path source s' (ps ++ rs) ls' := by
  induction hleads generalizing ps ls with
  | refl => exact ⟨ls, by rwa [List.append_nil]⟩
  | step hne hstep hread _ ih =>
    obtain ⟨-, -, ls', hpath⟩ := h.moves hd hm hne hstep hread
    rw [← List.append_assoc]
    exact ih hpath

/-- A run that comes to an end is a row of steps. -/
theorem exists_leads (h : lx.Path source s ps ls) {fuel : Nat}
    (hrun : run lx fuel s = .ok s') : ∃ rs, lx.Leads s rs s' := by
  induction fuel generalizing s ps ls with
  | zero =>
    cases hrun
    exact ⟨[], .refl _⟩
  | succ fuel ih =>
    obtain ⟨-, rfl⟩ | ⟨hne, s₁, hstep, hrun⟩ := run_cases hrun
    · exact ⟨[], .refl _⟩
    · obtain ⟨qs, ls', -, -, hread, hpath⟩ := h.exists_moves hd hm hne hstep
      obtain ⟨rs, hleads⟩ := ih hpath hrun
      exact ⟨qs ++ rs, .step hne hstep hread hleads⟩

variable (hv : lx.Visible)

include hv

/-- More fuel than there are characters left makes no difference. -/
theorem run_eq_of_le (h : lx.Path source s ps ls) {n m : Nat} (hn : s.rest.length ≤ n)
    (hmore : s.rest.length ≤ m) : run lx n s = run lx m s := by
  induction n generalizing s ps ls m with
  | zero =>
    have hnil := List.length_eq_zero_iff.1 (Nat.le_zero.1 hn)
    rw [run_nil lx _ hnil, run_nil lx _ hnil]
  | succ n ih =>
    by_cases hne : s.rest = []
    · rw [run_nil lx _ hne, run_nil lx _ hne]
    · have hpos := List.length_pos_iff.2 hne
      obtain ⟨m, rfl⟩ := Nat.exists_eq_add_one_of_ne_zero (n := m) (by omega)
      rw [run_succ lx n hne, run_succ lx m hne]
      cases hstep : s.step lx with
      | error e => rfl
      | ok s₁ =>
        obtain ⟨qs, ls', hqs, -, hread, hpath⟩ := h.exists_moves hd hm hne hstep
        have hlt := hpath.length_lt hd hv hread hqs
        exact ih hpath (by omega) (by omega)

/-- The result of a run is that of a run from any state on its way. -/
theorem run_eq_of_leads (h : lx.Path source s ps ls) (hleads : lx.Leads s rs s') :
    run lx s.rest.length s = run lx s'.rest.length s' := by
  induction hleads generalizing ps ls with
  | refl => rfl
  | @step s s₁ s' qs rs hne hstep hread _ ih =>
    obtain ⟨hqs, -, ls', hpath⟩ := h.moves hd hm hne hstep hread
    have hlt := hpath.length_lt hd hv hread hqs
    obtain ⟨n, hn⟩ := Nat.exists_eq_add_one_of_ne_zero (mt List.length_eq_zero_iff.1 hne)
    have hone : run lx (n + 1) s = run lx n s₁ := by
      rw [run_succ lx n hne, hstep]
      rfl
    rw [hn, hone, hpath.run_eq_of_le hd hm hv (n := n) (by omega) (Nat.le_refl _), ih hpath]

end

end Path

end Lexicon

end TemplateTokens
