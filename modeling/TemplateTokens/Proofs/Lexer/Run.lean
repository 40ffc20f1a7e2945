import TemplateTokens.Proofs.Lexer.Path
import TemplateTokens.TokenStream

/-!
# Runs

Every state that the run over a template reaches is on a path or lost, and a run that is lost does
not end well. So the tokens of a template are the pieces of a path that ends with nothing open.

Results:

* `Lexicon.Reachable.path_or_lost`: every state of a run is on a path or lost.
* `run_preserves`, `Lexicon.Reachable.of_run`: a run preserves what each of its steps preserves,
  and ends in a state of the run.
* `Lexicon.Path.run_ok`: a run with enough fuel comes to the end of the template or is lost.
* `Lexicon.Path.run_outcome`: one that cannot slip comes there along a path, or to a step that
  fails.
* `Lexicon.exists_path_of_tokens`, `Lexer.exists_path_of_tokenize`: a template that has tokens has
  them along a path.
* `Lexicon.exists_path_of_error`: one that has an error has it along a path, if no run can slip.
-/

namespace TemplateTokens

open Piece

/-- The states of the run over a template. -/
inductive Lexicon.Reachable (lx : Lexicon) (source : Text) : State → Prop
  | start : Reachable lx source (.start lx.toDialect source)
  | step {s s' : State} : Reachable lx source s → s.rest ≠ [] → s.step lx = .ok s' →
      Reachable lx source s'

section Runs

variable {lx : Lexicon} {source : Text} {s s' : State}

theorem Stacks.Lost.step (hm : lx.interpolation.opening ≠ ['"']) (h : s.toStacks.Lost lx.toDialect)
    (hne : s.rest ≠ []) (hstep : s.step lx = .ok s') : s'.toStacks.Lost lx.toDialect := by
  obtain ⟨qs, hmoves⟩ : s.Outcome lx (.ok s') :=
    hstep ▸ State.outcome_step (fun hdata => absurd hdata h.mode_ne_data) hne
  exact h.move hm hmoves.move

/-- Every state of a run is on a path or lost, and it can only be lost if interpolations begin like
a group. -/
theorem Lexicon.Reachable.path_or_lost (hd : lx.defect? = none) (h : lx.Reachable source s) :
    (∃ ps ls, lx.Path source s ps ls) ∨
      s.toStacks.Lost lx.toDialect ∧ (closerOf? lx.interpolation.opening).isSome := by
  induction h with
  | start => exact Or.inl ⟨[], [], .start⟩
  | step _ hne hstep ih =>
    obtain ⟨ps, ls, hpath⟩ | ⟨hlost, hm⟩ := ih
    · obtain ⟨qs, ls', -, -, -, hpath'⟩ | ⟨hslip, hlost⟩ := hpath.next hd hne hstep
      · exact Or.inl ⟨_, _, hpath'⟩
      · exact Or.inr ⟨hlost, hpath.closerOf?_isSome hslip⟩
    · exact Or.inr ⟨hlost.step (ne_quote_of_closerOf?_isSome hm) hne hstep, hm⟩

/-! ## With fuel -/

/-- A run with fuel left is at the end of the template or begins with a step. -/
theorem run_cases {fuel : Nat} (h : run lx (fuel + 1) s = .ok s') :
    s.rest = [] ∧ s' = s ∨
      s.rest ≠ [] ∧ ∃ s₁, s.step lx = .ok s₁ ∧ run lx fuel s₁ = .ok s' := by
  by_cases hne : s.rest = []
  · rw [run_nil lx _ hne] at h
    exact Or.inl ⟨hne, (Except.ok.inj h).symm⟩
  · rw [run_succ lx fuel hne] at h
    cases hstep : s.step lx with
    | error e =>
      rw [hstep] at h
      cases h
    | ok s₁ =>
      rw [hstep] at h
      exact Or.inr ⟨hne, s₁, rfl, h⟩

/-- What every step preserves, a run preserves. -/
theorem run_preserves {P : State → Prop}
    (hP : ∀ s s', P s → s.rest ≠ [] → s.step lx = .ok s' → P s') {fuel : Nat} (h : P s)
    (hrun : run lx fuel s = .ok s') : P s' := by
  induction fuel generalizing s with
  | zero =>
    cases hrun
    exact h
  | succ fuel ih =>
    obtain ⟨-, rfl⟩ | ⟨hne, s₁, hstep, hrun⟩ := run_cases hrun
    · exact h
    · exact ih (hP s s₁ h hne hstep) hrun

/-- What a run with some fuel ends in is a state of the run. -/
theorem Lexicon.Reachable.of_run {fuel : Nat} (h : lx.Reachable source s)
    (hrun : TemplateTokens.run lx fuel s = .ok s') : lx.Reachable source s' :=
  run_preserves (fun _ _ => .step) h hrun

/-- A run that is lost stays lost. -/
theorem Stacks.Lost.run (hm : lx.interpolation.opening ≠ ['"']) {fuel : Nat}
    (h : s.toStacks.Lost lx.toDialect) (hrun : run lx fuel s = .ok s') :
    s'.toStacks.Lost lx.toDialect :=
  run_preserves (P := fun s => s.toStacks.Lost lx.toDialect) (fun _ _ h => h.step hm) h hrun

/-- A run along a path that has as much fuel as there are characters left comes to the end of the
template or is lost. -/
theorem Lexicon.Path.run_ok (hd : lx.defect? = none) (hv : lx.Visible) {fuel : Nat}
    {ps : List Piece} {ls : List Layer} (h : lx.Path source s ps ls) (hfuel : s.rest.length ≤ fuel)
    (hrun : run lx fuel s = .ok s') :
    (∃ ps' ls', lx.Path source s' ps' ls' ∧ s'.rest = []) ∨ s'.toStacks.Lost lx.toDialect := by
  induction fuel generalizing s ps ls with
  | zero =>
    cases hrun
    exact Or.inl ⟨ps, ls, h, List.length_eq_zero_iff.1 (Nat.le_zero.1 hfuel)⟩
  | succ fuel ih =>
    obtain ⟨hnil, rfl⟩ | ⟨hne, s₁, hstep, hrun⟩ := run_cases hrun
    · exact Or.inl ⟨ps, ls, h, hnil⟩
    · obtain ⟨qs, ls', hqs, hread, -, hpath⟩ | ⟨hslip, hlost⟩ := h.next hd hne hstep
      · have hlt := hpath.length_lt hd hv hread hqs
        exact ih hpath (by omega) hrun
      · have hm := ne_quote_of_closerOf?_isSome (h.closerOf?_isSome hslip)
        exact Or.inr (hlost.run hm hrun)

/-- Where interpolations do not begin like a group, a run along a path that has as much fuel as
there are characters left comes along the path to the end of the template or to a step that
fails. -/
theorem Lexicon.Path.run_outcome (hd : lx.defect? = none) (hv : lx.Visible)
    (hm : closerOf? lx.interpolation.opening = none) {fuel : Nat} {ps : List Piece}
    {ls : List Layer} (h : lx.Path source s ps ls) (hfuel : s.rest.length ≤ fuel) :
    match run lx fuel s with
    | .ok s' => ∃ ps' ls', lx.Path source s' ps' ls' ∧ s'.rest = []
    | .error e =>
      ∃ s' ps' ls', lx.Path source s' ps' ls' ∧ s'.rest ≠ [] ∧ s'.step lx = .error e := by
  induction fuel generalizing s ps ls with
  | zero => exact ⟨ps, ls, h, List.length_eq_zero_iff.1 (Nat.le_zero.1 hfuel)⟩
  | succ fuel ih =>
    by_cases hne : s.rest = []
    · rw [run_nil lx _ hne]
      exact ⟨ps, ls, h, hne⟩
    · rw [run_succ lx fuel hne]
      cases hstep : s.step lx with
      | error e => exact ⟨s, ps, ls, h, hne, hstep⟩
      | ok s₁ =>
        obtain ⟨qs, ls', hqs, hread, -, hpath⟩ | ⟨hslip, -⟩ := h.next hd hne hstep
        · have hlt := hpath.length_lt hd hv hread hqs
          exact ih hpath (by omega)
        · have hsome := h.closerOf?_isSome hslip
          rw [hm] at hsome
          cases hsome

/-! ## Runs that end well -/

/-- A state that ends well has no tag open and no scope. -/
theorem State.finish_eq_ok {tokens : Array Token} (h : s.finish = .ok tokens) :
    s.mode ≠ .print ∧ s.mode ≠ .block ∧ s.scopes = [] ∧
      tokens = s.tokens.push (.eof s.position.toLocation) := by
  unfold State.finish at h
  split at h
  · cases h
  · cases h
  · rename_i hprint hblock
    split at h
    · cases h
    · rename_i hscopes
      cases h
      exact ⟨hprint, hblock, hscopes, rfl⟩

/-- A run that is lost does not end well. -/
theorem Stacks.Lost.finish_ne_ok (h : s.toStacks.Lost lx.toDialect) {tokens : Array Token} :
    s.finish ≠ .ok tokens := fun hok => h.scopes_ne_nil (State.finish_eq_ok hok).2.2.1

/-- On a path that ends well nothing is open. -/
theorem Lexicon.Path.layers_eq_nil {ps : List Piece} {ls : List Layer} {tokens : Array Token}
    (h : lx.Path source s ps ls) (hok : s.finish = .ok tokens) : ls = [] := by
  obtain ⟨hprint, hblock, hscopes, -⟩ := State.finish_eq_ok hok
  have hmode' := h.mode_eq
  have hscopes' := h.scopes_eq
  rw [hscopes] at hscopes'
  cases h.layered with
  | nil => rfl
  | @tag t _ ht =>
    cases t with
    | print => exact absurd hmode' hprint
    | block => exact absurd hmode' hblock
    | comment => exact absurd rfl ht
  | group => cases hscopes'
  | quote => cases hscopes'
  | interpolation => cases hscopes'

/-- A template that has tokens has them along a path at the end of which nothing is open. -/
theorem Lexicon.exists_path_of_tokens (hd : lx.defect? = none) (hv : lx.Visible)
    {tokens : Array Token} (h : lx.tokens source = .ok tokens) :
    ∃ s ps, lx.Path source s ps [] ∧ s.rest = [] ∧
      tokens = s.tokens.push (.eof s.position.toLocation) := by
  rw [Lexicon.tokens] at h
  cases hrun : run lx source.length (.start lx.toDialect source) with
  | error e =>
    rw [hrun] at h
    cases h
  | ok s =>
    rw [hrun] at h
    have hfinish : s.finish = .ok tokens := h
    obtain ⟨ps, ls, hpath, hrest⟩ | hlost := Path.start.run_ok hd hv (Nat.le_refl _) hrun
    · obtain rfl := hpath.layers_eq_nil hfinish
      exact ⟨s, ps, hpath, hrest, (State.finish_eq_ok hfinish).2.2.2⟩
    · exact absurd hfinish hlost.finish_ne_ok

/-- Where interpolations do not begin like a group, a template that has an error has it along a
path: in a step that fails, or at the end of the template. -/
theorem Lexicon.exists_path_of_error (hd : lx.defect? = none) (hv : lx.Visible)
    (hm : closerOf? lx.interpolation.opening = none) {e : SyntaxError}
    (h : lx.tokens source = .error e) :
    ∃ s ps ls, lx.Path source s ps ls ∧
      (s.rest ≠ [] ∧ s.step lx = .error e ∨ s.rest = [] ∧ s.finish = .error e) := by
  have houtcome := Path.start.run_outcome hd hv hm (Nat.le_refl source.length)
  rw [Lexicon.tokens] at h
  cases hrun : run lx source.length (.start lx.toDialect source) with
  | error e' =>
    rw [hrun] at h houtcome
    obtain ⟨s, ps, ls, hpath, hne, hstep⟩ := houtcome
    cases h
    exact ⟨s, ps, ls, hpath, Or.inl ⟨hne, hstep⟩⟩
  | ok s =>
    rw [hrun] at h houtcome
    obtain ⟨ps, ls, hpath, hnil⟩ := houtcome
    exact ⟨s, ps, ls, hpath, Or.inr ⟨hnil, h⟩⟩

end Runs

/-! ## Streams -/

theorem TokenStream.terminated_push_eof (ts : Array Token) (l : Location) :
    terminated (ts.push (.eof l)) = ts.push (.eof l) := by
  rw [terminated, Array.back?_push]
  rfl

/-- The tokens of a template end with the end of the template. -/
theorem Lexicon.terminated_of_tokens {lx : Lexicon} {source : Text} {tokens : Array Token}
    (h : lx.tokens source = .ok tokens) : TokenStream.terminated tokens = tokens := by
  rw [Lexicon.tokens] at h
  cases hrun : run lx source.length (.start lx.toDialect source) with
  | error e =>
    rw [hrun] at h
    cases h
  | ok s =>
    rw [hrun] at h
    rw [(State.finish_eq_ok h).2.2.2, TokenStream.terminated_push_eof]

/-- A template that has tokens has a stream of them. -/
theorem Lexer.exists_tokenize {l : Lexer} {source : Text} {tokens : Array Token}
    (h : (Lexicon.ofDialect l.dialect).tokens source = .ok tokens) :
    ∃ stream, l.tokenize source = .ok stream ∧ stream.tokens = tokens := by
  refine ⟨.ofTokens tokens (some source), ?_, Lexicon.terminated_of_tokens h⟩
  rw [tokenize, Lexer.tokens, h]
  rfl

theorem Lexer.tokenize_eq_ok_iff {l : Lexer} {source : Text} {stream : TokenStream} :
    l.tokenize source = .ok stream ↔
      (Lexicon.ofDialect l.dialect).tokens source = .ok stream.tokens ∧ stream.cursor = 0 ∧
        stream.source = some source := by
  rw [tokenize, Lexer.tokens]
  cases htokens : (Lexicon.ofDialect l.dialect).tokens source with
  | error e => exact iff_of_false nofun fun h => nomatch h.1
  | ok tokens =>
    have hterminated := Lexicon.terminated_of_tokens htokens
    constructor
    · intro h
      cases h
      exact ⟨congrArg Except.ok hterminated.symm, rfl, rfl⟩
    · obtain ⟨tokens', cursor, source', hlt⟩ := stream
      rintro ⟨h, rfl, rfl⟩
      cases h
      simp only [Except.map, TokenStream.ofTokens, hterminated]

theorem Lexer.tokenize_eq_error_iff {l : Lexer} {source : Text} {e : SyntaxError} :
    l.tokenize source = .error e ↔ (Lexicon.ofDialect l.dialect).tokens source = .error e := by
  rw [tokenize, Lexer.tokens]
  cases (Lexicon.ofDialect l.dialect).tokens source with
  | error e' =>
    rw [Except.map, Except.error.injEq, Except.error.injEq]
  | ok tokens => exact iff_of_false nofun nofun

/-- The tokens of a template are pieces that make it up, none of them empty, and the end. -/
theorem Lexer.exists_path_of_tokenize {l : Lexer} (hv : l.dialect.Visible) {source : Text}
    {stream : TokenStream} (h : l.tokenize source = .ok stream) :
    ∃ s ps, (Lexicon.ofDialect l.dialect).Path source s ps [] ∧ texts ps = source ∧ Proper ps ∧
      stream.tokens.toList = tokensFrom Location.start ps ++ [.eof s.position.toLocation] := by
  rw [tokenize] at h
  cases htokens : l.tokens source with
  | error e =>
    rw [htokens] at h
    cases h
  | ok tokens =>
    rw [htokens] at h
    cases h
    obtain ⟨s, ps, hpath, hrest, rfl⟩ := Lexicon.exists_path_of_tokens l.usable hv.lexicon htokens
    refine ⟨s, ps, hpath, ?_, hpath.proper l.usable hv.lexicon, ?_⟩
    · have hsource := hpath.source_eq
      rw [hrest, List.append_nil] at hsource
      exact hsource.symm
    · show (TokenStream.terminated (s.tokens.push (.eof s.position.toLocation))).toList = _
      rw [TokenStream.terminated_push_eof, Array.toList_push, hpath.reads.tokens_eq]
      rfl

/-! ## A dialect in which a run can slip -/

/-- The standard dialect with interpolations that begin and end like groups. -/
def Dialect.parenthesized : Dialect := { standard with interpolation := ⟨['('], [')']⟩ }

/-- The lexer for that dialect. -/
def Lexer.parenthesized : Lexer := ⟨Dialect.parenthesized, by decide⟩

end TemplateTokens
