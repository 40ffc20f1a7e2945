import TemplateTokens.Proofs.Lexer.Run

/-!
# Scopes and the parts they belong to

A string and an interpolation each have a scope that is opened where they are entered. A run
should close that scope, and no other, where it leaves them. It finds out which scope is innermost
from the text of its opener alone, and an opening bracket may be written like the beginning of an
interpolation: then a bracket that is open inside of an interpolation is closed in its place. As
long as this does not happen, parts and scopes are in step, and every token is the text at the
position.

Results:

* `Entered.follow`: a shift of the layers keeps track of where each part was entered.
* `Lexer.inStep_iff_not_slips`: parts and scopes are in step throughout a run exactly if no bracket
  is taken for an interpolation.
-/

namespace TemplateTokens

open Piece

/-! ## Runs that remember -/

namespace State

/-- The states in which the parts around the present one were entered, and it, innermost first: as
they are behind a step from `s` to `s'`. -/
def follow (s s' : State) (entered : List State) : List State :=
  if s.outer.length < s'.outer.length then s' :: entered
  else if s'.outer.length < s.outer.length then entered.tail
  else entered

end State

/-- The states of the run over a template, each with those in which the parts that it is inside of
were entered. -/
inductive Lexicon.Traced (lx : Lexicon) (source : Text) : State → List State → Prop
  | start : Traced lx source (.start lx.toDialect source) []
  | step {s s' : State} {entered : List State} : Traced lx source s entered → s.rest ≠ [] →
      s.step lx = .ok s' → Traced lx source s' (s.follow s' entered)

namespace State

/-- The next step closes the string it is inside of. -/
def ClosesString (lx : Lexicon) (s : State) : Prop :=
  s.mode = .string ∧ s.rest ≠ [] ∧ lx.interpolationOpen? s.rest = none ∧
    stringPiece lx.interpolation.opening s.rest = []

/-- The next step ends the interpolation it is inside of. -/
def ClosesInterpolation (lx : Lexicon) (s : State) : Prop :=
  s.mode = .interpolation ∧ s.scopes.head?.map Scope.opener = some lx.interpolation.opening ∧
    (lx.interpolationClose? s.rest).isSome

/-- The scopes that are open are those that were open when the present part was entered, and the
innermost is that of the part. -/
def InScope (s : State) (entered : List State) (opener closer : Text) : Prop :=
  ∃ e ∈ entered.head?, e.mode = s.mode ∧ e.scopes = s.scopes ∧
    ∃ openedAt, s.scopes.head? = some ⟨opener, closer, openedAt⟩

/-- Parts and scopes are in step: the tokens so far are pieces each of which stood at the position,
the position is a place between two characters of the template, a string or an interpolation that
is closed here is closed with the scope that was opened with it, and a step that fails has read
pieces that stood at the position. -/
structure InStep (lx : Lexicon) (source : Text) (s : State) (entered : List State) : Prop where
  reads : ∃ ps, (State.start lx.toDialect source).Reads ps s
  boundary : SliceAt source s.position.offset s.rest
  string : s.ClosesString lx → s.InScope entered ['"'] ['"']
  interpolation : s.ClosesInterpolation lx →
    s.InScope entered lx.interpolation.opening lx.interpolation.closing
  fails : s.rest ≠ [] → ∀ e, s.step lx = .error e → ∃ ps cause skipped,
    lx.Fails s ps cause skipped ∧ texts ps ++ skipped <+: s.rest ∧
      e = ⟨cause, (stop s.position ps).toLocation.advance skipped⟩

/-- The next step takes a bracket for the interpolation around it: it ends an interpolation in which
brackets are open, the innermost of them written like the beginning of an interpolation. -/
def Slips (lx : Lexicon) (s : State) (entered : List State) : Prop :=
  s.ClosesInterpolation lx ∧ ∃ e ∈ entered.head?, ∃ group groups,
    s.scopes = group :: (groups ++ e.scopes) ∧ group.IsGroup ∧
      group.opener = lx.interpolation.opening

end State

/-! ## Where the open parts were entered -/

/-- A layer that is a part of the template, and not a bracket. -/
def Layer.IsPart (l : Layer) : Prop := ∀ scope, l ≠ .group scope

/-- States that are as they should be where the open parts are entered. -/
inductive Entered (d : Dialect) : List Layer → List State → Prop
  | nil : Entered d [] []
  | group {scope : Scope} {ls : List Layer} {entered : List State} : Entered d ls entered →
      Entered d (.group scope :: ls) entered
  | part {l : Layer} {e : State} {ls : List Layer} {entered : List State} : l.IsPart →
      e.toStacks = Stacks.start.under d (l :: ls) → Entered d ls entered →
      Entered d (l :: ls) (e :: entered)

theorem Lexicon.Shift.cons_or_cons {lx : Lexicon} {base : Stacks} {rest : Text}
    {ls ls' : List Layer} {ps : List Piece} (h : lx.Shift base rest ls ps ls') :
    ls' = ls ∨ (∃ l, ls' = l :: ls) ∨ ∃ l, ls = l :: ls' := by
  cases h with
  | text => exact Or.inl rfl
  | comment => exact Or.inl rfl
  | verbatim => exact Or.inl rfl
  | openTag => exact Or.inr (Or.inl ⟨_, rfl⟩)
  | closeTag => exact Or.inr (Or.inr ⟨_, rfl⟩)
  | blanks => exact Or.inl rfl
  | lexeme => exact Or.inl rfl
  | openGroup => exact Or.inr (Or.inl ⟨_, rfl⟩)
  | closeGroup => exact Or.inr (Or.inr ⟨_, rfl⟩)
  | openQuote => exact Or.inr (Or.inl ⟨_, rfl⟩)
  | stringPiece => exact Or.inl rfl
  | closeQuote => exact Or.inr (Or.inr ⟨_, rfl⟩)
  | openInterpolation => exact Or.inr (Or.inl ⟨_, rfl⟩)
  | closeInterpolation => exact Or.inr (Or.inr ⟨_, rfl⟩)

theorem Layer.group_or_isPart (l : Layer) : (∃ scope, l = .group scope) ∨ l.IsPart := by
  cases l with
  | group scope => exact Or.inl ⟨scope, rfl⟩
  | tag => exact Or.inr nofun
  | quote => exact Or.inr nofun
  | interpolation => exact Or.inr nofun

theorem Layer.IsPart.outer_onto {l : Layer} (h : l.IsPart) (d : Dialect) (st : Stacks) :
    (l.onto d st).outer = st.mode :: st.outer := by
  cases l with
  | group scope => exact absurd rfl (h scope)
  | tag => rfl
  | quote => rfl
  | interpolation => rfl

namespace Entered

variable {d : Dialect} {ls ls' : List Layer} {entered : List State} {s s' : State}

/-- A shift of the layers keeps track of where each part was entered. -/
theorem follow (h : Entered d ls entered) (hs : s.toStacks = Stacks.start.under d ls)
    (hs' : s'.toStacks = Stacks.start.under d ls')
    (hl : ls' = ls ∨ (∃ l, ls' = l :: ls) ∨ ∃ l, ls = l :: ls') :
    Entered d ls' (s.follow s' entered) := by
  have houter : s.outer = _ := congrArg Stacks.outer hs
  have houter' : s'.outer = _ := congrArg Stacks.outer hs'
  rw [State.follow, houter, houter']
  rcases hl with rfl | ⟨l, rfl⟩ | ⟨l, rfl⟩
  · rw [if_neg (Nat.lt_irrefl _), if_neg (Nat.lt_irrefl _)]
    exact h
  · rcases l.group_or_isPart with ⟨scope, rfl⟩ | hpart
    · rw [show (Stacks.start.under d (.group scope :: ls)).outer = (Stacks.start.under d ls).outer
        from rfl, if_neg (Nat.lt_irrefl _), if_neg (Nat.lt_irrefl _)]
      exact h.group
    · rw [Stacks.under_cons, hpart.outer_onto, List.length_cons, if_pos (Nat.lt_succ_self _)]
      exact h.part hpart hs'
  · rcases l.group_or_isPart with ⟨scope, rfl⟩ | hpart
    · rw [show (Stacks.start.under d (.group scope :: ls')).outer = (Stacks.start.under d ls').outer
        from rfl, if_neg (Nat.lt_irrefl _), if_neg (Nat.lt_irrefl _)]
      cases h with
      | group h => exact h
      | part hpart => exact absurd rfl (hpart scope)
    · rw [Stacks.under_cons, hpart.outer_onto, List.length_cons,
        if_neg (Nat.not_lt.2 (Nat.le_succ _)), if_pos (Nat.lt_succ_self _)]
      cases h with
      | group => exact absurd rfl (hpart _)
      | part _ _ h => exact h

/-- Where a part is innermost, it was entered with the scopes that are open. -/
theorem exists_of_isPart {l : Layer} (h : Entered d (l :: ls) entered) (hpart : l.IsPart) :
    ∃ e ∈ entered.head?, e.toStacks = Stacks.start.under d (l :: ls) := by
  cases h with
  | group => exact absurd rfl (hpart _)
  | part _ he _ => exact ⟨_, rfl, he⟩

/-- Inside an interpolation only brackets have been opened since it was entered. -/
theorem exists_append (h : Entered d ls entered) (hl : Layered d .start ls)
    (hmode : (Stacks.start.under d ls).mode = .interpolation) :
    ∃ e ∈ entered.head?, ∃ groups, (Stacks.start.under d ls).scopes = groups ++ e.scopes := by
  induction h with
  | nil => cases hmode
  | @group scope ls entered h ih =>
    cases hl with
    | group _ _ hl =>
      obtain ⟨e, he, groups, hscopes⟩ := ih hl hmode
      refine ⟨e, he, scope :: groups, ?_⟩
      rw [List.cons_append, ← hscopes]
      rfl
  | part _ he _ _ => exact ⟨_, rfl, [], (congrArg Stacks.scopes he).symm⟩

end Entered

/-! ## In step or slipping -/

section

variable {lx : Lexicon} {source : Text} {s : State} {ps : List Piece} {ls : List Layer}
  {entered : List State}

/-- A slip on a path, told from where the interpolation was entered. -/
theorem Lexicon.Path.slips (h : lx.Path source s ps ls) (hent : Entered lx.toDialect ls entered)
    (hslip : Slips lx s ls) : s.Slips lx entered := by
  have hscopes := h.scopes_eq
  have hmode := h.mode_eq
  obtain ⟨scope, ls', rfl, hopener⟩ := hslip.group
  refine ⟨⟨hslip.mode_eq, ?_, hslip.closes⟩, ?_⟩
  · rw [hscopes]
    exact congrArg some hopener
  cases h.layered with
  | group hgroup _ hl =>
    cases hent with
    | part hpart => exact absurd rfl (hpart scope)
    | group hent =>
      obtain ⟨e, he, groups, happend⟩ := hent.exists_append hl (hmode.symm.trans hslip.mode_eq)
      refine ⟨e, he, scope, groups, ?_, hgroup, hopener⟩
      rw [hscopes, ← happend]
      rfl

/-- On a path that does not slip here, parts and scopes are in step. -/
theorem Lexicon.Path.inStep (hd : lx.defect? = none) (h : lx.Path source s ps ls)
    (hent : Entered lx.toDialect ls entered) (hslip : ¬ s.Slips lx entered) :
    s.InStep lx source entered := by
  have hscopes := h.scopes_eq
  have hmode := h.mode_eq
  have hinner {l : Layer} {ls' : List Layer} (hls : ls = l :: ls') (hpart : l.IsPart) :
      ∃ e ∈ entered.head?, e.mode = s.mode ∧ e.scopes = s.scopes := by
    subst hls
    obtain ⟨e, he, hstacks⟩ := hent.exists_of_isPart hpart
    rw [← h.stacks_eq] at hstacks
    exact ⟨e, he, congrArg Stacks.mode hstacks, congrArg Stacks.scopes hstacks⟩
  refine ⟨⟨ps, h.reads⟩, ⟨texts ps, [], ?_, h.offset_eq.symm⟩, ?_, ?_, ?_⟩
  · rw [List.append_nil]
    exact h.source_eq
  · rintro ⟨hstring, -⟩
    obtain rfl | ⟨openedAt, ls', rfl⟩ := h.layered.exists_quote (hmode.symm.trans hstring)
    · cases hmode.symm.trans hstring
    · obtain ⟨e, he, hmode', hscopes'⟩ := hinner rfl fun _ h => by cases h
      exact ⟨e, he, hmode', hscopes', openedAt, by rw [hscopes]; rfl⟩
  · intro hcloses
    have hinter := hcloses.1
    have hexp : (Stacks.start.under lx.toDialect ls).mode.IsExpression := by
      rw [← hmode, hinter]
      exact ⟨by decide, by decide⟩
    obtain ⟨t, rfl, -⟩ | ⟨group, ls', rfl⟩ | ⟨openedAt, ls', rfl⟩ :=
      h.layered.exists_cons_of_isExpression Stacks.isBase_start hexp
    · exact absurd (hmode.symm.trans hinter) (Tag.mode_ne_interpolation t)
    · have hopener := hcloses.2.1
      rw [hscopes] at hopener
      have hslip' := h.slips hent ⟨hinter, hcloses.2.2, group, ls', rfl, Option.some.inj hopener⟩
      exact absurd hslip' hslip
    · obtain ⟨e, he, hmode', hscopes'⟩ := hinner rfl fun _ h => by cases h
      exact ⟨e, he, hmode', hscopes', openedAt, by rw [hscopes]; rfl⟩
  · intro hne e hstep
    obtain ⟨qs, cause, skipped, hfails, heq⟩ : s.Outcome lx (.error e) := hstep ▸ h.outcome hd hne
    exact ⟨qs, cause, skipped, hfails, hfails.texts_isPrefix, heq⟩

/-- Every state of a run is on a path that remembers where the open parts were entered, or there
was a slip before it. -/
theorem Lexicon.Traced.path_or_slips (hd : lx.defect? = none) (h : lx.Traced source s entered) :
    (∃ ps ls, lx.Path source s ps ls ∧ Entered lx.toDialect ls entered) ∨
      ∃ s₀ entered₀, lx.Traced source s₀ entered₀ ∧ s₀.Slips lx entered₀ := by
  induction h with
  | start => exact Or.inl ⟨[], [], .start, .nil⟩
  | @step s s' entered h hne hstep ih =>
    obtain ⟨ps, ls, hpath, hent⟩ | hslipped := ih
    · obtain ⟨qs, ls', -, -, hshift, hpath'⟩ | ⟨hslip, -⟩ := hpath.next hd hne hstep
      · exact Or.inl ⟨_, ls', hpath',
          hent.follow hpath.stacks_eq hpath'.stacks_eq hshift.cons_or_cons⟩
      · exact Or.inr ⟨s, entered, h, hpath.slips hent hslip⟩
    · exact Or.inr hslipped

theorem Lexicon.Reachable.exists_traced (h : lx.Reachable source s) :
    ∃ entered, lx.Traced source s entered := by
  induction h with
  | start => exact ⟨[], .start⟩
  | step _ hne hstep ih =>
    obtain ⟨entered, h⟩ := ih
    exact ⟨_, h.step hne hstep⟩

/-- A slip ends an interpolation with another scope than its own. -/
theorem State.Slips.not_inScope {opener closer : Text} (h : s.Slips lx entered) :
    ¬ s.InScope entered opener closer := by
  rintro ⟨e, he, -, hscopes, -⟩
  obtain ⟨-, e', he', group, groups, hsplit, -, -⟩ := h
  obtain rfl : e = e' := Option.some.inj (he.symm.trans he')
  have hlength := congrArg List.length (hscopes.trans hsplit)
  rw [List.length_cons, List.length_append] at hlength
  omega

end

/-- Parts and scopes are in step in every state of a run exactly if in none of them a bracket is
taken for the interpolation around it, and so they are if no interpolation begins like a group. -/
theorem Lexer.inStep_iff_not_slips (l : Lexer) (source : Text) :
    ((∀ s entered, (Lexicon.ofDialect l.dialect).Traced source s entered →
        s.InStep (.ofDialect l.dialect) source entered) ↔
      ∀ s entered, (Lexicon.ofDialect l.dialect).Traced source s entered →
        ¬ s.Slips (.ofDialect l.dialect) entered) ∧
    (closerOf? l.dialect.interpolation.opening = none →
      ∀ s entered, (Lexicon.ofDialect l.dialect).Traced source s entered →
        s.InStep (.ofDialect l.dialect) source entered) := by
  have hinStep (hnever : ∀ s entered, (Lexicon.ofDialect l.dialect).Traced source s entered →
      ¬ s.Slips (.ofDialect l.dialect) entered) : ∀ s entered,
      (Lexicon.ofDialect l.dialect).Traced source s entered →
        s.InStep (.ofDialect l.dialect) source entered := by
    intro s entered h
    obtain ⟨ps, ls, hpath, hent⟩ | ⟨s₀, entered₀, h₀, hslip⟩ := h.path_or_slips l.usable
    · exact hpath.inStep l.usable hent (hnever s entered h)
    · exact absurd hslip (hnever s₀ entered₀ h₀)
  refine ⟨⟨fun hall s entered h hslip => ?_, hinStep⟩, fun hopening => hinStep ?_⟩
  · exact hslip.not_inScope ((hall s entered h).interpolation hslip.1)
  · rintro s entered - ⟨-, e, -, group, groups, -, hgroup, hopener⟩
    rw [Scope.IsGroup, hopener] at hgroup
    cases hopening.symm.trans hgroup

/-- In a dialect in which they do, a string is closed with the scope of its interpolation, and the
text of the token is not what stands there. -/
theorem Lexer.exists_not_inScope : ∃ s entered,
    (Lexicon.ofDialect Dialect.parenthesized).Traced
        ['{', '{', ' ', '"', '(', '(', ' ', ')', ')', '"', ' ', '}', '}'] s entered ∧
      s.ClosesString (.ofDialect Dialect.parenthesized) ∧ ¬ s.InScope entered ['"'] ['"'] ∧
      ¬ s.quoteCloser <+: s.rest := by
  obtain ⟨s, hrun, hmode, hopen, hpiece, hcloser, hscope, hrest⟩ : ∃ s,
      run (.ofDialect Dialect.parenthesized) 6 (.start .parenthesized
        ['{', '{', ' ', '"', '(', '(', ' ', ')', ')', '"', ' ', '}', '}']) = .ok s ∧
      s.mode = .string ∧ Dialect.parenthesized.interpolationOpen? s.rest = none ∧
      stringPiece ['('] s.rest = [] ∧ s.quoteCloser = [')'] ∧
      s.scopes.head?.map Scope.opener = some ['('] ∧ s.rest = ['"', ' ', '}', '}'] :=
    ⟨_, rfl, rfl, rfl, rfl, rfl, rfl, rfl⟩
  obtain ⟨entered, htraced⟩ := (Lexicon.Reachable.start.of_run hrun).exists_traced
  refine ⟨s, entered, htraced, ⟨hmode, ?_, hopen, hpiece⟩, ?_, ?_⟩
  · rw [hrest]
    exact List.cons_ne_nil _ _
  · rintro ⟨-, -, -, -, openedAt, hhead⟩
    rw [hhead] at hscope
    cases hscope
  · rw [hcloser, hrest]
    decide

end TemplateTokens
