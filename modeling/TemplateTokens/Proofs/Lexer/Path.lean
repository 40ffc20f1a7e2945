import TemplateTokens.Proofs.Lexer.Slip
import TemplateTokens.Proofs.Lexer.Step

/-!
# Paths

A path is a run up to some state in which every step has shifted the layers. It knows the pieces
read so far and the layers that are open. A run follows a path until it slips, and then it is lost.

Results:

* `Lexicon.Path.reads`: the tokens of a path are its pieces, and these are the beginning of the
  template.
* `State.Moves.exists_passed`, `Lexicon.Path.passed`, `Lexicon.Path.stands`: on a path, only tag
  starts before the position have been passed, and the next one stands in the rest.
* `Lexicon.Path.lost_of_slips`, `Lexicon.Path.next`: a step goes on along the path, or slips and is
  lost.
-/

namespace TemplateTokens

open Piece

/-- The two stacks of a run before its first step. -/
def Stacks.start : Stacks := ⟨.data, [], []⟩

theorem Stacks.isBase_start : Stacks.start.IsBase := Or.inl ⟨rfl, rfl⟩

theorem Stacks.nested_start : Stacks.start.Nested := Mode.Nested.data

/-- The states of a run in which every step so far has shifted the layers, with the pieces read and
the layers open. -/
inductive Lexicon.Path (lx : Lexicon) (source : Text) : State → List Piece → List Layer → Prop
  | start : Path lx source (.start lx.toDialect source) [] []
  | step {s s' : State} {ps qs : List Piece} {ls ls' : List Layer} : Path lx source s ps ls →
      s.rest ≠ [] → s.step lx = .ok s' → s.Moves lx qs s' → s.Reads qs s' →
      lx.Shift .start s.rest ls qs ls' → s'.toStacks = Stacks.start.under lx.toDialect ls' →
      Path lx source s' (ps ++ qs) ls'

/-! ## What holds on a path -/

namespace Lexicon.Path

variable {lx : Lexicon} {source : Text} {s s' : State} {ps : List Piece} {ls : List Layer}

theorem reads (h : lx.Path source s ps ls) : (State.start lx.toDialect source).Reads ps s := by
  induction h with
  | start => exact .refl _
  | step _ _ _ _ hread _ _ ih => exact ih.trans hread

theorem layered (h : lx.Path source s ps ls) : Layered lx.toDialect .start ls := by
  induction h with
  | start => exact .nil
  | step _ _ _ _ _ hshift _ ih => exact hshift.layered ih

theorem stacks_eq (h : lx.Path source s ps ls) :
    s.toStacks = Stacks.start.under lx.toDialect ls := by
  cases h with
  | start => rfl
  | step _ _ _ _ _ _ hstacks => exact hstacks

theorem mode_eq (h : lx.Path source s ps ls) :
    s.mode = (Stacks.start.under lx.toDialect ls).mode := congrArg Stacks.mode h.stacks_eq

theorem scopes_eq (h : lx.Path source s ps ls) :
    s.scopes = (Stacks.start.under lx.toDialect ls).scopes := congrArg Stacks.scopes h.stacks_eq

theorem source_eq (h : lx.Path source s ps ls) : source = texts ps ++ s.rest := h.reads.rest_eq

theorem offset_eq (h : lx.Path source s ps ls) : s.position.offset = byteSize (texts ps) := by
  rw [h.reads.offset_eq]
  exact Nat.zero_add _

/-- A string is closed with the quote that it was opened with. -/
theorem quoteCloser_eq (h : lx.Path source s ps ls) (hmode : s.mode = .string) :
    s.quoteCloser = ['"'] := by
  rw [h.mode_eq] at hmode
  obtain rfl | ⟨openedAt, ls', rfl⟩ := h.layered.exists_quote hmode
  · cases hmode
  · rw [State.quoteCloser, h.scopes_eq]
    rfl

theorem proper (hd : lx.defect? = none) (hv : lx.Visible) (h : lx.Path source s ps ls) :
    Proper ps := by
  induction h with
  | start => exact proper_nil
  | step hpath hne _ hmoves _ _ _ ih =>
    refine proper_append.2 ⟨ih, hmoves.move.proper hd hv ?_ hne⟩
    intro hmode
    rw [hpath.quoteCloser_eq hmode]
    exact List.cons_ne_nil _ _

end Lexicon.Path

/-! ## Tag starts -/

/-- The tag starts before the position, those ahead of it, and the next one: if one of the first
reaches over the position the search is made anew, and otherwise it is the first of the second. -/
theorem State.exists_nextTagStart (s : State) (d : Dialect) : ∃ passed ahead,
    s.tagStarts = passed ++ ahead ∧ (∀ t ∈ passed, t.start < s.position.offset) ∧
      (∀ t ∈ ahead.head?, s.position.offset ≤ t.start) ∧
      ((∃ t ∈ passed, s.position.offset < d.tagStop t) ∧
          (s.nextTagStart d).1 = d.firstTagStart? s.position.offset s.rest ∧
          (s.nextTagStart d).2.tagStarts = ahead ∨
        (∀ t ∈ passed, d.tagStop t ≤ s.position.offset) ∧
          (s.nextTagStart d).1 = ahead.head? ∧ (s.nextTagStart d).2.tagStarts = ahead.tail) := by
  refine ⟨s.tagStarts.takeWhile fun t => t.start < s.position.offset,
    s.tagStarts.dropWhile fun t => t.start < s.position.offset,
    List.takeWhile_append_dropWhile.symm, ?_, ?_, ?_⟩
  · intro t ht
    simpa using List.all_eq_true.1 List.all_takeWhile t ht
  · intro t ht
    have := List.head?_dropWhile_not
      (fun t : TagStart => decide (t.start < s.position.offset)) s.tagStarts
    rw [Option.mem_def.1 ht] at this
    simpa using this
  · rw [nextTagStart]
    split
    · rename_i hreach
      exact Or.inl ⟨by simpa using hreach, rfl, rfl⟩
    · rename_i hreach
      exact Or.inr ⟨by simpa using hreach, rfl, rfl⟩

/-- A step passes only tag starts that start before the position it comes to. -/
theorem State.Moves.exists_passed {lx : Lexicon} {s s' : State} {qs : List Piece}
    (hd : lx.defect? = none) (h : s.Moves lx qs s') (hread : s.Reads qs s') :
    ∃ passed, s.tagStarts = passed ++ s'.tagStarts ∧
      ∀ t ∈ passed, t.start < s'.position.offset := by
  have hoffset := hread.offset_eq
  by_cases hmode : s.mode = .data
  · rw [h.tagStarts_eq, if_pos hmode]
    obtain ⟨passed, ahead, hsplit, hpassed, -, ⟨-, -, htags⟩ | ⟨-, hnext, htags⟩⟩ :=
      s.exists_nextTagStart lx.toDialect
    · refine ⟨passed, by rw [htags, hsplit], ?_⟩
      intro t ht
      have := hpassed t ht
      omega
    · cases ahead with
      | nil =>
        refine ⟨passed, by rw [htags, hsplit, List.tail_nil], ?_⟩
        intro t ht
        have := hpassed t ht
        omega
      | cons u ahead =>
        refine ⟨passed ++ [u], by rw [htags, hsplit, List.append_assoc]; rfl, ?_⟩
        intro t ht
        rcases List.mem_append.1 ht with ht | ht
        · have := hpassed t ht
          omega
        · obtain rfl := List.mem_singleton.1 ht
          rw [hoffset]
          exact h.move.start_lt hd hmode hnext
  · exact ⟨[], by rw [h.tagStarts_eq, if_neg hmode]; rfl, nofun⟩

theorem ne_quote_of_closerOf?_isSome {t : Text} (h : (closerOf? t).isSome) : t ≠ ['"'] := by
  rintro rfl
  cases h

namespace Lexicon.Path

variable {lx : Lexicon} {source : Text} {s s' : State} {ps : List Piece} {ls : List Layer}

/-- The tag starts that have been passed start before the position. -/
theorem passed (hd : lx.defect? = none) (h : lx.Path source s ps ls) :
    ∃ passed, lx.tagStarts source = passed ++ s.tagStarts ∧
      ∀ t ∈ passed, t.start < s.position.offset := by
  induction h with
  | start => exact ⟨[], rfl, nofun⟩
  | @step s s' _ _ _ _ _ _ _ hmoves hread _ _ ih =>
    obtain ⟨passed, hall, hpassed⟩ := ih
    obtain ⟨more, hmore, hbefore⟩ := hmoves.exists_passed hd hread
    refine ⟨passed ++ more, by rw [hall, hmore, List.append_assoc], ?_⟩
    intro t ht
    rcases List.mem_append.1 ht with ht | ht
    · have := hpassed t ht
      have := hread.offset_eq
      omega
    · exact hbefore t ht

/-- The next tag start stands in the rest. -/
theorem stands (hd : lx.defect? = none) (h : lx.Path source s ps ls) {t : TagStart}
    (hnext : (s.nextTagStart lx.toDialect).1 = some t) : lx.Stands t s.position.offset s.rest := by
  obtain ⟨passed, hall, -⟩ := h.passed hd
  obtain ⟨more, ahead, hsplit, -, hahead, ⟨-, hfind, -⟩ | ⟨-, hfind, -⟩⟩ :=
    s.exists_nextTagStart lx.toDialect
  · exact Dialect.stands_of_firstTagStart? (hfind.symm.trans hnext)
  · have hhead : ahead.head? = some t := hfind.symm.trans hnext
    have hmem : t ∈ lx.tagStarts source := by
      rw [hall, hsplit]
      exact List.mem_append_right _ (List.mem_append_right _ (List.mem_of_head? hhead))
    have hstands := Dialect.stands_of_mem_tagStarts hd hmem
    have hle := hahead t hhead
    rw [h.source_eq] at hstands
    rw [h.offset_eq] at hle ⊢
    simpa using hstands.of_append (by omega)

/-! ## Steps along a path -/

theorem outcome (hd : lx.defect? = none) (h : lx.Path source s ps ls) (hne : s.rest ≠ []) :
    s.Outcome lx (s.step lx) :=
  State.outcome_step (fun _ _ hnext => h.stands hd hnext) hne

/-- A step takes a bracket for the interpolation around it: the end of an interpolation stands
behind a bracket that is open and begins like an interpolation. -/
structure Slips (lx : Lexicon) (s : State) (ls : List Layer) : Prop where
  mode_eq : s.mode = .interpolation
  closes : (lx.interpolationClose? s.rest).isSome
  group : ∃ scope ls', ls = .group scope :: ls' ∧ scope.opener = lx.interpolation.opening

/-- Only a bracket that interpolations begin with can be taken for one. -/
theorem closerOf?_isSome (h : lx.Path source s ps ls) (hslip : Slips lx s ls) :
    (closerOf? lx.interpolation.opening).isSome := by
  obtain ⟨scope, ls', rfl, hopener⟩ := hslip.group
  cases h.layered with
  | group hgroup => rw [← hopener, show closerOf? scope.opener = _ from hgroup, Option.isSome_some]

/-- A slip leaves the stacks lost. -/
theorem lost_of_slips (h : lx.Path source s ps ls) (hslip : Slips lx s ls) :
    s.toStacks.pop.leave.Lost lx.toDialect := by
  have hm := ne_quote_of_closerOf?_isSome (h.closerOf?_isSome hslip)
  have hnested := h.layered.nested Stacks.nested_start
  have hle := h.layered.strings_le (Nat.zero_le _)
  have hmode : s.toStacks.mode = .interpolation := hslip.mode_eq
  obtain ⟨scope, ls', rfl, -⟩ := hslip.group
  rw [h.stacks_eq] at hmode ⊢
  have hleave := (Stacks.start.under lx.toDialect (.group scope :: ls')).strings_leave_le
  have hstring := (hnested.leave_interpolation hmode).2
  cases h.layered with
  | group hgroup _ hl =>
    have hquotes := (Stacks.start.under lx.toDialect (.group scope :: ls')).quotes_pop rfl
      hgroup.not_isQuote
    refine ⟨(hnested.leave_interpolation hmode).1, ?_, Or.inr ⟨?_, ?_⟩⟩
    · show (Stacks.start.under lx.toDialect (.group scope :: ls')).leave.mode ≠ .data
      rw [hstring]
      exact nofun
    · rw [Stacks.strings_pop_leave, Stacks.quotes_leave]
      omega
    · exact hl.covered_of_slip hm Stacks.isBase_start (hl.nested Stacks.nested_start) hmode

/-- A step goes on along the path, or slips and is lost. -/
theorem next (hd : lx.defect? = none) (h : lx.Path source s ps ls) (hne : s.rest ≠ [])
    (hstep : s.step lx = .ok s') :
    (∃ qs ls', qs ≠ [] ∧ s.Reads qs s' ∧ lx.Shift .start s.rest ls qs ls' ∧
        lx.Path source s' (ps ++ qs) ls') ∨
      Slips lx s ls ∧ s'.toStacks.Lost lx.toDialect := by
  obtain ⟨qs, hmoves⟩ : s.Outcome lx (.ok s') := hstep ▸ h.outcome hd hne
  have hpre : texts qs <+: s.rest := hmoves.move.texts_isPrefix h.quoteCloser_eq
  have hread := hmoves.reads hpre
  obtain ⟨ls', hshift, hstacks⟩ | ⟨-, hbase, -⟩ |
      ⟨scope, ls', rfl, hopener, hmode, hclose, hstacks⟩ :=
    hmoves.move.layers Stacks.isBase_start h.layered h.stacks_eq
  · exact Or.inl ⟨qs, ls', hmoves.move.ne_nil, hread, hshift,
      h.step hne hstep hmoves hread hshift hstacks⟩
  · cases hbase
  · have hslip : Slips lx s (.group scope :: ls') := ⟨hmode, hclose, scope, ls', rfl, hopener⟩
    refine Or.inr ⟨hslip, ?_⟩
    have hlost := h.lost_of_slips hslip
    rw [h.stacks_eq] at hlost
    rw [hstacks]
    exact hlost

/-- Every step takes at least one character. -/
theorem length_lt (hd : lx.defect? = none) (hv : lx.Visible) {qs : List Piece} {ls' : List Layer}
    (hread : s.Reads qs s') (h : lx.Path source s' (ps ++ qs) ls') (hqs : qs ≠ []) :
    s'.rest.length < s.rest.length := by
  have hproper := (proper_append.1 (h.proper hd hv)).2
  have hpos := List.length_pos_iff.2 (texts_ne_nil hproper hqs)
  rw [hread.rest_eq, List.length_append]
  omega

end Lexicon.Path

end TemplateTokens
