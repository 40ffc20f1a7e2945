import TemplateTokens.Proofs.Lexer.Leads
import TemplateTokens.Proofs.Lexer.Stopped

/-!
# In front of the end of a tag

A template in the standard dialect may end with the end of a tag. In front of it no step of the run
looks past it: its brace stops all that is read, and it is itself found as it stands. Only a line
break could go on behind it, and none may go on there.

Results:

* `Lexicon.Closes.exists_step`: where such a template has not come to its end, a step is taken.
* `Lexicon.Closes.settled`: nothing that the step looks at depends on the text behind the template.
-/

namespace TemplateTokens

open Piece

/-! ## Templates that end with a tag -/

/-- The run goes on from `s` to the end of the template, where the end `v` of a tag stands. -/
def Lexicon.Closes (lx : Lexicon) (s : State) (v : Text) : Prop :=
  ∃ rs s' tag, lx.Leads s rs s' ∧ s'.rest = [] ∧ rs.getLast? = some ⟨tag.endKind, v⟩ ∧ lx.Ends tag v

namespace Lexicon.Closes

variable {source v : Text} {s : State} {ps : List Piece} {ls : List Layer}

theorem suffix {lx : Lexicon} (h : lx.Closes s v) : v <:+ s.rest := by
  obtain ⟨rs, s', tag, hleads, hnil, hlast, -⟩ := h
  rw [hleads.reads.rest_eq, hnil, List.append_nil]
  exact suffix_of_getLast? hlast

theorem exists_ends {lx : Lexicon} (h : lx.Closes s v) : ∃ tag, lx.Ends tag v := by
  obtain ⟨_, _, tag, _, _, _, hends⟩ := h
  exact ⟨tag, hends⟩

theorem brace_mem (h : standard.Closes s v) : '}' ∈ s.rest := by
  obtain ⟨tag, hends⟩ := h.exists_ends
  exact h.suffix.subset hends.brace_mem

/-- No end of a tag begins with a blank. -/
theorem suffix_dropWhile (h : standard.Closes s v) : v <:+ s.rest.dropWhile isBlank := by
  obtain ⟨tag, hends⟩ := h.exists_ends
  obtain ⟨r, hr⟩ := h.suffix
  obtain ⟨c, hc, t, rfl⟩ := hends.exists_eq
  have hblank : ¬ isBlank c = true :=
    List.any_eq_false.1 (show ['}', '%', '#'].any isBlank = false from by decide) c hc
  rw [← hr, List.dropWhile_append, List.dropWhile_cons_of_neg hblank]
  split
  · exact List.suffix_rfl
  · exact List.suffix_append _ _

/-- Behind the beginning of a tag the brace is still to come. -/
theorem brace_mem_behind (h : standard.Closes s v) {before after : Text} {t : TagStart}
    (hfind : s.Finds standard.toDialect before t after) : '}' ∈ after := by
  obtain ⟨tag, hends⟩ := h.exists_ends
  obtain ⟨hopening, hapart⟩ := Dialect.startText_standard t
  have hsuffix : standard.startText t ++ after <:+ s.rest := by
    rw [hfind.rest_eq]
    exact List.suffix_append _ _
  obtain hin | hin := List.suffix_or_suffix_of_suffix h.suffix hsuffix
  · exact mem_of_mem_append (hin.subset hends.brace_mem) (hapart '}' List.mem_cons_self)
  · exact absurd (hin.subset (List.mem_append_left _ hopening)) hends.not_mem

/-- Where such a template has not come to its end, a step is taken; and the end of the tag is read
last. -/
theorem exists_step (h : standard.Closes s v) (hpath : standard.Path source s ps ls) :
    ∃ qs s₁ ls', s.step standard = .ok s₁ ∧ s.Moves standard qs s₁ ∧ s.Reads qs s₁ ∧
      standard.Path source s₁ (ps ++ qs) ls' ∧ State.EndsWell qs s₁ ∧
      (s₁.rest ≠ [] → standard.Closes s₁ v) := by
  obtain ⟨rs, s', tag, hleads, hnil, hlast, hends⟩ := h
  cases hleads with
  | refl => cases hlast
  | @step _ s₁ _ qs rs hne hstep hread hleads =>
    obtain ⟨-, hmoves, ls', hpath'⟩ :=
      hpath.moves Dialect.defect?_standard closerOf?_standard hne hstep hread
    refine ⟨qs, s₁, ls', hstep, hmoves, hread, hpath', fun hend => ⟨tag, v, ?_⟩, fun hmore => ?_⟩
    · rwa [(hleads.eq_nil hend).1, List.append_nil] at hlast
    · have hrs : rs ≠ [] := by
        rintro rfl
        have hrest := hleads.reads.rest_eq
        rw [hnil] at hrest
        exact hmore hrest
      rw [List.getLast?_append, List.getLast?_eq_some_getLast hrs, Option.some_or] at hlast
      refine ⟨rs, s', tag, hleads, hnil, ?_, hends⟩
      rw [List.getLast?_eq_some_getLast hrs, hlast]

theorem next (h : standard.Closes s v) (hpath : standard.Path source s ps ls) {s₁ : State}
    (hstep : s.step standard = .ok s₁) (hne : s₁.rest ≠ []) : standard.Closes s₁ v := by
  obtain ⟨_, s₂, _, hstep₂, -, -, -, -, hnext⟩ := h.exists_step hpath
  obtain rfl := Except.ok.inj (hstep₂.symm.trans hstep)
  exact hnext hne

/-! ## What the step looks at -/

section

variable (h : standard.Closes s v) (hpath : standard.Path source s ps ls)

include h hpath

theorem stringPiece_ne (hmode : s.mode = .string) :
    stringPiece standard.interpolation.opening s.rest ≠ s.rest := by
  obtain ⟨qs, s₁, -, -, hmoves, hread, -, hends, -⟩ := h.exists_step hpath
  exact hmoves.stringPiece_ne hread hends hmode

variable {more : Text} (hmore : v ≠ Dialect.standard.print.closing →
  ∀ c ∈ more.head?, isLineBreak c = false)

include hmore

/-- Its brace keeps a step from looking past the end of the tag. -/
theorem stopped : s.Stopped '}' more := by
  obtain ⟨tag, hends⟩ := h.exists_ends
  obtain ⟨qs, s₁, ls', hstep, hmoves, hread, hpath', hwell, hnext⟩ := h.exists_step hpath
  have hline {closing rest : Text}
      (hclosing : closing = standard.block.closing ∨ closing = standard.comment.closing)
      (hrest : closing ++ rest <:+ s.rest) : lineBreakAt (rest ++ more) = lineBreakAt rest :=
    hends.lineBreakAt_append h.suffix hmore hclosing hrest
  have hdrop : s.rest.dropWhile isBlank <:+ s.rest := List.dropWhile_suffix _
  exact {
    mem := h.brace_mem
    behind := fun _ _ _ => h.brace_mem_behind
    lexeme := fun hexp _ _ hrest => hexp.exists_lexeme_of_step List.mem_cons_self h.brace_mem hstep
      (fun hne => (hnext hne).stringPiece_ne hpath') hrest
    piece := h.stringPiece_ne hpath
    search := fun hmode => hmoves.search?_isSome hread hwell (hpath.fresh hmode) hmode
    comment := by
      intro before t after hfind htag
      obtain ⟨e, he⟩ := Option.isSome_iff_exists.1 (hmoves.commentEnd?_isSome hfind htag)
      refine ⟨e, he, fun rest hrest _ => hline (Or.inr rfl) ?_⟩
      have hsuffix : after.dropWhile isBlank <:+ s.rest := by
        rw [hfind.rest_eq]
        exact (List.dropWhile_suffix _).trans
          ((List.suffix_append _ _).trans (List.suffix_append _ _))
      refine List.IsSuffix.trans ?_ hsuffix
      rw [hrest, ← List.append_assoc, ← List.append_assoc]
      exact List.suffix_append _ _
    verbatim := fun _ _ _ _ _ hfind htag => hmoves.verbatimClose?_isSome hfind htag
    printEnd := fun _ _ _ _ hsplit hpre =>
      hends.eq_print_closing h.suffix_dropWhile hsplit hpre
    blockEnd := by
      intro _ _ m rest hfound
      obtain ⟨behind, hsplit, hbehind⟩ := Dialect.afterModifier?_sound hfound
      obtain rfl := isPrefixOf?_eq_some_iff.1 hbehind
      refine hline (Or.inl rfl) (List.IsSuffix.trans ?_ hdrop)
      rw [hsplit]
      exact List.suffix_append _ _ }

/-- Nothing that a step looks at in front of the end of a tag depends on the text behind. -/
theorem settled : s.Settled standard more :=
  (h.stopped hpath hmore).settled List.mem_cons_self hpath.fresh

end

end Lexicon.Closes

end TemplateTokens
