import TemplateTokens.Proofs.Concatenation
import TemplateTokens.Proofs.ErrorLocation
import TemplateTokens.Proofs.Lexer.Advance
import TemplateTokens.Proofs.Lexer.Refusal

/-!
# Errors at brackets

A template in the standard dialect that has an error at a bracket cannot be mended by going on with
it: whatever stands behind the template, the error is the same. Only a closing bracket at the very
end of the template may become something else there, as the brace of a print tag that goes on.

Results:

* `Lexicon.Path.refuses`: an error at a bracket comes from a step that refuses the bracket.
* `Lexicon.tokens_append_of_refuses`: a run that refuses a bracket refuses it in front of any text.
* `tokenize_append_of_atBracket`: so the error of the template stays that of any longer one.
-/

namespace TemplateTokens

open Piece

/-! ## Locations that tell texts apart -/

/-- A text is not walked to the same location as one that goes on behind it, unless the cut between
them goes through a line break. -/
theorem Location.walk_append_ne (l : Location) {s t : Text} (hcut : CleanCut s t) (ht : t ≠ []) :
    l.walk (s ++ t) ≠ l.walk s := by
  intro heq
  have hlt := (l.walk s).compare_walk ht
  rw [← l.walk_append hcut, heq] at hlt
  have hself : compare (l.walk s) (l.walk s) = .eq := by
    show (compare (l.walk s).line _).then (compare (l.walk s).column _) = .eq
    rw [Nat.compare_eq_eq.2 rfl, Nat.compare_eq_eq.2 rfl]
    rfl
  cases hself.symm.trans hlt

/-! ## Steps that refuse a bracket -/

/-- An error at a bracket that does not fit what is open, or at one in front of more text where
nothing is open. -/
def SyntaxError.AtBracket (source : Text) (e : SyntaxError) : Prop :=
  match e.cause with
  | .unclosedBracket .. => True
  | .unexpectedClosingBracket bracket =>
    ∃ before after, source = before ++ bracket :: after ∧ after ≠ [] ∧
      e.location = Location.start.walk before
  | _ => False

section

variable {source : Text} {s : State} {ps : List Piece} {ls : List Layer} {e : SyntaxError}

/-- The end of a template has no error at a bracket. -/
theorem State.not_atBracket_of_finish (h : s.finish = .error e) : ¬ e.AtBracket source := by
  unfold finish at h
  split at h
  · cases h
    exact id
  · cases h
    exact id
  · split at h
    · cases h
      exact id
    · cases h

theorem SyntaxError.relocate_id (e : SyntaxError) : e.relocate id = e := by
  obtain ⟨cause, l⟩ := e
  cases cause <;> rfl

/-- An error at a bracket comes from a step that refuses the bracket. -/
theorem Lexicon.Path.refuses (h : standard.Path source s ps ls) (hne : s.rest ≠ [])
    (hstep : s.step standard = .error e) (hat : e.AtBracket source) : ∃ c, s.Refuses c e := by
  obtain ⟨qs, cause, skipped, hfails, rfl⟩ : s.Outcome standard (.error e) :=
    hstep ▸ h.outcome Dialect.defect?_standard hne
  obtain ⟨behind, -, -, hcuts⟩ := h.exists_cut_of_fails clean_standard hfails
  have hhere := h.toLocation_stop hcuts
  cases hfails with
  | unexpectedCharacter => exact hat.elim
  | unclosedComment => exact hat.elim
  | unclosedVerbatim => exact hat.elim
  | @unclosedBracket bracket scope hexp hstart hscope =>
    obtain ⟨hbracket, after, hdrop⟩ := hstart.exists_eq_cons
    refine ⟨bracket, hexp, hbracket, ⟨after, hdrop, fun hnil => ?_⟩, hstep⟩
    rw [hnil] at hscope
    cases hscope
  | @unexpectedClosingBracket bracket hexp hstart =>
    obtain ⟨hbracket, after, hdrop⟩ := hstart.exists_eq_cons
    refine ⟨bracket, hexp, hbracket, ⟨after, hdrop, fun _ => ?_⟩, hstep⟩
    rintro rfl
    -- the bracket would be the last character, and so behind the one that the error is about
    obtain ⟨before, after, hsource, hmore, hlocation⟩ := hat
    have hall := hsource.symm.trans (h.source_eq_of_blanks hdrop)
    rw [← List.dropLast_concat_getLast hmore, ← List.cons_append, ← List.append_assoc] at hall
    have hlast := (List.append_inj' hall rfl).1
    have hcut : CleanCut before (bracket :: after.dropLast) :=
      cleanCut_of_head? fun hhead => by
        obtain rfl := Option.some.inj hhead
        cases hbracket
    refine Location.start.walk_append_ne hcut (List.cons_ne_nil _ _) ?_
    rw [hlast, ← hlocation, ← hhere]
    rfl

/-- A run that refuses a bracket refuses it in front of any text. -/
theorem Lexicon.tokens_append_of_refuses (h : standard.Path source s ps ls) {c : Char}
    (hrefuses : s.Refuses c e) (more : Text) :
    standard.tokens (source ++ more) = .error e := by
  have hhere : standard.Refuses s c e := ⟨[], s, .refl s, hrefuses⟩
  have hne := List.ne_nil_of_mem hhere.mem
  have hleads := h.leads_of_start
  obtain ⟨rs, s', hcarries, hleads'⟩ := (State.Carries.start source more).exists_leads
    (P := fun u => standard.Refuses u c e)
    (fun hu hpath => ⟨hu.settled hpath more, fun _ hstep _ => hu.next hpath hstep⟩) .start .start
    hleads fun _ => ⟨ps, s, hleads, hrefuses⟩
  obtain ⟨ls', hpath'⟩ := Path.start.leads Dialect.defect?_standard closerOf?_standard hleads'
  have hfollows := hcarries.step_of_path (fun _ _ _ => rfl) h hpath' hne (hhere.settled h more)
  have hne' : s'.rest ≠ [] := by
    rw [hcarries.rest_eq]
    exact List.append_ne_nil_of_left_ne_nil hne more
  rw [hrefuses.step_eq] at hfollows
  cases hstep' : s'.step standard with
  | ok s₁' =>
    rw [hstep'] at hfollows
    exact hfollows.elim
  | error e' =>
    rw [hstep'] at hfollows
    obtain rfl : e' = e.relocate id := hfollows
    rw [SyntaxError.relocate_id] at hstep'
    exact tokens_eq_error Dialect.defect?_standard closerOf?_standard clean_standard.visible hleads'
      hne' hstep'

end

/-- No text behind a template mends an error at a bracket: the error has the same cause and the same
location there. -/
theorem tokenize_append_of_atBracket {source : Text} {e : SyntaxError}
    (h : tokenize source = .error e) (hat : e.AtBracket source) (more : Text) :
    tokenize (source ++ more) = .error e := by
  obtain ⟨s, ps, ls, hpath, ⟨hne, hstep⟩ | ⟨-, hfinish⟩⟩ :=
    Lexicon.exists_path_of_error Dialect.defect?_standard Lexicon.clean_standard.visible
      Lexicon.closerOf?_standard (Lexer.tokenize_eq_error_iff.1 h)
  · obtain ⟨c, hrefuses⟩ := hpath.refuses hne hstep hat
    exact Lexer.tokenize_eq_error_iff.2 (Lexicon.tokens_append_of_refuses hpath hrefuses more)
  · exact absurd hat (State.not_atBracket_of_finish hfinish)

/-- A bracket that does not fit, and one where nothing is open, both in front of the end of the
tag. -/
theorem tokenize_append_refused :
    (∃ e, tokenize ['{', '{', '(', ']'] = .error e ∧ e.AtBracket ['{', '{', '(', ']'] ∧
        e = ⟨.unclosedBracket ['('] ⟨1, 3⟩, ⟨1, 4⟩⟩ ∧
        tokenize (['{', '{', '(', ']'] ++ ['}', '}']) = .error e) ∧
      ∃ e, tokenize ['{', '{', ')', '}'] = .error e ∧ e.AtBracket ['{', '{', ')', '}'] ∧
        e = ⟨.unexpectedClosingBracket ')', ⟨1, 3⟩⟩ ∧
        tokenize (['{', '{', ')', '}'] ++ ['}', '}']) = .error e := by
  have hfit : tokenize ['{', '{', '(', ']'] =
      .error ⟨.unclosedBracket ['('] ⟨1, 3⟩, ⟨1, 4⟩⟩ := rfl
  have hopen : tokenize ['{', '{', ')', '}'] =
      .error ⟨.unexpectedClosingBracket ')', ⟨1, 3⟩⟩ := rfl
  have hat : SyntaxError.AtBracket ['{', '{', ')', '}']
      ⟨.unexpectedClosingBracket ')', ⟨1, 3⟩⟩ :=
    ⟨['{', '{'], ['}'], rfl, List.cons_ne_nil _ _, rfl⟩
  exact ⟨⟨_, hfit, trivial, rfl, tokenize_append_of_atBracket hfit trivial _⟩,
    ⟨_, hopen, hat, rfl, tokenize_append_of_atBracket hopen hat _⟩⟩

/-- A brace at the very end of a template may still become the end of a tag. -/
example : tokenize ['{', '{', '}'] = .error ⟨.unexpectedClosingBracket '}', ⟨1, 3⟩⟩ ∧
    ∃ stream, tokenize ['{', '{', '}', '}'] = .ok stream := ⟨rfl, _, rfl⟩

end TemplateTokens
