import TemplateTokens.Proofs.Lexer.Cut
import TemplateTokens.Proofs.Lexer.Opened

/-!
# Locations of errors

A template that has no tokens has an error, and the error says where in the template it came to
light and, for what was left open, where that was opened. This module says for each cause what
stands at these locations.

Results:

* `Layered.pairs`: the scopes that are open are brackets, quotes and interpolations.
* `Lexicon.Path.isLocated_of_step`, `Lexicon.Path.isLocated_of_finish`: a step that fails, and a
  template that ends too early, report locations where their cause stands.
* `Lexer.isLocated_of_tokenize`: so does every error of a template.
-/

namespace TemplateTokens

open Piece

/-! ## What an error says -/

/-- The tag that a construct begins with. -/
def Construct.tag : Construct → Tag
  | .print => .print
  | .block => .block
  | .comment => .comment
  | .verbatim => .block

/-- What may be opened inside of a tag, and what closes it: a bracket, a double quote or an
interpolation. -/
def Dialect.Pairs (d : Dialect) (opener closer : Text) : Prop :=
  closerOf? opener = some closer ∨ opener = ['"'] ∧ closer = ['"'] ∨
    opener = d.interpolation.opening ∧ closer = d.interpolation.closing

/-- A text stands in the template at a location: the one that a scan of what stands before it comes
to. -/
def StandsAt (source piece : Text) (l : Location) : Prop :=
  ∃ before after, source = before ++ (piece ++ after) ∧ l = Location.start.walk before

/-- An error reports locations at which there is what its cause is about. -/
def SyntaxError.IsLocated (d : Dialect) (source : Text) (e : SyntaxError) : Prop :=
  match e.cause with
  | .unexpectedCharacter remaining =>
    remaining ≠ [] ∧
      ∃ before, source = before ++ remaining ∧ e.location = Location.start.walk before
  | .unexpectedClosingBracket bracket =>
    isClosingBracket [bracket] = true ∧ StandsAt source [bracket] e.location
  | .unclosedBracket opener openedAt =>
    ∃ before between bracket after closer,
      source = before ++ (opener ++ (between ++ bracket :: after)) ∧
        openedAt = Location.start.walk before ∧
        e.location = Location.start.walk (before ++ (opener ++ between)) ∧
        isClosingBracket [bracket] = true ∧ d.Pairs opener closer ∧ closer ≠ [bracket]
  | .unclosed construct openedAt =>
    e.location = Location.start.walk source ∧ StandsAt source (d.opening construct.tag) openedAt
  | .unclosedScope opener openedAt =>
    e.location = Location.start.walk source ∧ (∃ closer, d.Pairs opener closer) ∧
      StandsAt source opener openedAt
  | .unexpectedEnd => False
  | .unexpectedToken .. => False

/-! ## Places and locations -/

/-- The place where something was opened, in pieces that cut no line break. -/
theorem Piece.OpenedIn.exists_walk {ps : List Piece} {opener rest : Text} {l : Location}
    (h : OpenedIn Position.start ps opener l) (hcuts : CleanCuts ps rest) :
    ∃ before between, texts ps = before ++ (opener ++ between) ∧
      l = Location.start.walk before := by
  obtain ⟨before, after, rfl, ⟨between, hbetween⟩, rfl⟩ := h
  refine ⟨texts before, between, ?_, toLocation_stop (cleanCuts_append.1 hcuts).1 _⟩
  rw [texts_append, hbetween]

theorem Piece.OpenedIn.standsAt {ps : List Piece} {opener rest : Text} {l : Location}
    (h : OpenedIn Position.start ps opener l) (hcuts : CleanCuts ps rest) :
    StandsAt (texts ps ++ rest) opener l := by
  obtain ⟨before, between, hsplit, hl⟩ := h.exists_walk hcuts
  exact ⟨before, between ++ rest, by simp only [hsplit, List.append_assoc], hl⟩

/-- The scopes that are open are brackets, quotes and interpolations. -/
theorem Layered.pairs {d : Dialect} {base : Stacks} {ls : List Layer} (hb : base.scopes = [])
    (h : Layered d base ls) :
    ∀ scope ∈ (base.under d ls).scopes, d.Pairs scope.opener scope.closer := by
  induction h with
  | nil =>
    rw [Stacks.under_nil, hb]
    exact nofun
  | tag _ _ _ ih => exact ih
  | group hgroup _ _ ih => exact List.forall_mem_cons.2 ⟨Or.inl hgroup, ih⟩
  | quote _ _ ih => exact List.forall_mem_cons.2 ⟨Or.inr (Or.inl ⟨rfl, rfl⟩), ih⟩
  | interpolation _ _ ih => exact List.forall_mem_cons.2 ⟨Or.inr (Or.inr ⟨rfl, rfl⟩), ih⟩

theorem Lexicon.Starts.exists_eq_cons {lx : Lexicon} {t : Text} {bracket : Char}
    (h : lx.Starts t (.closing bracket)) :
    isClosingBracket [bracket] = true ∧ ∃ after, t = bracket :: after := by
  cases h with
  | closing h => exact ⟨h, _, rfl⟩

section

variable {lx : Lexicon} {source : Text} {s : State} {ps : List Piece} {ls : List Layer}

theorem Lexicon.Path.pairs (h : lx.Path source s ps ls) {scope : Scope}
    (hscope : scope ∈ s.scopes) : lx.Pairs scope.opener scope.closer := by
  rw [h.scopes_eq] at hscope
  exact h.layered.pairs rfl scope hscope

/-! ## Steps that fail -/

section

variable {qs : List Piece} {skipped behind : Text}

/-- A step that fails after some pieces cuts the template, and no line break, behind them. -/
theorem Lexicon.Path.exists_cut_of_fails (hc : lx.Clean) (h : lx.Path source s ps ls)
    {cause : SyntaxError.Cause} (hfails : lx.Fails s qs cause skipped) :
    ∃ behind, s.rest = texts qs ++ (skipped ++ behind) ∧
      source = texts (ps ++ qs) ++ (skipped ++ behind) ∧
      CleanCuts (ps ++ qs) (skipped ++ behind) := by
  obtain ⟨behind, hrest⟩ := hfails.texts_isPrefix
  rw [List.append_assoc] at hrest
  refine ⟨behind, hrest.symm, ?_, ?_⟩
  · rw [texts_append, List.append_assoc, hrest]
    exact h.source_eq
  · rw [cleanCuts_append, hrest]
    exact ⟨h.cleanCuts hc, hfails.cleanCuts hc hrest.symm⟩

theorem Lexicon.Path.toLocation_stop (h : lx.Path source s ps ls)
    (hcuts : CleanCuts (ps ++ qs) behind) :
    (stop s.position qs).toLocation = Location.start.walk (texts (ps ++ qs)) := by
  rw [h.reads.position_eq, ← stop_append]
  exact Piece.toLocation_stop hcuts _

theorem Lexicon.Path.advance_stop (h : lx.Path source s ps ls)
    (hsource : source = texts (ps ++ qs) ++ skipped) (hcuts : CleanCuts (ps ++ qs) skipped) :
    (stop s.position qs).toLocation.advance skipped = Location.start.walk source := by
  rw [Location.advance_eq_walk, h.reads.position_eq, ← stop_append, hsource]
  exact walk_stop hcuts _

/-- What the step itself has opened stands where it has remembered it. -/
theorem Lexicon.Path.standsAt_stop (h : lx.Path source s ps ls)
    (hsource : source = texts (ps ++ qs) ++ behind) (hcuts : CleanCuts (ps ++ qs) behind)
    {before after : List Piece} {opener : Text} (hqs : qs = before ++ after)
    (hopener : opener <+: texts after) :
    StandsAt source opener (stop s.position before).toLocation := by
  have hin : OpenedIn Position.start (ps ++ qs) opener (stop s.position before).toLocation := by
    rw [h.reads.position_eq, hqs]
    exact OpenedIn.append_left (OpenedIn.of_append hopener)
  rw [hsource]
  exact hin.standsAt hcuts

theorem Lexicon.Path.source_eq_of_blanks (h : lx.Path source s ps ls) {t : Text}
    (hdrop : s.rest.dropWhile isBlank = t) :
    source = texts (ps ++ unlessEmpty .whitespace (blanks s.rest)) ++ t := by
  rw [texts_append, List.append_assoc, texts_unlessEmpty, ← hdrop, blanks_append_dropWhile]
  exact h.source_eq

end

/-- A step that fails reports locations where its cause stands. -/
theorem Lexicon.Path.isLocated_of_step (hc : lx.Clean) (h : lx.Path source s ps ls)
    (hne : s.rest ≠ []) {e : SyntaxError} (hstep : s.step lx = .error e) :
    e.IsLocated lx.toDialect source := by
  obtain ⟨qs, cause, skipped, hfails, rfl⟩ : s.Outcome lx (.error e) :=
    hstep ▸ h.outcome hc.usable hne
  obtain ⟨behind, hrest, hsource, hcuts⟩ := h.exists_cut_of_fails hc hfails
  have hhere := h.toLocation_stop hcuts
  cases hfails with
  | unexpectedCharacter _ hdrop =>
    exact ⟨List.cons_ne_nil _ _, _, h.source_eq_of_blanks hdrop, hhere⟩
  | unexpectedClosingBracket _ hstart =>
    obtain ⟨hbracket, after, hdrop⟩ := hstart.exists_eq_cons
    exact ⟨hbracket, _, after, h.source_eq_of_blanks hdrop, hhere⟩
  | @unclosedBracket bracket scope _ hstart hscope hcloser =>
    obtain ⟨hbracket, after, hdrop⟩ := hstart.exists_eq_cons
    have hmem := List.mem_of_head? hscope
    have hin := (h.scopes_openedIn hmem).append_right (unlessEmpty .whitespace (blanks s.rest))
    obtain ⟨before, between, hsplit, hopenedAt⟩ := hin.exists_walk hcuts
    have hall := h.source_eq_of_blanks hdrop
    refine ⟨before, between, bracket, after, scope.closer, ?_, hopenedAt, ?_, hbracket,
      h.pairs hmem, hcloser⟩
    · rw [hall, hsplit]
      simp only [List.append_assoc]
    · rw [← hsplit]
      exact hhere
  | @unclosedComment before after t hfind htag =>
    obtain rfl : behind = [] := by
      have hall := hrest.symm.trans hfind.rest_eq
      conv at hall => rhs; rw [← blanks_append_dropWhile after]
      simpa using hall
    rw [List.append_nil] at hsource hcuts
    refine ⟨h.advance_stop hsource hcuts, ?_⟩
    rw [Construct.tag, ← htag]
    refine h.standsAt_stop hsource hcuts rfl ?_
    rw [texts_append, TagStart.texts_pieces, Dialect.startText, List.append_assoc]
    exact List.prefix_append _ _
  | @unclosedVerbatim before after _ t opening hfind _ hopen hsplit =>
    obtain rfl : behind = [] := by
      have hall := hrest.symm.trans hfind.rest_eq
      rw [hsplit] at hall
      simpa using hall
    rw [List.append_nil] at hsource hcuts
    refine ⟨h.advance_stop hsource hcuts, h.standsAt_stop hsource hcuts rfl ?_⟩
    rw [VerbatimTag.pieces, texts_append, texts_cons, texts_nil, List.append_nil]
    exact List.prefix_append _ _

/-! ## Templates that end too early -/

/-- A template that ends inside of something reports where that was opened. -/
theorem Lexicon.Path.isLocated_of_finish (hc : lx.Clean) (h : lx.Path source s ps ls)
    (hnil : s.rest = []) {e : SyntaxError} (hfinish : s.finish = .error e) :
    e.IsLocated lx.toDialect source := by
  have hcuts := h.cleanCuts hc
  have hsource := h.source_eq
  rw [hnil] at hcuts hsource
  have hend : s.position.toLocation = Location.start.walk source := by
    rw [h.location_eq hc, hsource, List.append_nil]
  have htag {t : Tag} (ht : t ≠ .comment) (hmode : s.mode = t.mode) :
      StandsAt source (lx.opening t) s.tagOpenedAt := by
    rw [hsource]
    exact (h.tag_openedIn ht (hmode ▸ List.mem_cons_self)).standsAt hcuts
  unfold State.finish at hfinish
  split at hfinish
  · rename_i hmode
    cases hfinish
    exact ⟨hend, htag (t := .print) nofun hmode⟩
  · rename_i hmode
    cases hfinish
    exact ⟨hend, htag (t := .block) nofun hmode⟩
  · split at hfinish
    · rename_i scope scopes hscopes
      cases hfinish
      have hmem : scope ∈ s.scopes := by rw [hscopes]; exact List.mem_cons_self
      refine ⟨hend, ⟨scope.closer, h.pairs hmem⟩, ?_⟩
      rw [hsource]
      exact (h.scopes_openedIn hmem).standsAt hcuts
    · cases hfinish

end

/-! ## Templates -/

/-- In a dialect whose operators can be seen, whose delimiters have no line break in them and whose
interpolations do not begin like a group, every error of a template reports locations at which
there is what its cause is about, and no error has a cause of another kind. -/
theorem Lexer.isLocated_of_tokenize {l : Lexer} (hv : l.dialect.Visible) (hu : l.dialect.Unbroken)
    (hm : closerOf? l.dialect.interpolation.opening = none) {source : Text} {e : SyntaxError}
    (h : l.tokenize source = .error e) : e.IsLocated l.dialect source := by
  have herror : l.tokens source = .error e := by
    rw [tokenize] at h
    cases htokens : l.tokens source with
    | error e' =>
      rw [htokens] at h
      cases h
      rfl
    | ok tokens =>
      rw [htokens] at h
      cases h
  have hc := clean hv hu
  obtain ⟨s, ps, ls, hpath, ⟨hne, hstep⟩ | ⟨hnil, hfinish⟩⟩ :=
    Lexicon.exists_path_of_error hc.usable hc.visible hm herror
  · exact hpath.isLocated_of_step hc hne hstep
  · exact hpath.isLocated_of_finish hc hnil hfinish

/-- A bracket left open in the second line of a template. -/
theorem Lexer.isLocated_unclosedBracket : Dialect.standard.Visible ∧ Dialect.standard.Unbroken ∧
    closerOf? Dialect.standard.interpolation.opening = none ∧
    ∃ e, standard.tokenize ['a', '\r', '\n', '{', '{', '(', ' ', ']', '}', '}'] = .error e ∧
      e.cause = .unclosedBracket ['('] ⟨2, 3⟩ ∧ e.location = ⟨2, 5⟩ ∧
      e.IsLocated .standard ['a', '\r', '\n', '{', '{', '(', ' ', ']', '}', '}'] := by
  obtain ⟨e, h, hcause, hlocation⟩ : ∃ e, standard.tokenize
      ['a', '\r', '\n', '{', '{', '(', ' ', ']', '}', '}'] = .error e ∧
      e.cause = .unclosedBracket ['('] ⟨2, 3⟩ ∧ e.location = ⟨2, 5⟩ := ⟨_, rfl, rfl, rfl⟩
  exact ⟨by decide, by decide, by decide, e, h, hcause, hlocation,
    isLocated_of_tokenize (by decide) (by decide) (by decide) h⟩

end TemplateTokens
