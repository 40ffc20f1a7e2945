import TemplateTokens.Proofs.Lexeme.Boundary
import TemplateTokens.Proofs.Lexer.Closing

/-!
# Steps over known text

What a step does is found out here from the text in front of it: a piece of an expression is read,
a tag begins or ends, a string goes on or an interpolation begins or ends. Each fact is a row of one
step, ready to be put together with others.

Results:

* `Dialect.afterModifier?_eq_some`: what stands behind a trim marker is found.
* `State.Expects.exists_leads`: a piece of an expression is read behind blanks.
* `State.expects_of_head`, `State.expects_of_opener`: where one is to be expected.
* `State.exists_leads_lexeme`: so one is read in front of whatever begins none of those ends.
* `State.exists_finds_start`: a tag that begins a template is found there.
* `State.Finds.exists_leads_open`, `State.exists_leads_tagEnd`: the two ends of a tag.
* `State.Finds.exists_leads_print`, `State.exists_leads_printStart`, `State.exists_leads_printEnd`:
  those of a print tag.
* `State.Finds.exists_leads_verbatim`: a verbatim block.
* `State.exists_leads_piece`, `State.exists_leads_closingQuote`: a string.
* `State.exists_leads_interpolation`, `State.exists_leads_interpolationEnd`: an interpolation.
* `Lexicon.tokens_of_leads`: a row of steps over the whole template has its tokens.
* `Lexicon.tokens_eq_error`: a row of steps to one that fails has its error.
-/

namespace TemplateTokens

open Piece

/-! ## Behind blanks -/

section

variable {gap t : Text} {c : Char}

theorem blanks_append (hgap : gap.all isBlank = true) (hc : isBlank c = false) :
    blanks (gap ++ c :: t) = gap := by
  rw [blanks, List.takeWhile_append_of_pos (List.all_eq_true.1 hgap),
    List.takeWhile_cons_of_neg (by simp [hc]), List.append_nil]

theorem dropWhile_isBlank_append (hgap : gap.all isBlank = true) (hc : isBlank c = false) :
    (gap ++ c :: t).dropWhile isBlank = c :: t := by
  rw [List.dropWhile_append_of_pos (List.all_eq_true.1 hgap),
    List.dropWhile_cons_of_neg (by simp [hc])]

theorem afterBlanks?_eq_some {α : Type} {find : Text → Option α} {found : α}
    (hgap : gap.all isBlank = true) (hc : isBlank c = false)
    (hfind : find (c :: t) = some found) :
    afterBlanks? find (gap ++ c :: t) = some (gap, found) := by
  induction gap with
  | nil => simp [afterBlanks?, hc, hfind]
  | cons b gap ih =>
    rw [List.all_cons, Bool.and_eq_true] at hgap
    simp [afterBlanks?, hgap.1, ih hgap.2]

theorem isPrefixOf?_singleton_of_ne {b : Char} (h : b ≠ c) : [b].isPrefixOf? (c :: t) = none := by
  refine Option.eq_none_iff_forall_ne_some.2 fun rest hrest => ?_
  exact h (List.cons.inj (isPrefixOf?_eq_some_iff.1 hrest)).1

namespace Dialect

variable {d : Dialect}

/-- A text that begins with no trim marker begins with neither of the two. -/
theorem isPrefixOf?_marker (h : d.modifierAt t = none) (trim : Trim) :
    [d.marker trim].isPrefixOf? t = none := by
  cases t with
  | nil => rfl
  | cons c t =>
    apply isPrefixOf?_singleton_of_ne
    rintro rfl
    rw [modifierAt] at h
    cases trim with
    | whole =>
      rw [marker, if_pos rfl] at h
      cases h
    | line =>
      rw [marker, if_pos rfl] at h
      split at h <;> cases h

/-- What is found behind a trim marker, or behind none where none stands. -/
theorem afterModifier?_eq_some {α : Type} (hd : d.defect? = none) {find : Text → Option α}
    {found : α} {m : Option Trim} (hfind : find t = some found)
    (hm : m = none → d.modifierAt t = none) :
    d.afterModifier? find (d.modifierText m ++ t) = some (m, found) := by
  have hhere : ((d.modifierText m).isPrefixOf? (d.modifierText m ++ t)).bind
      (fun rest => (find rest).map fun found => (m, found)) = some (m, found) := by
    rw [isPrefixOf?_eq_some_iff.2 rfl, Option.bind_some, hfind]
    rfl
  -- the markers that are tried before the one that stands there are not found
  refine List.findSome?_eq_some_iff.2 ?_
  rcases m with _ | _ | _
  · refine ⟨[some .whole, some .line], none, [], rfl, hhere, ?_⟩
    intro n hn
    obtain ⟨trim, rfl⟩ : ∃ trim, n = some trim := by
      cases n with
      | none => simp at hn
      | some trim => exact ⟨trim, rfl⟩
    rw [show d.modifierText none ++ t = t from rfl, modifierText, isPrefixOf?_marker (hm rfl) trim]
    rfl
  · exact ⟨[], some .whole, [some .line, none], rfl, hhere, List.forall_mem_nil _⟩
  · refine ⟨[some .whole], some .line, [none], rfl, hhere, ?_⟩
    intro n hn
    obtain rfl := List.mem_singleton.1 hn
    have hne : d.marker .whole ≠ d.marker .line := trim_ne_lineTrim hd
    rw [modifierText, modifierText, List.singleton_append, isPrefixOf?_singleton_of_ne hne]
    rfl

end Dialect

/-! ## Where something ends -/

/-- The characters that the end of a tag begins with. -/
def tagEndChars : List Char := ['}', '%', '#', '-', '~']

theorem tagEnd?_of_head (tag : Tag) (hc : c ∉ tagEndChars) :
    Dialect.standard.tagEnd? tag (c :: t) = none := by
  refine Option.eq_none_iff_forall_ne_some.2 fun e he => ?_
  have hsub : ∀ b ∈ ['}', '%', '#'], b ∈ tagEndChars := by simp [tagEndChars]
  obtain ⟨c', hc', t', hdelimiter⟩ := (Dialect.ends_of_tagEnd? he).exists_eq
  obtain ⟨u, hu⟩ := Dialect.texts_tagEnd? he
  simp only [TagEnd.pieces, texts_append, texts_ofTrim, texts_cons, hdelimiter] at hu
  have hmem : c ∈ tagEndChars := by
    rcases hmodifier : e.modifier with _ | _ | _
    all_goals
      rw [hmodifier] at hu
      obtain rfl := (List.cons.inj hu).1
    · exact hsub _ hc'
    · decide
    · decide
  exact hc hmem

theorem interpolationClose?_of_head {u : Text} (hrest : u.dropWhile isBlank = c :: t)
    (hc : c ≠ '}') : Lexicon.standard.interpolationClose? u = none := by
  refine Option.eq_none_iff_forall_ne_some.2 fun blank hblank => ?_
  obtain ⟨⟨run, found⟩, hfound, -⟩ := Option.map_eq_some_iff.1 hblank
  obtain ⟨after, hsplit, hrun, hafter⟩ := afterBlanks?_sound hfound
  obtain rfl := isPrefixOf?_eq_some_iff.1 hafter
  rw [hsplit, show Lexicon.standard.interpolation.closing ++ found = '}' :: found from rfl,
    dropWhile_isBlank_append hrun (by decide)] at hrest
  exact hc (List.cons.inj hrest).1.symm

end

namespace State

/-! ## Pieces of an expression -/

section

variable {lx : Lexicon} {s : State}

/-- A piece of an expression that acts on the stacks is taken. -/
theorem takeLexeme_of_acts {l : Lexeme} {st : Stacks}
    (h : l.Acts s.position.toLocation s.toStacks st) :
    ∃ s', s.takeLexeme l = .ok s' ∧ s'.toStacks = st := by
  cases h with
  | plain => exact ⟨_, rfl, rfl⟩
  | quoted =>
    refine ⟨_, rfl, ?_⟩
    rw [toStacks_emit, toStacks_emitSome, toStacks_emit]
  | opening => exact ⟨_, rfl, rfl⟩
  | @closing bracket scope hhead hcloser =>
    obtain ⟨scopes, hscopes⟩ := List.head?_eq_some_iff.1 hhead
    refine ⟨(s.emit .punctuation [bracket]).closeScope, ?_, rfl⟩
    rw [takeLexeme, closeBracket, show s.scopes = scope :: scopes from hscopes]
    exact if_pos hcloser
  | quote => exact ⟨_, rfl, rfl⟩

/-- A piece of an expression that stands behind blanks is what a step takes. -/
theorem Expects.step_eq_takeLexeme (hexp : s.Expects lx) {gap t : Text} {c : Char}
    (hgap : gap.all isBlank = true) (hc : isBlank c = false) (hrest : s.rest = gap ++ c :: t)
    {l : Lexeme} (hl : lx.lexemeAt? c (c :: t) = some l) :
    s.step lx = s.emitBlanks.takeLexeme l := by
  rw [hexp.step_eq, expressionStep]
  rw [rest_emitBlanks, hrest, dropWhile_isBlank_append hgap hc]
  dsimp only
  rw [hl]

/-- A piece of an expression is read behind blanks. -/
theorem Expects.exists_leads (hexp : s.Expects lx) {gap t : Text} {c : Char}
    (hgap : gap.all isBlank = true) (hc : isBlank c = false) (hrest : s.rest = gap ++ c :: t)
    {l : Lexeme} (hl : lx.lexemeAt? c (c :: t) = some l) {st : Stacks}
    (hacts : l.Acts s.emitBlanks.position.toLocation s.toStacks st) :
    ∃ s', lx.Leads s (unlessEmpty .whitespace gap ++ l.pieces) s' ∧ s'.toStacks = st := by
  have hblank : s.emitBlanks.rest = c :: t := by
    rw [rest_emitBlanks, hrest, dropWhile_isBlank_append hgap hc]
  rw [← toStacks_emitBlanks s] at hacts
  obtain ⟨s', htake, hstacks⟩ := takeLexeme_of_acts hacts
  have hstart : lx.Starts s.emitBlanks.rest l := hblank ▸ Lexicon.starts_of_lexemeAt? hl
  have hread := (Reads.emitBlanks s).trans (takeLexeme_ok hstart htake).2.1
  rw [hrest, blanks_append hgap hc] at hread
  exact ⟨s', .one (by simp [hrest])
    ((hexp.step_eq_takeLexeme hgap hc hrest hl).trans htake) hread, hstacks⟩

end

/-! ## In the standard dialect -/

section

variable {s : State} {c : Char} {gap rest t : Text}

/-- Neither a tag nor an interpolation ends in front of a character that neither begins. -/
theorem expects_of_head (hmode : s.mode.IsExpression)
    (hrest : s.rest.dropWhile isBlank = c :: t) (hc : c ∉ tagEndChars) :
    s.Expects Lexicon.standard := by
  have hbrace : c ≠ '}' := by
    rintro rfl
    exact hc List.mem_cons_self
  rw [Expects]
  cases hm : s.mode with
  | data => exact hmode.1 hm
  | string => exact hmode.2 hm
  | print => exact fun _ => hrest ▸ tagEnd?_of_head .print hc
  | block => exact fun _ => hrest ▸ tagEnd?_of_head .block hc
  | interpolation => exact fun _ => interpolationClose?_of_head hrest hbrace

/-- Where a bracket is open, nothing else ends. -/
theorem expects_of_opener (hmode : s.mode.IsExpression) {scope : Scope}
    (hscope : s.scopes.head? = some scope)
    (hopener : scope.opener ≠ Lexicon.standard.interpolation.opening) :
    s.Expects Lexicon.standard := by
  have hne : s.scopes ≠ [] := by
    intro hnil
    rw [hnil] at hscope
    cases hscope
  rw [Expects]
  cases hm : s.mode with
  | data => exact hmode.1 hm
  | string => exact hmode.2 hm
  | print => exact fun hnil => absurd hnil hne
  | block => exact fun hnil => absurd hnil hne
  | interpolation =>
    intro hsame
    rw [hscope] at hsame
    exact absurd (Option.some.inj hsame) hopener

/-- A piece of an expression is read where neither a tag nor an interpolation ends. -/
theorem exists_leads_lexeme (hmode : s.mode.IsExpression) (hgap : gap.all isBlank = true)
    (hc : isBlank c = false ∧ c ∉ tagEndChars) (hrest : s.rest = gap ++ c :: t) {l : Lexeme}
    (hl : Lexicon.standard.lexemeAt? c (c :: t) = some l) {st : Stacks}
    (hacts : l.Acts s.emitBlanks.position.toLocation s.toStacks st) :
    ∃ s', Lexicon.standard.Leads s (unlessEmpty .whitespace gap ++ l.pieces) s' ∧
      s'.toStacks = st := by
  have hdrop : s.rest.dropWhile isBlank = c :: t := by
    rw [hrest, dropWhile_isBlank_append hgap hc.1]
  exact (expects_of_head hmode hdrop hc.2).exists_leads hgap hc.1 hrest hl hacts

/-! ## Tags -/

/-- A step that finds the start of a tag that is not read at once goes into the tag. -/
theorem Finds.exists_leads_open {lx : Lexicon} (hd : lx.defect? = none) {before after : Text}
    {start : TagStart} (h : s.Finds lx.toDialect before start after) (htag : start.tag ≠ .comment)
    (hopen : start.tag = .block → lx.verbatimOpen? (lx.startText start ++ after) = none) :
    ∃ s', lx.Leads s (unlessEmpty .text before ++ start.pieces lx.toDialect) s' ∧
      s'.toStacks = s.toStacks.enter start.tag.mode := by
  obtain ⟨s₁, hat, hstep⟩ := h.exists_atTag
  refine ⟨_, .one (h.rest_ne_nil hd) ?_
    ((hat.reads.trans (reads_begun hat.rest_eq)).enter start.tag.mode), ?_⟩
  · rw [hstep, tagStartStep]
    dsimp only
    cases hkind : start.tag with
    | comment => exact absurd hkind htag
    | print => rfl
    | block =>
      dsimp only
      rw [hat.rest_eq, hopen hkind]
      rfl
  · rw [toStacks_enter, toStacks_emitTrim, toStacks_emit]
    exact congrArg (Stacks.enter · start.tag.mode) hat.stacks_eq

/-- A step that finds the start of a print tag goes into the tag. -/
theorem Finds.exists_leads_print {lx : Lexicon} (hd : lx.defect? = none) {before after : Text}
    {start : TagStart} (h : s.Finds lx.toDialect before start after) (htag : start.tag = .print) :
    ∃ s', lx.Leads s (unlessEmpty .text before ++ start.pieces lx.toDialect) s' ∧
      s'.toStacks = s.toStacks.enter .print := by
  have hopen := h.exists_leads_open hd (by rw [htag]; nofun) (by rw [htag]; nofun)
  rwa [htag] at hopen

/-- A tag in which nothing is open ends behind blanks. -/
theorem exists_leads_tagEnd {lx : Lexicon} {tag : Tag} (htag : tag ≠ .comment)
    (hmode : s.mode = tag.mode) (hscopes : s.scopes = []) (hne : s.rest ≠ []) {e : TagEnd}
    (hend : lx.tagEnd? tag (s.rest.dropWhile isBlank) = some e) :
    ∃ s', lx.Leads s (unlessEmpty .whitespace (blanks s.rest) ++
        e.pieces lx.toDialect tag.endKind) s' ∧ s'.toStacks = s.toStacks.leave := by
  have hstep : s.step lx = s.tagStep lx tag.endKind (lx.tagEnd? tag) := by
    rw [step, hmode]
    cases tag with
    | comment => exact absurd rfl htag
    | print => rfl
    | block => rfl
  obtain ⟨behind, hbehind⟩ := Dialect.texts_tagEnd? hend
  rw [← rest_emitBlanks] at hbehind
  refine ⟨_, .one hne ?_ ((Reads.emitBlanks s).trans (reads_tagEnd hbehind.symm)).leave, ?_⟩
  · rw [hstep, tagStep_eq, hscopes, List.isEmpty_nil, if_pos rfl, hend]
  · rw [toStacks_leave, toStacks_emit, toStacks_emitTrim, toStacks_emitBlanks]

/-- A step that finds the tag that opens a verbatim block reads the block up to the first tag that
closes it. -/
theorem Finds.exists_leads_verbatim {lx : Lexicon} (hd : lx.defect? = none)
    {before after rest body : Text} {start : TagStart} {opening closing : VerbatimTag}
    (h : s.Finds lx.toDialect before start after) (htag : start.tag = .block)
    (hopen : lx.verbatimOpen? (lx.startText start ++ after) = some opening)
    (hrest : lx.startText start ++ after = texts (opening.pieces lx.toDialect) ++ rest)
    (hclose : lx.verbatimClose? rest = some (body, closing)) :
    ∃ s', lx.Leads s (unlessEmpty .text before ++ (opening.pieces lx.toDialect ++
        (unlessEmpty .text body ++ closing.pieces lx.toDialect))) s' ∧
      s'.toStacks = s.toStacks := by
  obtain ⟨s₁, hat, hstep⟩ := h.exists_atTag
  have hverbatim : s.step lx =
      State.verbatimStep { s₁ with tagOpenedAt := s₁.position.toLocation } lx opening := by
    rw [hstep, tagStartStep, htag]
    dsimp only
    rw [hat.rest_eq, hopen]
  obtain ⟨body', closing', s', hfound, hok, hread, hstacks, -⟩ | ⟨hnone, -⟩ :=
    verbatimStep_eq (hat.rest_eq.trans hrest)
  · obtain ⟨rfl, rfl⟩ := Prod.mk.inj (Option.some.inj (hclose.symm.trans hfound))
    exact ⟨s', .one (h.rest_ne_nil hd) (hverbatim.trans hok) (hat.reads.trans hread),
      hstacks.trans hat.stacks_eq⟩
  · cases hnone.symm.trans hclose

/-- A tag that begins a template is found there. -/
theorem exists_finds_start {source : Text} {tag : Tag} {m : Option Trim}
    (h : Dialect.standard.tagAt? source = some (tag, m)) :
    ∃ after, (State.start Dialect.standard source).Finds Lexicon.standard.toDialect []
      ⟨tag, 0, m⟩ after := by
  have hfresh : (State.start Dialect.standard source).Fresh Dialect.standard :=
    Lexicon.Path.fresh .start rfl
  have hsearch : search? Dialect.standard.tagAt? source = some ([], tag, m) :=
    search?_eq_some h fun pre suf hsplit hne =>
      absurd (List.append_eq_nil_iff.1 hsplit.symm).2 hne
  obtain ⟨after, hafter⟩ := Dialect.tagAt?_eq_some h 0
  exact ⟨after, hfresh.finds Dialect.defect?_standard rfl hsearch hafter⟩

/-- A template that begins with a print tag and a space goes into the tag. -/
theorem exists_leads_printStart {source : Text}
    (hsource : source = ['{', '{'] ++ ' ' :: rest) :
    ∃ s, Lexicon.standard.Leads (.start Dialect.standard source) [⟨.printStart, ['{', '{']⟩] s ∧
      s.rest = ' ' :: rest ∧ s.toStacks = Stacks.start.enter .print := by
  have htag : Dialect.standard.tagAt? source = some (.print, none) := by
    rw [hsource]
    rfl
  obtain ⟨after, hfind⟩ := exists_finds_start htag
  obtain ⟨s, hopen, hst⟩ := hfind.exists_leads_print Dialect.defect?_standard rfl
  exact ⟨s, hopen, hopen.reads.rest_of_eq hsource, hst⟩

/-- A print tag in which nothing is open ends behind blanks. -/
theorem exists_leads_printEnd (hmode : s.mode = .print) (hscopes : s.scopes = [])
    (hgap : gap.all isBlank = true)
    (hrest : s.rest = gap ++ (Lexicon.standard.print.closing ++ rest)) :
    ∃ s', Lexicon.standard.Leads s
        (unlessEmpty .whitespace gap ++ [⟨.printEnd, Lexicon.standard.print.closing⟩]) s' ∧
      s'.toStacks = s.toStacks.leave := by
  have hclosing : Lexicon.standard.print.closing ++ rest = '}' :: '}' :: rest := rfl
  rw [hclosing] at hrest
  have hend : Lexicon.standard.tagEnd? .print (s.rest.dropWhile isBlank) =
      some ⟨none, Lexicon.standard.print.closing⟩ := by
    rw [hrest, dropWhile_isBlank_append hgap (by decide)]
    rfl
  have hleads := exists_leads_tagEnd (show Tag.print ≠ .comment from nofun) hmode hscopes
    (by simp [hrest]) hend
  rwa [hrest, blanks_append hgap (by decide)] at hleads

/-! ## Strings -/

/-- A piece of a string goes up to where one ends. -/
theorem exists_leads_piece (hmode : s.mode = .string) {piece : Text} (hplain : Plain piece)
    (hrest : s.rest = piece ++ rest)
    (hstop : stringPiece Lexicon.standard.interpolation.opening rest = []) :
    ∃ s', Lexicon.standard.Leads s (unlessEmpty .string piece) s' ∧ s'.toStacks = s.toStacks := by
  cases piece with
  | nil => exact ⟨s, .refl s, rfl⟩
  | cons c piece =>
    have hopen : Lexicon.standard.interpolationOpen? s.rest = none := by
      refine Option.eq_none_iff_forall_ne_some.2 fun blank hblank => ?_
      obtain ⟨u, hu⟩ := Dialect.interpolationOpen?_eq_some hblank
      rw [hrest] at hu
      exact (hplain.ne c List.mem_cons_self).2.2 (List.cons.inj hu).1.symm
    have hpiece : stringPiece Lexicon.standard.interpolation.opening s.rest = c :: piece := by
      rw [hrest, hplain.stringPiece_append, hstop, List.append_nil]
    refine ⟨_, .one (by simp [hrest]) ?_ (.emit .string hrest), rfl⟩
    rw [step, hmode]
    dsimp only
    rw [stringStep, hopen]
    dsimp only
    rw [hpiece]

theorem exists_leads_closingQuote (hmode : s.mode = .string) (hcloser : s.quoteCloser = ['"'])
    (hrest : s.rest = '"' :: rest) :
    ∃ s', Lexicon.standard.Leads s [⟨.closingQuote, ['"']⟩] s' ∧
      s'.toStacks = s.toStacks.pop.leave := by
  have hopen : Lexicon.standard.interpolationOpen? ('"' :: rest) = none := rfl
  have hread : s.Reads [⟨.closingQuote, ['"']⟩] (s.closeScope.emit .closingQuote ['"']).leave :=
    reads_closeQuote hrest
  refine ⟨_, .one (by simp [hrest]) ?_ hread, rfl⟩
  rw [step, hmode]
  dsimp only
  rw [stringStep, hrest, hopen]
  show Except.ok (s.closeScope.emit .closingQuote s.quoteCloser).leave = _
  rw [hcloser]

/-! ## Interpolations -/

theorem exists_leads_interpolation {lx : Lexicon} (hmode : s.mode = .string)
    (hgap : gap.all isBlank = true) (hc : isBlank c = false)
    (hrest : s.rest = lx.interpolation.opening ++ (gap ++ c :: t)) :
    ∃ s', lx.Leads s ([⟨.interpolationStart, lx.interpolation.opening⟩] ++
        unlessEmpty .whitespace gap) s' ∧
      s'.toStacks = (s.toStacks.push ⟨lx.interpolation.opening, lx.interpolation.closing,
        s.position.toLocation⟩).enter .interpolation := by
  have hopen : lx.interpolationOpen? s.rest = some gap := by
    rw [Dialect.interpolationOpen?, isPrefixOf?_eq_some_iff.2 hrest.symm, Option.map_some,
      blanks_append hgap hc]
  refine ⟨_, .one (by simp [hrest]) ?_ (reads_openInterpolation hrest), ?_⟩
  · rw [step, hmode]
    dsimp only
    rw [stringStep, hopen]
  · rw [toStacks_enter, toStacks_emitSome]
    rfl

theorem exists_leads_interpolationEnd (hmode : s.mode = .interpolation) {scope : Scope}
    (hscope : s.scopes.head? = some scope)
    (hopener : scope.opener = Lexicon.standard.interpolation.opening)
    (hgap : gap.all isBlank = true)
    (hrest : s.rest = gap ++ (Lexicon.standard.interpolation.closing ++ rest)) :
    ∃ s', Lexicon.standard.Leads s (unlessEmpty .whitespace gap ++
        [⟨.interpolationEnd, Lexicon.standard.interpolation.closing⟩]) s' ∧
      s'.toStacks = s.toStacks.pop.leave := by
  have hclose : Lexicon.standard.interpolationClose? s.rest = some gap := by
    have hfind : Lexicon.standard.interpolation.closing.isPrefixOf? ('}' :: rest) = some rest := rfl
    rw [Dialect.interpolationClose?, hrest]
    exact congrArg (Option.map Prod.fst) (afterBlanks?_eq_some hgap (by decide) hfind)
  refine ⟨_, .one ?_ ?_ (reads_closeInterpolation hrest), ?_⟩
  · rw [hrest]
    exact List.append_ne_nil_of_right_ne_nil _ (List.cons_ne_nil _ _)
  · rw [step, hmode]
    dsimp only
    rw [interpolationStep, hscope, Option.map_some, hopener, beq_self_eq_true, if_pos rfl, hclose]
  · rw [toStacks_leave, toStacks_closeScope, toStacks_emit, toStacks_emitSome]

end

end State

/-! ## The whole template -/

section

variable {lx : Lexicon} (hd : lx.defect? = none)
  (hm : closerOf? lx.interpolation.opening = none) (hv : lx.Visible) {source : Text}
  {ps : List Piece} {s : State} (h : lx.Leads (.start lx.toDialect source) ps s)

include hd hm hv h

/-- Steps over the whole template end where the run ends. -/
theorem Lexicon.tokens_eq_finish (hrest : s.rest = []) : lx.tokens source = s.finish := by
  have hrun := Path.start.run_eq_of_leads hd hm hv h
  rw [hrest, List.length_nil] at hrun
  rw [Lexicon.tokens, show run lx source.length _ = _ from hrun, run_nil lx 0 hrest]
  rfl

/-- Steps over the whole template that leave nothing open have read its tokens. -/
theorem Lexicon.tokens_of_leads (hrest : s.rest = []) (hstacks : s.toStacks = .start) :
    lx.tokens source = .ok (s.tokens.push (.eof s.position.toLocation)) := by
  obtain ⟨hmode, -, hscopes⟩ := Stacks.mk.inj hstacks
  rw [tokens_eq_finish hd hm hv h hrest, State.finish, hmode, hscopes]

/-- Steps to one that fails have its error. -/
theorem Lexicon.tokens_eq_error (hne : s.rest ≠ []) {e : SyntaxError}
    (hstep : s.step lx = .error e) : lx.tokens source = .error e := by
  have hrun := Path.start.run_eq_of_leads hd hm hv h
  obtain ⟨n, hn⟩ := Nat.exists_eq_add_one_of_ne_zero (mt List.length_eq_zero_iff.1 hne)
  have hfail : run lx s.rest.length s = .error e := by
    rw [hn, run_succ lx n hne, hstep]
    rfl
  rw [Lexicon.tokens, show run lx source.length _ = _ from hrun, hfail]
  rfl

end

end TemplateTokens
