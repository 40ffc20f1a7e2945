import TemplateTokens.Proofs.Lexer.Closing
import TemplateTokens.Proofs.Lexer.Cut

/-!
# One template behind another

A template in the standard dialect that ends with a tag may go on with any other template. The run
over both reads the first one as if nothing stood behind it, is then between tags with nothing open,
and reads the second one as if nothing stood before it, at other locations.

Results:

* `State.Carries.exists_leads`: in front of the end of a tag, a run goes on as it would without the
  text behind.
* `State.Carries.run`, `State.Carries.finish`: a run at other locations, with other tokens before
  its own, comes to the same result there.
* `Lexicon.tokens_behind`: so does a run that is between tags with nothing open.
* `tokenize_append`: the tokens of two templates are those of the first and of the second,
  the latter at other locations.
-/

namespace TemplateTokens

open Piece

/-! ## Locations in a text behind another one -/

namespace Location

/-- A location in a text behind another one that ends at `base`: the first line goes on in the last
line of the other text, and later lines keep their columns. -/
def shift (base l : Location) : Location :=
  if l.line = 1 then ⟨base.line, base.column + l.column - 1⟩ else ⟨base.line + l.line - 1, l.column⟩

@[simp] theorem shift_start (base : Location) : base.shift start = base := rfl

theorem commutes_shift {base : Location} (h : 1 ≤ base.column) : Commutes base.shift := by
  intro l t hl
  by_cases hbreaks : countLineBreaks t = 0
  · rw [advance_of_eq_zero _ hbreaks, advance_of_eq_zero _ hbreaks, shift, shift]
    dsimp only
    by_cases hline : l.line = 1
    · rw [if_pos hline, if_pos hline]
      simp only [Location.mk.injEq, true_and]
      omega
    · rw [if_neg hline, if_neg hline]
  · have hbelow : l.line + countLineBreaks t ≠ 1 := by omega
    rw [advance_of_ne_zero _ hbreaks, advance_of_ne_zero _ hbreaks, shift, shift]
    dsimp only
    rw [if_neg hbelow]
    by_cases hline : l.line = 1
    · rw [if_pos hline]
      simp only [Location.mk.injEq, and_true]
      omega
    · rw [if_neg hline]
      simp only [Location.mk.injEq, and_true]
      omega

theorem one_le_column_walk {l : Location} (h : 1 ≤ l.column) (t : Text) :
    1 ≤ (l.walk t).column := by
  fun_induction walk l t with
  | case1 => exact h
  | case2 l t ih => exact ih (Nat.le_refl 1)
  | case3 l c t hne hc ih => exact ih (Nat.le_refl 1)
  | case4 l c t hne hc ih => exact ih (Nat.le_add_left 1 _)

end Location

/-! ## The first template -/

theorem Lexicon.clean_standard : standard.Clean :=
  Lexer.clean (l := .standard) (by decide) (by decide)

namespace State.Carries

variable {a b v source source' : Text} {s s' s₁ : State} {ps ps' rs : List Piece}
  {ls ls' : List Layer}

/-- A settled step of one run on a path and one on another keeps their states related. -/
theorem step_of_path {f : Location → Location} {earlier : List Token} (hf : Location.Commutes f)
    (h : Carries f earlier b s s') (hpath : Lexicon.standard.Path source s ps ls)
    (hpath' : Lexicon.standard.Path source' s' ps' ls') (hne : s.rest ≠ [])
    (hset : s.Settled Lexicon.standard b) :
    Follows f earlier b (s.step Lexicon.standard) (s'.step Lexicon.standard) :=
  h.step Dialect.defect?_standard hf hne hset hpath.fresh
    (fun hmode => hpath'.fresh (h.mode_eq.trans hmode)) hpath.quoteCloser_eq

/-- Where every step is settled, a run goes on as it would without the text behind. -/
theorem exists_leads {P : State → Prop}
    (hP : ∀ {u ps ls}, P u → Lexicon.standard.Path source u ps ls →
      u.Settled Lexicon.standard b ∧
        ∀ u₁, u.step Lexicon.standard = .ok u₁ → u₁.rest ≠ [] → P u₁)
    (h : Carries id [] b s s') (hpath : Lexicon.standard.Path source s ps ls)
    (hpath' : Lexicon.standard.Path source' s' ps' ls') (hleads : Lexicon.standard.Leads s rs s₁)
    (hhere : s.rest ≠ [] → P s) :
    ∃ rs' s₁', Carries id [] b s₁ s₁' ∧ Lexicon.standard.Leads s' rs' s₁' := by
  induction hleads generalizing s' ps ps' ls ls' with
  | refl => exact ⟨[], s', h, .refl s'⟩
  | @step s s₁ _ qs rs hne hstep hread _ ih =>
    obtain ⟨hset, hnext⟩ := hP (hhere hne) hpath
    obtain ⟨-, -, ls₁, hpath₁⟩ :=
      hpath.moves Dialect.defect?_standard Lexicon.closerOf?_standard hne hstep hread
    have hfollows := h.step_of_path (fun _ _ _ => rfl) hpath hpath' hne hset
    have hne' : s'.rest ≠ [] := by
      rw [h.rest_eq]
      exact List.append_ne_nil_of_left_ne_nil hne b
    rw [hstep] at hfollows
    cases hstep' : s'.step Lexicon.standard with
    | error e =>
      rw [hstep'] at hfollows
      exact hfollows.elim
    | ok s₂' =>
      rw [hstep'] at hfollows
      obtain ⟨qs', ls₂', -, -, hread', hpath₂'⟩ := hpath'.exists_moves Dialect.defect?_standard
        Lexicon.closerOf?_standard hne' hstep'
      obtain ⟨rs', s₁', hcarries, hleads'⟩ := ih hfollows hpath₁ hpath₂' (hnext _ hstep)
      exact ⟨qs' ++ rs', s₁', hcarries, .step hne' hstep' hread' hleads'⟩

/-- Two templates, of which one is the beginning of the other, begin alike. -/
theorem start (a b : Text) : Carries id [] b (.start Dialect.standard a)
    (.start Dialect.standard (a ++ b)) :=
  ⟨rfl, rfl, Nat.le_refl 1, rfl, rfl, fun hmode => absurd rfl hmode⟩

/-! ## The second template -/

variable {f : Location → Location} {earlier : List Token}

/-- A run at other locations, with other tokens before its own, comes to the same result there. -/
theorem run (hf : Location.Commutes f) (h : Carries f earlier [] s s')
    (hpath : Lexicon.standard.Path source s ps ls)
    (hpath' : Lexicon.standard.Path source' s' ps' ls') (fuel : Nat) :
    Follows f earlier [] (TemplateTokens.run Lexicon.standard fuel s)
      (TemplateTokens.run Lexicon.standard fuel s') := by
  induction fuel generalizing s s' ps ps' ls ls' with
  | zero => exact h
  | succ fuel ih =>
    have hrest : s'.rest = s.rest := by rw [h.rest_eq, List.append_nil]
    by_cases hne : s.rest = []
    · rw [run_nil _ _ hne, run_nil _ _ (hrest.trans hne)]
      exact h
    have hne' : s'.rest ≠ [] := hrest ▸ hne
    have hfollows := h.step_of_path hf hpath hpath' hne (settled_nil _ _)
    rw [run_succ _ _ hne, run_succ _ _ hne']
    cases hstep : s.step Lexicon.standard with
    | error e =>
      cases hstep' : s'.step Lexicon.standard with
      | error e' =>
        rw [hstep, hstep'] at hfollows
        exact hfollows
      | ok s₁' =>
        rw [hstep, hstep'] at hfollows
        exact hfollows.elim
    | ok s₁ =>
      cases hstep' : s'.step Lexicon.standard with
      | error e' =>
        rw [hstep, hstep'] at hfollows
        exact hfollows.elim
      | ok s₁' =>
        rw [hstep, hstep'] at hfollows
        obtain ⟨_, _, -, -, -, hpath₁⟩ := hpath.exists_moves Dialect.defect?_standard
          Lexicon.closerOf?_standard hne hstep
        obtain ⟨_, _, -, -, -, hpath₁'⟩ := hpath'.exists_moves Dialect.defect?_standard
          Lexicon.closerOf?_standard hne' hstep'
        exact ih hfollows hpath₁ hpath₁'

theorem tokens_push (h : Carries f earlier [] s s') :
    s'.tokens.push (.eof s'.position.toLocation) =
      earlier.toArray ++ (s.tokens.push (.eof s.position.toLocation)).map (Token.relocate f) := by
  refine Array.toList_inj.1 ?_
  rw [Array.toList_push, h.tokens_eq, h.location_eq]
  simp [Token.relocate, Token.eof]

/-- So does the end of the template. -/
theorem finish (h : Carries f earlier [] s s') :
    (∀ tokens, s.finish = .ok tokens →
        s'.finish = .ok (earlier.toArray ++ tokens.map (Token.relocate f))) ∧
      ∀ e, s.finish = .error e → s'.finish = .error (e.relocate f) := by
  unfold State.finish
  rw [h.mode_eq, h.scopes_eq]
  cases hmode : s.mode with
  | print =>
    refine ⟨nofun, fun e he => ?_⟩
    cases he
    rw [h.tagOpenedAt_eq (by rw [hmode]; exact nofun)]
    exact congrArg Except.error (h.error_eq (.unclosed .print s.tagOpenedAt))
  | block =>
    refine ⟨nofun, fun e he => ?_⟩
    cases he
    rw [h.tagOpenedAt_eq (by rw [hmode]; exact nofun)]
    exact congrArg Except.error (h.error_eq (.unclosed .block s.tagOpenedAt))
  | data | string | interpolation =>
    cases s.scopes with
    | nil =>
      refine ⟨fun tokens htokens => ?_, fun e he => by cases he⟩
      cases htokens
      exact congrArg Except.ok h.tokens_push
    | cons scope scopes =>
      refine ⟨nofun, fun e he => ?_⟩
      cases he
      exact congrArg Except.error (h.error_eq (.unclosedScope scope.opener scope.openedAt))

end State.Carries

/-! ## Both templates -/

/-- The kind of the token in front of the end of the template. -/
def TokenStream.lastKind? (stream : TokenStream) : Option Token.Kind :=
  stream.tokens.pop.back?.map Token.kind

/-- Where a run is between tags with nothing open, the rest has the tokens that it has by itself, at
the locations behind what was read. -/
theorem Lexicon.tokens_behind {a b : Text} {s : State} {rs : List Piece}
    (hleads : standard.Leads (.start standard.toDialect (a ++ b)) rs s) (hrest : s.rest = b)
    (hstacks : s.toStacks = .start) :
    (∀ tokens, standard.tokens b = .ok tokens → standard.tokens (a ++ b) =
        .ok (s.tokens ++ tokens.map (Token.relocate (Location.start.walk a).shift))) ∧
      ∀ e, standard.tokens b = .error e →
        standard.tokens (a ++ b) = .error (e.relocate (Location.start.walk a).shift) := by
  have hd : standard.defect? = none := Dialect.defect?_standard
  obtain ⟨ls, hpath⟩ := Path.start.leads hd closerOf?_standard hleads
  rw [List.nil_append] at hpath
  have hread : texts rs = a := by
    have hsource := hpath.source_eq
    rw [hrest] at hsource
    exact (List.append_cancel_right hsource).symm
  have hcarries : State.Carries (Location.start.walk a).shift s.tokens.toList []
      (.start standard.toDialect b) s :=
    { rest_eq := hrest.trans (List.append_nil b).symm
      location_eq := by
        rw [hpath.location_eq clean_standard, hread]
        exact (Location.shift_start _).symm
      line_pos := Nat.le_refl 1
      stacks_eq := hstacks
      tokens_eq := (List.append_nil _).symm
      tagOpenedAt_eq := fun hmode => absurd rfl hmode }
  have hrun := Path.start.run_eq_of_leads hd closerOf?_standard clean_standard.visible hleads
  rw [hrest] at hrun
  have hcolumn := Location.one_le_column_walk (l := Location.start) (Nat.le_refl 1) a
  have hfollows := hcarries.run (Location.commutes_shift hcolumn) .start hpath b.length
  rw [Lexicon.tokens, Lexicon.tokens, show run standard (a ++ b).length _ = _ from hrun]
  cases hb : run standard b.length (.start standard.toDialect b) with
  | error e =>
    cases hb' : run standard b.length s with
    | error e' =>
      rw [hb, hb'] at hfollows
      constructor
      · intro tokens htokens
        cases htokens
      · intro e₂ he₂
        cases he₂
        exact congrArg Except.error hfollows
    | ok s₂' =>
      rw [hb, hb'] at hfollows
      exact hfollows.elim
  | ok s₂ =>
    cases hb' : run standard b.length s with
    | error e' =>
      rw [hb, hb'] at hfollows
      exact hfollows.elim
    | ok s₂' =>
      rw [hb, hb'] at hfollows
      exact hfollows.finish

/-- The run over two templates, of which the first one ends with the end of a tag, comes behind that
one to a state between tags with nothing open. -/
theorem Lexicon.Path.exists_leads_append {a b v : Text} {s : State} {ps : List Piece} {tag : Tag}
    (h : standard.Path a s ps []) (hrest : s.rest = [])
    (hlast : ps.getLast? = some ⟨tag.endKind, v⟩) (hends : standard.Ends tag v)
    (hmore : v ≠ Dialect.standard.print.closing → ∀ c ∈ b.head?, isLineBreak c = false) :
    ∃ rs s', standard.Leads (.start standard.toDialect (a ++ b)) rs s' ∧ s'.rest = b ∧
      s'.toStacks = .start ∧ s'.tokens = s.tokens := by
  have hleads := h.leads_of_start
  obtain ⟨rs, s', hcarries, hleads'⟩ := (State.Carries.start a b).exists_leads
    (P := fun u => standard.Closes u v)
    (fun hcloses hpath => ⟨hcloses.settled hpath hmore, fun _ => hcloses.next hpath⟩) .start .start
    hleads fun _ => ⟨ps, s, tag, hleads, hrest, hlast, hends⟩
  refine ⟨rs, s', hleads', ?_, ?_, ?_⟩
  · rw [hcarries.rest_eq, hrest, List.nil_append]
  · rw [hcarries.stacks_eq, h.stacks_eq]
    rfl
  · apply Array.toList_inj.1
    rw [hcarries.tokens_eq, show Token.relocate id = id from rfl, List.map_id]
    rfl

/-- The tokens of two templates, the first of which ends with the end of a tag. -/
theorem Lexicon.tokens_append {a b v : Text} {s : State} {ps : List Piece} {tag : Tag}
    (hpath : standard.Path a s ps []) (hrest : s.rest = [])
    (hlast : ps.getLast? = some ⟨tag.endKind, v⟩) (hends : standard.Ends tag v)
    (hmore : v ≠ Dialect.standard.print.closing → ∀ c ∈ b.head?, isLineBreak c = false) :
    (∀ tokens, standard.tokens b = .ok tokens → standard.tokens (a ++ b) =
        .ok (s.tokens ++ tokens.map (Token.relocate (Location.start.walk a).shift))) ∧
      ∀ e, standard.tokens b = .error e →
        standard.tokens (a ++ b) = .error (e.relocate (Location.start.walk a).shift) := by
  obtain ⟨rs, s', hleads, hbehind, hstacks, htokens⟩ :=
    hpath.exists_leads_append hrest hlast hends hmore
  rw [← htokens]
  exact tokens_behind hleads hbehind hstacks

theorem Tag.endKind_injective {t u : Tag} (h : t.endKind = u.endKind) : t = u := by
  cases t <;> cases u <;> first | rfl | cases h

/-- A template that ends with the end of a tag has it along a path. -/
theorem Lexicon.exists_path_of_lastKind? {a : Text} {sa : TokenStream} (ha : tokenize a = .ok sa)
    {tag : Tag} (hlast : sa.lastKind? = some tag.endKind) :
    ∃ s ps v, standard.Path a s ps [] ∧ s.rest = [] ∧ sa.tokens.pop = s.tokens ∧
      ps.getLast? = some ⟨tag.endKind, v⟩ ∧ standard.Ends tag v := by
  obtain ⟨s, ps, hpath, hrest, htokens⟩ := exists_path_of_tokens Dialect.defect?_standard
    clean_standard.visible (Lexer.tokenize_eq_ok_iff.1 ha).1
  have hpop : sa.tokens.pop = s.tokens := by rw [htokens, Array.pop_push]
  have hkind : ps.getLast?.map Piece.kind = some tag.endKind := by
    rw [TokenStream.lastKind?, hpop, ← Array.getLast?_toList, hpath.reads.tokens_eq] at hlast
    rw [← map_piece_tokensFrom Location.start ps, List.getLast?_map, Option.map_map]
    exact hlast
  obtain rfl | ⟨-, v, htext⟩ | ⟨tag', v, hend, hends⟩ :=
    hpath.getLast?_of_data (congrArg Stacks.mode hpath.stacks_eq)
  · cases hkind
  · rw [htext] at hkind
    cases tag <;> cases hkind
  · rw [hend] at hkind
    obtain rfl : tag' = tag := Tag.endKind_injective (Option.some.inj hkind)
    exact ⟨s, ps, v, hpath, hrest, hpop, hend, hends⟩

/-- A template in the standard dialect that ends with a tag, and any other one behind it; a line
break may come first only behind a print tag, as the other tags take it along. The tokens of the two
are those of the first and those of the second, and an error is that of the second, both at the
locations that they have behind the first. -/
theorem tokenize_append {a b : Text} {sa : TokenStream} (ha : tokenize a = .ok sa) {tag : Tag}
    (hlast : sa.lastKind? = some tag.endKind)
    (hb : tag ≠ .print → ∀ c ∈ b.head?, isLineBreak c = false) :
    (∀ sb, tokenize b = .ok sb → ∃ s, tokenize (a ++ b) = .ok s ∧
        s.tokens = sa.tokens.pop ++ sb.tokens.map (Token.relocate (Location.start.walk a).shift) ∧
        s.cursor = sb.cursor ∧ s.source = some (a ++ b)) ∧
      ∀ e, tokenize b = .error e →
        tokenize (a ++ b) = .error (e.relocate (Location.start.walk a).shift) := by
  obtain ⟨s, ps, v, hpath, hrest, hpop, hpiece, hends⟩ := Lexicon.exists_path_of_lastKind? ha hlast
  have hmore : v ≠ Dialect.standard.print.closing → ∀ c ∈ b.head?, isLineBreak c = false := by
    intro hv
    refine hb ?_
    rintro rfl
    cases hends
    exact hv rfl
  obtain ⟨hok, herror⟩ := Lexicon.tokens_append hpath hrest hpiece hends hmore
  rw [hpop]
  refine ⟨fun sb hsb => ?_, fun e he => ?_⟩
  · obtain ⟨htokens, hcursor, -⟩ := Lexer.tokenize_eq_ok_iff.1 hsb
    obtain ⟨stream, hstream, hall⟩ := Lexer.exists_tokenize (l := .standard) (hok _ htokens)
    obtain ⟨-, hcursor', hsource⟩ := Lexer.tokenize_eq_ok_iff.1 hstream
    exact ⟨stream, hstream, hall, hcursor'.trans hcursor.symm, hsource⟩
  · exact Lexer.tokenize_eq_error_iff.2 (herror e (Lexer.tokenize_eq_error_iff.1 he))

/-- A print tag, and behind it one that is open at the end of the next line. -/
theorem tokenize_append_unclosed :
    (∃ sa, tokenize ['{', '{', 'a', '}', '}'] = .ok sa ∧
        sa.lastKind? = some Tag.print.endKind) ∧
      tokenize ['{', '{', '\n'] = .error ⟨.unclosed .print ⟨1, 1⟩, ⟨2, 1⟩⟩ ∧
      tokenize (['{', '{', 'a', '}', '}'] ++ ['{', '{', '\n']) =
        .error ⟨.unclosed .print ⟨1, 6⟩, ⟨2, 1⟩⟩ := by
  obtain ⟨sa, ha, hlast⟩ : ∃ sa, tokenize ['{', '{', 'a', '}', '}'] = .ok sa ∧
      sa.lastKind? = some Tag.print.endKind := ⟨_, rfl, rfl⟩
  have hb : tokenize ['{', '{', '\n'] = .error ⟨.unclosed .print ⟨1, 1⟩, ⟨2, 1⟩⟩ := rfl
  exact ⟨⟨sa, ha, hlast⟩, hb, (tokenize_append ha hlast fun h => absurd rfl h).2 _ hb⟩

end TemplateTokens
