import TemplateTokens.Lexer.Turn
import TemplateTokens.Proofs.Lexer.Carry
import TemplateTokens.Proofs.Scopes

/-!
# Every turn makes progress

A turn of a run fails or moves the cursor, so no run takes more turns than its template has bytes.
The one turn that does neither is that of a cursor inside a character, where the run breaks off. A
cursor comes there only behind a slip, when a string is closed with the text of another scope than
its quote.

Results:

* `Lexicon.Reachable.exists_passes`: a step passes some text, in every state of a run.
* `Lexicon.Move.hasClosers`: whatever is open is closed with some text.
* `Lexicon.After.tracks`: while the cursor is between characters, what remains is what stands there.
* `Lexicon.After.turns_tokens?`: a run of turns ends, and comes to the tokens of the template.
* `Lexer.tears_iff`: a run breaks off exactly if its cursor comes to be inside a character.
* `Lexer.progresses_iff_not_tears`: all turns make progress exactly in the runs that do not break
  off.
-/

namespace TemplateTokens

open Piece

/-! ## Offsets -/

theorem length_dropBytes_lt {n : Nat} {t : Text} (hn : n ≠ 0) (ht : t ≠ []) :
    (dropBytes n t).length < t.length := by
  have hle (n : Nat) (t : Text) : (dropBytes n t).length ≤ t.length := by
    rw [← congrArg List.length (takeBytes_append_dropBytes n t), List.length_append]
    exact Nat.le_add_left _ _
  cases t with
  | nil => exact absurd rfl ht
  | cons c t =>
    rw [dropBytes, if_neg hn, List.length_cons]
    exact Nat.lt_succ_of_le (hle _ t)

theorem dropBytes_eq_nil {n : Nat} {t : Text} (h : byteSize t ≤ n) : dropBytes n t = [] := by
  induction t generalizing n with
  | nil => rfl
  | cons c t ih =>
    have hpos := c.utf8Size_pos
    rw [byteSize_cons] at h
    rw [dropBytes, if_neg (by omega)]
    exact ih (by omega)

/-! ## Closers -/

/-- Whatever is open is closed with some text. -/
def Stacks.HasClosers (st : Stacks) : Prop := ∀ scope ∈ st.scopes, scope.closer ≠ []

namespace Stacks.HasClosers

variable {st : Stacks}

theorem push (h : st.HasClosers) {scope : Scope} (hscope : scope.closer ≠ []) :
    (st.push scope).HasClosers := List.forall_mem_cons.2 ⟨hscope, h⟩

theorem pop (h : st.HasClosers) : st.pop.HasClosers :=
  fun scope hscope => h scope (List.mem_of_mem_tail hscope)

theorem quoteCloser_ne_nil {s : State} (h : s.toStacks.HasClosers) : s.quoteCloser ≠ [] := by
  rw [State.quoteCloser]
  cases hscopes : s.scopes with
  | nil => exact List.cons_ne_nil _ _
  | cons scope scopes =>
    exact h scope (show scope ∈ s.scopes from hscopes ▸ List.mem_cons_self)

end Stacks.HasClosers

theorem closer_ne_nil {opener closer : Text} (h : closerOf? opener = some closer) :
    closer ≠ [] := by
  obtain ⟨pair, hpair, rfl⟩ := Option.map_eq_some_iff.1 h
  have hall : ∀ p ∈ brackets, p.2 ≠ [] := by decide
  exact hall pair (List.mem_of_find?_eq_some hpair)

section Runs

variable {lx : Lexicon} {source : Text} {s s' : State} {n : Nat}

theorem Lexicon.Move.hasClosers (hd : lx.defect? = none) {qs : List Piece} {st : Stacks}
    (h : s.toStacks.HasClosers) (hmove : lx.Move s qs st) : st.HasClosers := by
  have hquote : (['"'] : Text) ≠ [] := List.cons_ne_nil _ _
  cases hmove with
  | text => exact h
  | comment => exact h
  | verbatim => exact h
  | openTag => exact h
  | closeTag => exact h
  | blanks => exact h
  | lexeme _ hstart hacts =>
    generalize s.rest.dropWhile isBlank = t at hstart
    cases hacts with
    | plain => exact h
    | quoted => exact h
    | opening =>
      cases hstart with
      | opening hcloser => exact h.push (closer_ne_nil hcloser)
    | closing => exact h.pop
    | quote => exact @Stacks.HasClosers.push _ h ⟨_, _, _⟩ hquote
  | openInterpolation => exact h.push (Dialect.interpolation_closing_ne_nil hd)
  | stringPiece => exact h
  | closeQuote => exact h.pop
  | closeInterpolation => exact h.pop

/-- What a step does in any state of a run is listed. -/
theorem Lexicon.Reachable.exists_move (hd : lx.defect? = none) (h : lx.Reachable source s)
    (hne : s.rest ≠ []) (hstep : s.step lx = .ok s') : ∃ qs, s.Moves lx qs s' := by
  have houtcome : s.Outcome lx (s.step lx) := by
    obtain ⟨ps, ls, hpath⟩ | ⟨hlost, -⟩ := h.path_or_lost hd
    · exact hpath.outcome hd hne
    · exact State.outcome_step (fun hdata => absurd hdata hlost.mode_ne_data) hne
  rw [hstep] at houtcome
  exact houtcome

theorem Lexicon.Reachable.hasClosers (hd : lx.defect? = none) (h : lx.Reachable source s) :
    s.toStacks.HasClosers := by
  induction h with
  | start => exact nofun
  | step h hne hstep ih =>
    obtain ⟨qs, hmoves⟩ := h.exists_move hd hne hstep
    exact hmoves.move.hasClosers hd ih

/-! ## Passing a text -/

/-- The cursor moves by the size of a text, whether it stands there or not. -/
structure State.Passes (s : State) (value : Text) (s' : State) : Prop where
  ne_nil : value ≠ []
  offset_eq : s'.position.offset = s.position.offset + byteSize value
  rest_eq : s'.rest = dropBytes (byteSize value) s.rest

theorem State.Reads.passes {qs : List Piece} (h : s.Reads qs s') (hne : texts qs ≠ []) :
    s.Passes (texts qs) s' where
  ne_nil := hne
  offset_eq := h.offset_eq
  rest_eq := by rw [h.rest_eq, dropBytes_append]

/-- So it does in a string, even where it is closed with the text of another scope. -/
theorem State.exists_passes_stringStep (hd : lx.defect? = none) (h : s.toStacks.HasClosers) :
    ∃ value, s.Passes value (s.stringStep lx) := by
  rw [stringStep]
  cases hopen : lx.interpolationOpen? s.rest with
  | some blank =>
    obtain ⟨rest, hrest⟩ := Dialect.interpolationOpen?_eq_some hopen
    rw [List.append_assoc] at hrest
    have hopening : lx.interpolation.opening ≠ [] := Dialect.interpolation_opening_ne_nil hd
    exact ⟨_, (reads_openInterpolation hrest.symm).passes (by simp [hopening])⟩
  | none =>
    dsimp only
    cases stringPiece lx.interpolation.opening s.rest with
    | nil => exact ⟨s.quoteCloser, h.quoteCloser_ne_nil, rfl, rfl⟩
    | cons c piece => exact ⟨c :: piece, List.cons_ne_nil _ _, rfl, rfl⟩

/-- In a dialect whose operators can be seen, a step passes some text in every state of a run. -/
theorem Lexicon.Reachable.exists_passes (hd : lx.defect? = none) (hv : lx.Visible)
    (h : lx.Reachable source s) (hne : s.rest ≠ []) (hstep : s.step lx = .ok s') :
    ∃ value, s.Passes value s' := by
  by_cases hmode : s.mode = .string
  · have hstring : s.step lx = .ok (s.stringStep lx) := by rw [State.step, hmode]
    obtain rfl : s.stringStep lx = s' := Except.ok.inj (hstring.symm.trans hstep)
    exact State.exists_passes_stringStep hd (h.hasClosers hd)
  · obtain ⟨qs, hmoves⟩ := h.exists_move hd hne hstep
    have hread := hmoves.reads (hmoves.move.texts_isPrefix fun hstring => absurd hstring hmode)
    have hproper := hmoves.move.proper hd hv (fun hstring => absurd hstring hmode) hne
    exact ⟨_, hread.passes (texts_ne_nil hproper hmoves.move.ne_nil)⟩

/-! ## The cursor between two characters -/

/-- What remains is what the template has from the cursor on. -/
def State.StandsIn (source : Text) (s : State) : Prop :=
  ∃ before, source = before ++ s.rest ∧ byteSize before = s.position.offset

theorem State.StandsIn.rest_ne_nil (h : s.StandsIn source)
    (hlt : s.position.offset < byteSize source) : s.rest ≠ [] := by
  obtain ⟨before, rfl, hsize⟩ := h
  intro hnil
  rw [hnil, List.append_nil] at hlt
  omega

namespace State.Passes

variable {value : Text}

theorem size_pos (h : s.Passes value s') : byteSize value ≠ 0 :=
  fun hzero => h.ne_nil (byteSize_eq_zero.1 hzero)

/-- If the cursor is again between two characters behind the text, it has passed as many as what
remains has lost. -/
theorem standsIn (h : s.Passes value s') (hs : s.StandsIn source)
    (hb : isBoundary s'.position.offset source = true) : s'.StandsIn source := by
  obtain ⟨before, hsource, hsize⟩ := hs
  obtain ⟨before', after, hsource', hsize'⟩ := isBoundary_iff.1 hb
  have hoffset := h.offset_eq
  have hpos := h.size_pos
  obtain ⟨passed, rfl⟩ | ⟨passed, rfl⟩ := List.prefix_or_prefix_of_prefix
    (hsource ▸ List.prefix_append before s.rest) (hsource' ▸ List.prefix_append before' after)
  · have hrest : s.rest = passed ++ after := by
      rw [hsource, List.append_assoc] at hsource'
      exact List.append_cancel_left hsource'
    have hpassed : byteSize value = byteSize passed := by
      rw [byteSize_append] at hsize'
      omega
    refine ⟨before ++ passed, ?_, hsize'⟩
    rw [h.rest_eq, hrest, hpassed, dropBytes_append, hsource, hrest, List.append_assoc]
  · rw [byteSize_append] at hsize
    omega

theorem rest_eq_nil (h : s.Passes value s') (hs : s.StandsIn source)
    (hend : byteSize source ≤ s'.position.offset) : s'.rest = [] := by
  obtain ⟨before, rfl, hsize⟩ := hs
  have hoffset := h.offset_eq
  rw [byteSize_append] at hend
  rw [h.rest_eq]
  exact dropBytes_eq_nil (by omega)

theorem length_lt (h : s.Passes value s') (hne : s.rest ≠ []) : s'.rest.length < s.rest.length := by
  rw [h.rest_eq]
  exact length_dropBytes_lt h.size_pos hne

end State.Passes

/-! ## Turns -/

theorem State.turn_of_ok (hb : isBoundary s.position.offset source = true)
    (hstep : s.step lx = .ok s') : s.turn lx source = .moved s' := by
  rw [turn, if_pos hb, hstep]

theorem State.turn_of_error (hb : isBoundary s.position.offset source = true) {e : SyntaxError}
    (hstep : s.step lx = .error e) : s.turn lx source = .failed e := by
  rw [turn, if_pos hb, hstep]

theorem State.turn_of_not_isBoundary (hb : ¬isBoundary s.position.offset source = true) :
    s.turn lx source = .torn := by
  rw [turn, if_neg hb]

theorem State.turn_eq_moved (h : s.turn lx source = .moved s') :
    isBoundary s.position.offset source = true ∧ s.step lx = .ok s' := by
  by_cases hb : isBoundary s.position.offset source = true
  · cases hstep : s.step lx with
    | ok s₁ =>
      rw [turn_of_ok hb hstep] at h
      cases h
      exact ⟨hb, rfl⟩
    | error e =>
      rw [turn_of_error hb hstep] at h
      cases h
  · rw [turn_of_not_isBoundary hb] at h
    cases h

/-- A turn fails or moves the cursor forward. -/
def State.Progresses (lx : Lexicon) (source : Text) (s : State) : Prop :=
  (∃ e, s.turn lx source = .failed e) ∨
    ∃ s', s.turn lx source = .moved s' ∧ s.position.offset < s'.position.offset

/-- The state of a run behind a number of turns, each of which began before the end of the
template. -/
inductive Lexicon.After (lx : Lexicon) (source : Text) : Nat → State → Prop
  | start : After lx source 0 (.start lx.toDialect source)
  | turn {n : Nat} {s s' : State} : After lx source n s → s.position.offset < byteSize source →
      s.turn lx source = .moved s' → After lx source (n + 1) s'

/-- What holds behind any number of turns: each has moved the cursor, and while the cursor is
between two characters what remains is what stands there. -/
structure State.Tracks (lx : Lexicon) (source : Text) (n : Nat) (s : State) : Prop where
  reachable : lx.Reachable source s
  le_offset : n ≤ s.position.offset
  standsIn : isBoundary s.position.offset source = true → s.StandsIn source
  rest_eq_nil : byteSize source ≤ s.position.offset → s.rest = []

namespace State.Tracks

theorem start : (State.start lx.toDialect source).Tracks lx source 0 where
  reachable := .start
  le_offset := Nat.zero_le _
  standsIn _ := ⟨[], rfl, rfl⟩
  rest_eq_nil hend := byteSize_eq_zero.1 (Nat.le_zero.1 hend)

theorem rest_ne_nil (h : s.Tracks lx source n) (hlt : s.position.offset < byteSize source)
    (hb : isBoundary s.position.offset source = true) : s.rest ≠ [] :=
  (h.standsIn hb).rest_ne_nil hlt

theorem exists_passes (hd : lx.defect? = none) (hv : lx.Visible) (h : s.Tracks lx source n)
    (hlt : s.position.offset < byteSize source) (hturn : s.turn lx source = .moved s') :
    ∃ value, s.Passes value s' := by
  obtain ⟨hb, hstep⟩ := State.turn_eq_moved hturn
  exact h.reachable.exists_passes hd hv (h.rest_ne_nil hlt hb) hstep

theorem turn (hd : lx.defect? = none) (hv : lx.Visible) (h : s.Tracks lx source n)
    (hlt : s.position.offset < byteSize source) (hturn : s.turn lx source = .moved s') :
    s'.Tracks lx source (n + 1) := by
  obtain ⟨hb, hstep⟩ := State.turn_eq_moved hturn
  obtain ⟨value, hpasses⟩ := h.exists_passes hd hv hlt hturn
  have hle := h.le_offset
  have hoffset := hpasses.offset_eq
  have hpos := hpasses.size_pos
  exact {
    reachable := h.reachable.step (h.rest_ne_nil hlt hb) hstep
    le_offset := by omega
    standsIn := hpasses.standsIn (h.standsIn hb)
    rest_eq_nil := hpasses.rest_eq_nil (h.standsIn hb) }

/-- A turn makes progress exactly if the cursor is between two characters. -/
theorem progresses_iff (hd : lx.defect? = none) (hv : lx.Visible) (h : s.Tracks lx source n)
    (hlt : s.position.offset < byteSize source) :
    s.Progresses lx source ↔ isBoundary s.position.offset source = true := by
  constructor
  · rintro (⟨e, hturn⟩ | ⟨s', hturn, -⟩)
    · refine Decidable.byContradiction fun hb => ?_
      rw [State.turn_of_not_isBoundary hb] at hturn
      cases hturn
    · exact (State.turn_eq_moved hturn).1
  · intro hb
    cases hstep : s.step lx with
    | error e => exact Or.inl ⟨e, State.turn_of_error hb hstep⟩
    | ok s' =>
      have hturn := State.turn_of_ok hb hstep
      obtain ⟨value, hpasses⟩ := h.exists_passes hd hv hlt hturn
      have hoffset := hpasses.offset_eq
      have hpos := hpasses.size_pos
      exact Or.inr ⟨s', hturn, by omega⟩

/-- A cursor that is inside a character has come there behind a slip. -/
theorem exists_slips (hd : lx.defect? = none) (h : s.Tracks lx source n)
    (hb : ¬isBoundary s.position.offset source = true) :
    ∃ s₀ entered, lx.Traced source s₀ entered ∧ s₀.Slips lx entered := by
  obtain ⟨entered, htraced⟩ := h.reachable.exists_traced
  obtain ⟨ps, ls, hpath, -⟩ | hslipped := htraced.path_or_slips hd
  · have hboundary : isBoundary s.position.offset source = true :=
      isBoundary_iff.2 ⟨texts ps, s.rest, hpath.source_eq, hpath.offset_eq.symm⟩
    exact absurd hboundary hb
  · exact hslipped

end State.Tracks

namespace Lexicon.After

theorem tracks (hd : lx.defect? = none) (hv : lx.Visible) (h : lx.After source n s) :
    s.Tracks lx source n := by
  induction h with
  | start => exact .start
  | turn _ hlt hturn ih => exact ih.turn hd hv hlt hturn

theorem turns_eq (h : lx.After source n s) (k : Nat) :
    turns lx source (n + k) (.start lx.toDialect source) = turns lx source k s := by
  induction h generalizing k with
  | start => rw [Nat.zero_add]
  | turn _ hlt hturn ih =>
    rw [Nat.add_right_comm, Nat.add_assoc, ih, turns, if_pos hlt, hturn]

/-- With as much fuel as there are bytes left, turns come to the end of the run: to a cursor inside
a character, or to the tokens or the error that the run has. -/
theorem turns_tokens? (hd : lx.defect? = none) (hv : lx.Visible) {fuel : Nat}
    (h : lx.After source n s) (hfuel : byteSize source ≤ n + fuel) :
    (turns lx source fuel s = .torn ∧ ∃ m s', lx.After source m s' ∧
        s'.position.offset < byteSize source ∧
        ¬isBoundary s'.position.offset source = true) ∨
      ∀ k, s.rest.length ≤ k →
        (turns lx source fuel s).tokens? = some ((run lx k s).bind State.finish) := by
  induction fuel generalizing n s with
  | zero =>
    have htracks := h.tracks hd hv
    have hend := htracks.rest_eq_nil (Nat.le_trans hfuel htracks.le_offset)
    refine Or.inr fun k _ => ?_
    rw [turns, run_nil lx k hend]
    rfl
  | succ fuel ih =>
    have htracks := h.tracks hd hv
    rw [turns]
    by_cases hlt : s.position.offset < byteSize source
    · rw [if_pos hlt]
      by_cases hb : isBoundary s.position.offset source = true
      · have hne := htracks.rest_ne_nil hlt hb
        have hrun (k : Nat) (hk : s.rest.length ≤ k) :
            run lx k s = (s.step lx).bind (run lx (k - 1)) := by
          have hpos := List.length_pos_iff.2 hne
          obtain ⟨k, rfl⟩ := Nat.exists_eq_add_one_of_ne_zero (n := k) (by omega)
          exact run_succ lx k hne
        cases hstep : s.step lx with
        | error e =>
          refine Or.inr fun k hk => ?_
          rw [State.turn_of_error hb hstep, hrun k hk, hstep]
          rfl
        | ok s' =>
          have hturn := State.turn_of_ok hb hstep
          obtain ⟨value, hpasses⟩ := htracks.exists_passes hd hv hlt hturn
          have hshorter := hpasses.length_lt hne
          rw [hturn]
          obtain htorn | htokens := ih (h.turn hlt hturn) (by omega)
          · exact Or.inl htorn
          · refine Or.inr fun k hk => ?_
            rw [hrun k hk, hstep]
            exact htokens (k - 1) (by omega)
      · rw [State.turn_of_not_isBoundary hb]
        exact Or.inl ⟨rfl, n, s, h, hlt, hb⟩
    · have hend := htracks.rest_eq_nil (Nat.le_of_not_lt hlt)
      refine Or.inr fun k _ => ?_
      rw [if_neg hlt, run_nil lx k hend]
      rfl

end Lexicon.After

end Runs

/-! ## Whole runs -/

/-- The run over a template breaks off, with its cursor inside a character, or comes to the tokens
or the error of the template. -/
theorem Lexer.lastTurn_cases {l : Lexer} (hv : l.dialect.Visible) (source : Text) :
    ((l.lastTurn source).tokens? = none ∧
        ∃ n s, (Lexicon.ofDialect l.dialect).After source n s ∧
          s.position.offset < byteSize source ∧ ¬isBoundary s.position.offset source = true) ∨
      (l.lastTurn source).tokens? = some (l.tokens source) := by
  obtain ⟨htorn, hinside⟩ | htokens :=
    Lexicon.After.start.turns_tokens? l.usable hv.lexicon (Nat.le_add_left (byteSize source) 0)
  · exact Or.inl ⟨congrArg Turn.tokens? htorn, hinside⟩
  · exact Or.inr (htokens source.length (Nat.le_refl _))

/-- A run breaks off exactly if its cursor comes to be inside a character. -/
theorem Lexer.tears_iff {l : Lexer} (hv : l.dialect.Visible) (source : Text) :
    l.tears source = true ↔ ∃ n s, (Lexicon.ofDialect l.dialect).After source n s ∧
      s.position.offset < byteSize source ∧ ¬isBoundary s.position.offset source = true := by
  constructor
  · intro htears
    obtain ⟨-, hinside⟩ | htokens := lastTurn_cases hv source
    · exact hinside
    · rw [tears, htokens] at htears
      cases htears
  · rintro ⟨n, s, hafter, hlt, hb⟩
    have hle := (hafter.tracks l.usable hv.lexicon).le_offset
    obtain ⟨k, hk⟩ : ∃ k, byteSize source = n + (k + 1) := ⟨byteSize source - n - 1, by omega⟩
    have htorn : l.lastTurn source = .torn := by
      rw [lastTurn, hk]
      refine (hafter.turns_eq (k + 1)).trans ?_
      rw [turns, if_pos hlt, State.turn_of_not_isBoundary hb]
    rw [tears, htorn]
    rfl

/-- In a dialect whose operators can be seen, every turn of a run fails or moves the cursor forward
exactly if the run does not break off. The only turn that does neither is that of a cursor inside a
character. No run takes more turns than its template has bytes, and one that does not break off
comes to the tokens or the error of the template. A run that breaks off has slipped before, and
none does if no interpolation begins like a group. -/
theorem Lexer.progresses_iff_not_tears {l : Lexer} (hv : l.dialect.Visible) (source : Text) :
    ((∀ n s, (Lexicon.ofDialect l.dialect).After source n s →
        s.position.offset < byteSize source → s.Progresses (.ofDialect l.dialect) source) ↔
      l.tears source = false) ∧
    (∀ n s, (Lexicon.ofDialect l.dialect).After source n s → s.position.offset < byteSize source →
      n < byteSize source ∧
        (s.Progresses (.ofDialect l.dialect) source ↔
          isBoundary s.position.offset source = true)) ∧
    ((l.lastTurn source).tokens? = if l.tears source then none else some (l.tokens source)) ∧
    (l.tears source = true → ∃ s entered, (Lexicon.ofDialect l.dialect).Traced source s entered ∧
      s.Slips (.ofDialect l.dialect) entered) ∧
    (closerOf? l.dialect.interpolation.opening = none → l.tears source = false) := by
  have hslips (htears : l.tears source = true) : ∃ s entered,
      (Lexicon.ofDialect l.dialect).Traced source s entered ∧
        s.Slips (.ofDialect l.dialect) entered := by
    obtain ⟨n, s, hafter, -, hb⟩ := (tears_iff hv source).1 htears
    exact (hafter.tracks l.usable hv.lexicon).exists_slips l.usable hb
  refine ⟨⟨fun hall => ?_, fun hnot n s hafter hlt => ?_⟩, fun n s hafter hlt => ?_, ?_, hslips,
    fun hopening => ?_⟩
  · refine Bool.eq_false_iff.2 fun htears => ?_
    obtain ⟨n, s, hafter, hlt, hb⟩ := (tears_iff hv source).1 htears
    have htracks := hafter.tracks l.usable hv.lexicon
    exact hb ((htracks.progresses_iff l.usable hv.lexicon hlt).1 (hall n s hafter hlt))
  · have htracks := hafter.tracks l.usable hv.lexicon
    refine (htracks.progresses_iff l.usable hv.lexicon hlt).2 (Decidable.byContradiction ?_)
    intro hb
    rw [(tears_iff hv source).2 ⟨n, s, hafter, hlt, hb⟩] at hnot
    cases hnot
  · have htracks := hafter.tracks l.usable hv.lexicon
    exact ⟨Nat.lt_of_le_of_lt htracks.le_offset hlt,
      htracks.progresses_iff l.usable hv.lexicon hlt⟩
  · obtain ⟨htorn, -⟩ | htokens := lastTurn_cases hv source
    · rw [tears, htorn]
      rfl
    · rw [tears, htokens]
      rfl
  · refine Bool.eq_false_iff.2 fun htears => ?_
    obtain ⟨s, entered, -, -, e, -, group, groups, -, hgroup, hopener⟩ := hslips htears
    rw [Scope.IsGroup, hopener] at hgroup
    cases hopening.symm.trans hgroup

/-- A run that slips, closes its string with a parenthesis, and goes on to the end of the
template. -/
theorem Lexer.progresses_of_slip : Dialect.parenthesized.Visible ∧
    ∀ n s, (Lexicon.ofDialect Dialect.parenthesized).After
        ['{', '{', ' ', '"', '(', '(', ' ', ')', ')', '"', ' ', '}', '}'] n s →
      s.position.offset < 13 → s.Progresses (.ofDialect Dialect.parenthesized)
        ['{', '{', ' ', '"', '(', '(', ' ', ')', ')', '"', ' ', '}', '}'] :=
  ⟨by decide, (progresses_iff_not_tears (l := parenthesized) (by decide)
    ['{', '{', ' ', '"', '(', '(', ' ', ')', ')', '"', ' ', '}', '}']).1.2 rfl⟩

/-- The standard dialect with interpolations that begin like groups and end with a letter of two
bytes. -/
def Dialect.accented : Dialect := { standard with interpolation := ⟨['('], ['é']⟩ }

theorem Dialect.defect?_accented : accented.defect? = none := by decide

/-- In that dialect a string is closed with the letter, and its two bytes are the quote and the
first byte of the letter behind it. The next turn finds the cursor inside of that letter. -/
theorem Lexer.exists_not_progresses : Dialect.accented.Visible ∧
    ∃ n s, (Lexicon.ofDialect Dialect.accented).After
        ['{', '{', ' ', '"', '(', '(', 'é', '"', 'é', '"', ')', 'é', '"', ' ', '}', '}'] n s ∧
      s.position.offset < 19 ∧ ¬s.Progresses (.ofDialect Dialect.accented)
        ['{', '{', ' ', '"', '(', '(', 'é', '"', 'é', '"', ')', 'é', '"', ' ', '}', '}'] := by
  have hv : Dialect.accented.Visible := by decide
  obtain ⟨n, s, hafter, hlt, hb⟩ :=
    (tears_iff (l := ⟨Dialect.accented, Dialect.defect?_accented⟩) hv
      ['{', '{', ' ', '"', '(', '(', 'é', '"', 'é', '"', ')', 'é', '"', ' ', '}', '}']).1 rfl
  have htracks := hafter.tracks Dialect.defect?_accented hv.lexicon
  exact ⟨hv, n, s, hafter, hlt, fun h =>
    hb ((htracks.progresses_iff Dialect.defect?_accented hv.lexicon hlt).1 h)⟩

end TemplateTokens
