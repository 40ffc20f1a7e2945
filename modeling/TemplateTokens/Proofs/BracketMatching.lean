import Mathlib.Data.List.Basic
import TemplateTokens.Proofs.NestedExpression

/-!
# Bracket matching

A print tag around names, numbers and brackets with one space between each two has tokens exactly
if its brackets form a Dyck word. If they do not because of a closing bracket, the error is at the
first closing bracket that cannot be matched, and reports what was open there. This is what a
checker with a stack of open brackets does.

Results:

* `Expression.check_eq_nil_iff`, `Expression.cases_of_check`: the checker accepts atoms exactly if
  their brackets form a Dyck word, and keeps on its stack the brackets that are open.
* `Expression.viable_iff`: it refuses them exactly if no Dyck word can begin with their brackets.
* `Expression.Atom.agrees`, `Expression.agrees_spaced`: the run takes one atom as the checker does,
  and so a row of them.
* `tokenize_printTag`: which tags have tokens, and the error of those that a closing bracket keeps
  from having any.
-/

namespace TemplateTokens

open Piece

namespace Expression

/-! ## Atoms and their brackets -/

/-- A part of an expression that stands for itself: a name, a number or a bracket. -/
inductive Atom where
  | name (name : Name)
  | number (number : Number)
  | opening (bracket : Bracket)
  | closing (bracket : Bracket)

/-- A bracket in a word of brackets. -/
inductive Mark where
  | opening (bracket : Bracket)
  | closing (bracket : Bracket)
deriving DecidableEq, Repr

namespace Atom

/-- The text of an atom. -/
def text : Atom → Text
  | .name n => n.text
  | .number n => n.text
  | .opening bracket => [bracket.opening]
  | .closing bracket => [bracket.closing]

/-- The piece that an atom is. -/
def piece : Atom → Piece
  | .name n => ⟨.name, n.text⟩
  | .number n => ⟨.number, n.text⟩
  | .opening bracket => ⟨.punctuation, [bracket.opening]⟩
  | .closing bracket => ⟨.punctuation, [bracket.closing]⟩

@[simp] theorem value_piece (a : Atom) : a.piece.value = a.text := by cases a <;> rfl

/-- The bracket that an atom is, if it is one. -/
def mark? : Atom → Option Mark
  | .name _ => none
  | .number _ => none
  | .opening bracket => some (.opening bracket)
  | .closing bracket => some (.closing bracket)

/-- The atom that is a bracket. -/
def ofMark : Mark → Atom
  | .opening bracket => .opening bracket
  | .closing bracket => .closing bracket

@[simp] theorem mark?_ofMark (m : Mark) : (ofMark m).mark? = some m := by cases m <;> rfl

theorem eq_ofMark {a : Atom} {m : Mark} (h : a.mark? = some m) : a = ofMark m := by
  cases a <;> cases h <;> rfl

end Atom

/-- The word of the brackets among atoms. -/
def marks (atoms : List Atom) : List Mark := atoms.filterMap Atom.mark?

@[simp] theorem marks_append (u v : List Atom) : marks (u ++ v) = marks u ++ marks v :=
  List.filterMap_append

/-- Words in which every bracket has its partner. -/
inductive Dyck : List Mark → Prop
  | nil : Dyck []
  | nest (b : Bracket) {u v : List Mark} : Dyck u → Dyck v →
      Dyck (.opening b :: (u ++ .closing b :: v))

theorem Dyck.append {u v : List Mark} (hu : Dyck u) (hv : Dyck v) : Dyck (u ++ v) := by
  induction hu with
  | nil => exact hv
  | nest b hx _ _ ih =>
    rw [List.cons_append, List.append_assoc, List.cons_append]
    exact .nest b hx ih

/-- Words that can be continued to a Dyck word. -/
def Viable (ms : List Mark) : Prop := ∃ more, Dyck (ms ++ more)

/-! ## The template -/

/-- The text of atoms with a space before each. -/
def spaced (atoms : List Atom) : Text := atoms.flatMap fun a => ' ' :: a.text

@[simp] theorem spaced_append (u v : List Atom) : spaced (u ++ v) = spaced u ++ spaced v :=
  List.flatMap_append

@[simp] theorem spaced_cons (a : Atom) (atoms : List Atom) :
    spaced (a :: atoms) = ' ' :: (a.text ++ spaced atoms) := List.flatMap_cons

/-- A print tag around atoms, with one space between each two and at both ends. -/
def printTag (atoms : List Atom) : Text :=
  ['{', '{', ' '] ++ [' '].intercalate (atoms.map Atom.text) ++ [' ', '}', '}']

/-- The location of what stands behind atoms in their print tag. -/
def locationBehind (atoms : List Atom) : Location :=
  Location.start.walk (['{', '{'] ++ spaced atoms ++ [' '])

theorem spaced_eq (a : Atom) (atoms : List Atom) :
    spaced (a :: atoms) = ' ' :: [' '].intercalate ((a :: atoms).map Atom.text) := by
  induction atoms generalizing a with
  | nil => simp [spaced, List.intercalate]
  | cons b atoms ih =>
    rw [spaced_cons, ih]
    simp [List.intercalate]

/-- What stands behind the last atom are blanks and the end of the tag. -/
theorem exists_gap (atoms : List Atom) : ∃ gap, gap.all isBlank = true ∧
    printTag atoms = ['{', '{'] ++ (spaced atoms ++ (' ' :: gap ++ ['}', '}'])) := by
  cases atoms with
  | nil => exact ⟨[' '], rfl, rfl⟩
  | cons a atoms =>
    refine ⟨[], rfl, ?_⟩
    rw [spaced_eq, printTag]
    simp

/-! ## The checker -/

/-- What the checker does at an atom with the brackets that are open, innermost first, each with
its location. -/
def Atom.check (here : Location) (opened : List (Bracket × Location)) :
    Atom → Except SyntaxError (List (Bracket × Location))
  | .name _ => .ok opened
  | .number _ => .ok opened
  | .opening b => .ok ((b, here) :: opened)
  | .closing c =>
    match opened with
    | [] => .error ⟨.unexpectedClosingBracket c.closing, here⟩
    | (b, openedAt) :: outer =>
      if b = c then .ok outer else .error ⟨.unclosedBracket [b.opening] openedAt, here⟩

/-- What the checker does with a row of atoms behind others. -/
def check (before : List Atom) (opened : List (Bracket × Location)) :
    List Atom → Except SyntaxError (List (Bracket × Location))
  | [] => .ok opened
  | a :: atoms =>
    (a.check (locationBehind before) opened).bind fun opened => check (before ++ [a]) opened atoms

section

variable {before u v atoms inner : List Atom} {opened opened' : List (Bracket × Location)}
  {b c : Bracket} {l : Location}

theorem check_append : check before opened (u ++ v) =
    (check before opened u).bind fun opened' => check (before ++ u) opened' v := by
  induction u generalizing before opened with
  | nil => rw [List.append_nil]; rfl
  | cons a u ih =>
    rw [List.cons_append, check, check]
    cases a.check (locationBehind before) opened with
    | error e => rfl
    | ok opened' =>
      show check _ _ (u ++ v) = _
      rw [ih, List.append_assoc]
      rfl

theorem check_concat (a : Atom) (h : check before opened u = .ok opened') :
    check before opened (u ++ [a]) = a.check (locationBehind (before ++ u)) opened' := by
  rw [check_append, h]
  show check (before ++ u) opened' [a] = _
  rw [check]
  cases a.check (locationBehind (before ++ u)) opened' <;> rfl

theorem check_eq_error {e : SyntaxError} (h : check before opened u = .error e) :
    check before opened (u ++ v) = .error e := by
  rw [check_append, h]
  rfl

theorem check_of_append (h : check before opened (u ++ v) = .ok opened') :
    ∃ opened₁, check before opened u = .ok opened₁ ∧
      check (before ++ u) opened₁ v = .ok opened' := by
  rw [check_append] at h
  cases hu : check before opened u with
  | error e =>
    rw [hu] at h
    cases h
  | ok opened₁ =>
    rw [hu] at h
    exact ⟨opened₁, rfl, h⟩

/-! ## Dyck words are accepted -/

/-- The first bracket among atoms. -/
theorem exists_of_marks_eq_cons {m : Mark} {ms : List Mark} (h : marks atoms = m :: ms) :
    ∃ u v, atoms = u ++ .ofMark m :: v ∧ marks u = [] ∧ marks v = ms := by
  obtain ⟨u, a, v, rfl, hu, ha, hv⟩ := List.filterMap_eq_cons_iff.1 h
  exact ⟨u, v, by rw [Atom.eq_ofMark ha], List.filterMap_eq_nil_iff.2 hu, hv⟩

theorem exists_of_marks_eq_append {ms ms' : List Mark} (h : marks atoms = ms ++ ms') :
    ∃ u v, atoms = u ++ v ∧ marks u = ms ∧ marks v = ms' := List.filterMap_eq_append_iff.1 h

/-- Names and numbers leave alone what is open. -/
theorem Atom.check_of_mark? {a : Atom} {here : Location} (h : a.mark? = none) :
    a.check here opened = .ok opened := by
  cases a with
  | name => rfl
  | number => rfl
  | opening => cases h
  | closing => cases h

theorem check_of_marks (h : marks u = []) : check before opened u = .ok opened := by
  induction u generalizing before with
  | nil => rfl
  | cons a u ih =>
    have hall := List.filterMap_eq_nil_iff.1 h
    rw [check, Atom.check_of_mark? (hall a List.mem_cons_self)]
    exact ih (List.filterMap_eq_nil_iff.2 fun b hb => hall b (List.mem_cons_of_mem a hb))

/-- A Dyck word opens nothing that it does not close. -/
theorem Dyck.check_eq {ms : List Mark} (h : Dyck ms) (hu : marks u = ms) :
    check before opened u = .ok opened := by
  induction h generalizing u before opened with
  | nil => exact check_of_marks hu
  | @nest b x y _ _ ihx ihy =>
    obtain ⟨w, u, rfl, hw, hu⟩ := exists_of_marks_eq_cons hu
    obtain ⟨ux, u, rfl, hx, hu⟩ := exists_of_marks_eq_append hu
    obtain ⟨w', uy, rfl, hw', hy⟩ := exists_of_marks_eq_cons hu
    rw [check_append, check_of_marks hw]
    show check (before ++ w ++ [.opening b]) ((b, locationBehind (before ++ w)) :: opened) _ = _
    rw [check_append, ihx hx]
    show check _ _ _ = _
    rw [check_append, check_of_marks hw']
    show check _ _ (.closing b :: uy) = _
    rw [check, Atom.check, if_pos rfl]
    exact ihy hy

/-! ## What the checker has on its stack -/

theorem Atom.exists_of_check_closing {here : Location}
    (h : (Atom.closing c).check here opened = .ok opened') :
    ∃ openedAt, opened = (c, openedAt) :: opened' := by
  cases opened with
  | nil => cases h
  | cons top outer =>
    obtain ⟨b, openedAt⟩ := top
    by_cases hb : b = c
    · rw [check, if_pos hb] at h
      cases h
      exact ⟨openedAt, by rw [hb]⟩
    · rw [check, if_neg hb] at h
      cases h

/-- What is open behind atoms: nothing if their brackets form a Dyck word; otherwise the innermost
bracket stands where it was opened, with a Dyck word behind it. -/
theorem cases_of_check (h : check [] [] u = .ok opened) :
    opened = [] ∧ Dyck (marks u) ∨ ∃ outer b inner opened', u = outer ++ .opening b :: inner ∧
      opened = (b, locationBehind outer) :: opened' ∧ Dyck (marks inner) ∧
      check [] [] outer = .ok opened' := by
  induction hn : u.length using Nat.strong_induction_on generalizing u opened with
  | _ n ih =>
    subst hn
    obtain rfl | ⟨u, a, rfl⟩ := u.eq_nil_or_concat'
    · cases h
      exact Or.inl ⟨rfl, .nil⟩
    obtain ⟨opened₁, hu, -⟩ := check_of_append h
    have hlast := (check_concat a hu).symm.trans h
    have hcases := ih u.length (by simp) hu rfl
    rw [List.nil_append] at hlast
    rcases hmark : a.mark? with _ | m
    · rw [Atom.check_of_mark? hmark] at hlast
      obtain rfl := Except.ok.inj hlast
      have hone : marks [a] = [] := List.filterMap_eq_nil_iff.2 (by simpa using hmark)
      obtain ⟨hnil, hdyck⟩ | ⟨outer, b, inner, opened', rfl, hopened, hdyck, houter⟩ := hcases
      · exact Or.inl ⟨hnil, by rwa [marks_append, hone, List.append_nil]⟩
      · refine Or.inr ⟨outer, b, inner ++ [a], opened', by simp, hopened, ?_, houter⟩
        rwa [marks_append, hone, List.append_nil]
    obtain rfl := Atom.eq_ofMark hmark
    cases m with
    | opening b =>
      obtain rfl := Except.ok.inj hlast
      exact Or.inr ⟨u, b, [], opened₁, rfl, rfl, .nil, hu⟩
    | closing c =>
      obtain ⟨openedAt, rfl⟩ := Atom.exists_of_check_closing hlast
      obtain ⟨hnil, -⟩ | ⟨outer, b, inner, opened', rfl, hopened, hdyck, houter⟩ := hcases
      · cases hnil
      cases hopened
      have hgroup : Dyck (marks (.opening c :: (inner ++ [.closing c]))) := by
        rw [show marks _ = .opening c :: marks (inner ++ [.closing c]) from rfl, marks_append]
        exact .nest c hdyck .nil
      obtain ⟨hnil, houter⟩ | ⟨outer', b, inner', opened', rfl, hopened, hdyck', houter⟩ :=
        ih outer.length (by simp) houter rfl
      · refine Or.inl ⟨hnil, ?_⟩
        rw [List.append_assoc, List.cons_append, marks_append]
        exact houter.append hgroup
      · refine Or.inr ⟨outer', b, inner' ++ .opening c :: (inner ++ [.closing c]), opened',
          by simp [Atom.ofMark], hopened, ?_, houter⟩
        rw [marks_append]
        exact hdyck'.append hgroup

/-- An open bracket with a Dyck word behind it is the innermost one. -/
theorem check_innermost {outer : List Atom} (h : check [] [] (outer ++ .opening b :: inner) =
    .ok opened) (hinner : Dyck (marks inner)) :
    ∃ opened', check [] [] (outer ++ .opening b :: inner) =
      .ok ((b, locationBehind outer) :: opened') := by
  obtain ⟨opened', houter, -⟩ := check_of_append h
  refine ⟨opened', ?_⟩
  rw [check_append, houter]
  show check (outer ++ [.opening b]) ((b, locationBehind outer) :: opened') inner = _
  exact hinner.check_eq rfl

/-- The checker accepts atoms exactly if their brackets form a Dyck word. -/
theorem check_eq_nil_iff : check [] [] u = .ok [] ↔ Dyck (marks u) := by
  refine ⟨fun h => ?_, fun h => h.check_eq rfl⟩
  obtain ⟨-, hdyck⟩ | ⟨_, _, _, _, -, hopened, -⟩ := cases_of_check h
  · exact hdyck
  · cases hopened

/-- Closing what is open makes a Dyck word. -/
theorem check_closings (h : check before [] u = .ok opened) :
    check before [] (u ++ opened.map fun top => .closing top.1) = .ok [] := by
  induction opened generalizing u with
  | nil => simpa using h
  | cons top opened ih =>
    have hnext := check_concat (.closing top.1) h
    rw [Atom.check, if_pos rfl] at hnext
    have := ih hnext
    rwa [List.append_assoc] at this

/-- The checker comes through atoms exactly if a Dyck word can begin with their brackets. -/
theorem viable_iff : Viable (marks u) ↔ ∃ opened, check [] [] u = .ok opened := by
  constructor
  · rintro ⟨more, hmore⟩
    have hall : marks (more.map Atom.ofMark) = more := by
      rw [marks, List.filterMap_map, show Atom.mark? ∘ Atom.ofMark = some from
        funext Atom.mark?_ofMark, List.filterMap_some]
    have hcheck : check [] [] (u ++ more.map Atom.ofMark) = .ok [] :=
      hmore.check_eq (by rw [marks_append, hall])
    obtain ⟨opened, hu, -⟩ := check_of_append hcheck
    exact ⟨opened, hu⟩
  · rintro ⟨opened, h⟩
    have hdyck := check_eq_nil_iff.1 (check_closings h)
    rw [marks_append] at hdyck
    exact ⟨_, hdyck⟩

end

/-! ## The run does what the checker does -/

/-- The stacks in a print tag in which brackets are open. -/
def inPrint (opened : List (Bracket × Location)) : Stacks :=
  (⟨.data, [], opened.map fun top => ⟨[top.1.opening], [top.1.closing], top.2⟩⟩ : Stacks).enter
    .print

/-- The run goes on from `s` as the checker has found: over the pieces `ps` to what is then open, or
to a step that fails with the checker's error. -/
def Agrees (s : State) (ps : List Piece) : Except SyntaxError (List (Bracket × Location)) → Prop
  | .ok opened => ∃ s', Lexicon.standard.Leads s ps s' ∧ s'.toStacks = inPrint opened
  | .error e => ∃ qs s', Lexicon.standard.Leads s qs s' ∧ s'.rest ≠ [] ∧
      s'.step Lexicon.standard = .error e

theorem Agrees.trans {s s₁ : State} {ps qs : List Piece}
    {result : Except SyntaxError (List (Bracket × Location))}
    (h : Lexicon.standard.Leads s ps s₁) (h' : Agrees s₁ qs result) :
    Agrees s (ps ++ qs) result := by
  cases result with
  | ok opened =>
    obtain ⟨s', hleads, hstacks⟩ := h'
    exact ⟨s', h.trans hleads, hstacks⟩
  | error e =>
    obtain ⟨rs, s', hleads, hfails⟩ := h'
    exact ⟨_, s', h.trans hleads, hfails⟩

section

variable {s : State} {opened : List (Bracket × Location)} {gap rest : Text} {c : Bracket}

/-- Where a bracket closes, the tag does not end if something is open. -/
theorem expects_closing (hst : s.toStacks = inPrint opened) (hgap : gap.all isBlank = true)
    (hrest : s.rest = gap ++ c.closing :: rest)
    (hend : opened = [] → Lexicon.standard.printEnd? (c.closing :: rest) = none) :
    s.Expects Lexicon.standard := by
  have hmode : s.mode = .print := congrArg Stacks.mode hst
  have hscopes : s.scopes = (inPrint opened).scopes := congrArg Stacks.scopes hst
  cases opened with
  | nil =>
    rw [State.Expects, hmode]
    intro _
    rw [hrest, dropWhile_isBlank_append hgap c.isBlank_closing]
    exact hend rfl
  | cons top outer =>
    exact State.expects_of_opener (hmode ▸ ⟨by decide, by decide⟩)
      (congrArg List.head? hscopes) top.1.opening_ne

/-- A closing bracket is taken as by the checker. -/
theorem agrees_closing (hst : s.toStacks = inPrint opened) (hgap : gap.all isBlank = true)
    (hrest : s.rest = gap ++ c.closing :: rest)
    (hend : opened = [] → Lexicon.standard.printEnd? (c.closing :: rest) = none) :
    Agrees s (unlessEmpty .whitespace gap ++ [⟨.punctuation, [c.closing]⟩])
      ((Atom.closing c).check s.emitBlanks.position.toLocation opened) := by
  have hexp := expects_closing hst hgap hrest hend
  have hl := Lexicon.lexemeAt?_closing c.mem_brackets rest
  have hne : s.rest ≠ [] := by
    rw [hrest]
    exact List.append_ne_nil_of_right_ne_nil _ (List.cons_ne_nil _ _)
  have hscopes : s.emitBlanks.scopes = (inPrint opened).scopes :=
    congrArg Stacks.scopes ((State.toStacks_emitBlanks s).trans hst)
  have hstep := hexp.step_eq_takeLexeme hgap c.isBlank_closing hrest hl
  rw [State.takeLexeme, State.closeBracket, hscopes] at hstep
  cases opened with
  | nil => exact ⟨[], s, .refl s, hne, hstep⟩
  | cons top outer =>
    obtain ⟨b, openedAt⟩ := top
    by_cases hb : b = c
    · subst hb
      rw [Atom.check, if_pos rfl]
      have hscope : s.toStacks.scopes.head? = some ⟨[b.opening], [b.closing], openedAt⟩ := by
        rw [hst]
        rfl
      obtain ⟨s', hleads, hstacks⟩ :=
        hexp.exists_leads hgap b.isBlank_closing hrest hl (.closing hscope rfl)
      exact ⟨s', hleads, by rw [hstacks, hst]; rfl⟩
    · have hcloser : [b.closing] ≠ [c.closing] := by
        revert hb
        cases b <;> cases c <;> decide
      rw [Atom.check, if_neg hb]
      exact ⟨[], s, .refl s, hne, hstep.trans (if_neg hcloser)⟩

theorem Atom.exists_text_eq (a : Atom) : ∃ d t, a.text = d :: t ∧ isBlank d = false := by
  cases a with
  | name n =>
    obtain ⟨d, t, ht, hd⟩ := n.exists_text_eq
    exact ⟨d, t, ht, (head_of_isWordChar hd).1⟩
  | number n =>
    obtain ⟨d, t, ht, hd⟩ := n.exists_text_eq
    exact ⟨d, t, ht, (head_of_isWordChar hd).1⟩
  | opening b => exact ⟨b.opening, [], rfl, by cases b <;> decide⟩
  | closing b => exact ⟨b.closing, [], rfl, b.isBlank_closing⟩

/-- An atom is taken as by the checker. -/
theorem Atom.agrees (a : Atom) (hst : s.toStacks = inPrint opened)
    (hgap : gap.all isBlank = true) (hrest : s.rest = gap ++ (a.text ++ ' ' :: rest)) :
    Agrees s (unlessEmpty .whitespace gap ++ [a.piece])
      (a.check s.emitBlanks.position.toLocation opened) := by
  have hmode : s.mode.IsExpression := by
    rw [show s.mode = .print from congrArg Stacks.mode hst]
    exact ⟨by decide, by decide⟩
  have hstop : AtBoundary (' ' :: rest) := ⟨' ', rest, rfl, by decide⟩
  cases a with
  | name n =>
    obtain ⟨s', hleads, hstacks⟩ := exists_leads_plain n.exists_text_eq
      (Lexicon.lexemeAt?_word n.letter n.word n.free hstop) hmode hgap hrest
    exact ⟨s', hleads, hstacks.trans hst⟩
  | number n =>
    have hdigits := n.digits
    rw [List.all_append, Bool.and_eq_true] at hdigits
    obtain ⟨s', hleads, hstacks⟩ := exists_leads_plain n.exists_text_eq
      (Lexicon.lexemeAt?_number n.nonempty hdigits.1 hdigits.2 hstop) hmode hgap hrest
    exact ⟨s', hleads, hstacks.trans hst⟩
  | opening b =>
    have hc : isBlank b.opening = false ∧ b.opening ∉ tagEndChars := by cases b <;> decide
    obtain ⟨s', hleads, hstacks⟩ := State.exists_leads_lexeme hmode hgap hc hrest
      (Lexicon.lexemeAt?_opening b.mem_brackets _) .opening
    exact ⟨s', hleads, by rw [hstacks, hst]; rfl⟩
  | closing c => exact agrees_closing hst hgap hrest fun _ => by cases c <;> rfl

end

/-- The pieces of atoms with a space before each. -/
def spacedPieces (atoms : List Atom) : List Piece := atoms.flatMap fun a => [space, a.piece]

@[simp] theorem texts_spacedPieces (atoms : List Atom) :
    texts (spacedPieces atoms) = spaced atoms := by
  induction atoms with
  | nil => rfl
  | cons a atoms ih =>
    rw [spaced_cons, ← ih]
    simp [spacedPieces, space]

section

variable {source rest : Text} {s : State} {ps : List Piece} {ls : List Layer}
  {before atoms : List Atom} {opened : List (Bracket × Location)}

/-- The location behind the space is that of the text in front of it. -/
theorem location_emitBlanks (hpath : Lexicon.standard.Path source s ps ls)
    (hps : texts ps = ['{', '{'] ++ spaced before) {a : Atom}
    (hrest : s.rest = [' '] ++ (a.text ++ rest)) :
    s.emitBlanks.position.toLocation = locationBehind before := by
  obtain ⟨d, t, ht, hd⟩ := a.exists_text_eq
  have hblanks : blanks s.rest = [' '] := by
    rw [hrest, ht]
    exact blanks_append rfl hd
  have hcut : CleanCut (texts ps) [' '] := cleanCut_of_head? (by decide)
  rw [(State.Reads.emitBlanks s).position_eq, hblanks]
  show s.position.toLocation.advance [' '] = _
  rw [hpath.location_eq Lexicon.clean_standard, Location.advance_eq_walk,
    ← Location.walk_append _ hcut, hps, locationBehind]

/-- A row of atoms is taken as by the checker. -/
theorem agrees_spaced (hpath : Lexicon.standard.Path source s ps ls)
    (hps : texts ps = ['{', '{'] ++ spaced before) (hst : s.toStacks = inPrint opened)
    (hrest : s.rest = spaced atoms ++ ' ' :: rest) :
    Agrees s (spacedPieces atoms) (check before opened atoms) := by
  induction atoms generalizing s ps ls before opened with
  | nil => exact ⟨s, .refl s, hst⟩
  | cons a atoms ih =>
    obtain ⟨t, ht⟩ : ∃ t, spaced atoms ++ ' ' :: rest = ' ' :: t := by
      cases atoms with
      | nil => exact ⟨rest, rfl⟩
      | cons b atoms => exact ⟨_, by rw [spaced_cons]; rfl⟩
    have hrest' : s.rest = [' '] ++ (a.text ++ ' ' :: t) := by
      rw [hrest, spaced_cons, ← ht]
      simp
    have hatom := a.agrees hst rfl hrest'
    rw [location_emitBlanks hpath hps hrest'] at hatom
    rw [check]
    cases hcheck : a.check (locationBehind before) opened with
    | error e =>
      rw [hcheck] at hatom
      exact hatom
    | ok opened' =>
      rw [hcheck] at hatom
      obtain ⟨s₁, hleads, hst₁⟩ := hatom
      obtain ⟨ls', hpath'⟩ :=
        hpath.leads Dialect.defect?_standard Lexicon.closerOf?_standard hleads
      have htexts : texts (unlessEmpty .whitespace [' '] ++ [a.piece]) = spaced [a] := by
        simp [spaced]
      refine Agrees.trans hleads (ih hpath' ?_ hst₁ ?_)
      · rw [texts_append, hps, htexts, spaced_append, List.append_assoc]
      · refine hleads.reads.rest_of_eq ?_
        rw [htexts, hrest, ← List.append_assoc, ← spaced_append]
        rfl

/-! ## The whole tag -/

/-- The steps to where the checker has an error have it for the template. -/
theorem Agrees.tokens_eq_error
    (hleads : Lexicon.standard.Leads (.start Dialect.standard source) ps s) {qs : List Piece}
    {e : SyntaxError} (h : Agrees s qs (.error e)) :
    Lexicon.standard.tokens source = .error e := by
  obtain ⟨rs, s', hleads', hne, hstep⟩ := h
  exact Lexicon.tokens_eq_error Dialect.defect?_standard Lexicon.closerOf?_standard
    Lexicon.clean_standard.visible (hleads.trans hleads') hne hstep

/-- Where brackets are open, the two braces at the end of the tag are not taken for its end, and
the template has an error. -/
theorem exists_error_of_opened
    (hleads : Lexicon.standard.Leads (.start Dialect.standard source) ps s)
    (hst : s.toStacks = inPrint opened) (hopened : opened ≠ []) {gap : Text}
    (hgap : gap.all isBlank = true) (hrest : s.rest = gap ++ ['}', '}']) :
    ∃ e, Lexicon.standard.tokens source = .error e := by
  have hfirst := agrees_closing (c := .curly) hst hgap hrest fun hnil => absurd hnil hopened
  cases hcheck : (Atom.closing .curly).check s.emitBlanks.position.toLocation opened with
  | error e =>
    rw [hcheck] at hfirst
    exact ⟨e, hfirst.tokens_eq_error hleads⟩
  | ok opened₁ =>
    rw [hcheck] at hfirst
    obtain ⟨s₁, hleads₁, hst₁⟩ := hfirst
    have hrest₁ : s₁.rest = [] ++ ['}'] :=
      hleads₁.reads.rest_of_eq (by rw [texts_append, texts_unlessEmpty, hrest]; simp; rfl)
    have hsecond := agrees_closing (c := .curly) hst₁ rfl hrest₁ fun _ => rfl
    cases hcheck₁ : (Atom.closing .curly).check s₁.emitBlanks.position.toLocation opened₁ with
    | error e =>
      rw [hcheck₁] at hsecond
      exact ⟨e, hsecond.tokens_eq_error (hleads.trans hleads₁)⟩
    | ok opened₂ =>
      -- both braces close brackets, and then the template ends in the tag
      rw [hcheck₁] at hsecond
      obtain ⟨s₂, hleads₂, hst₂⟩ := hsecond
      have hfinish := Lexicon.tokens_eq_finish Dialect.defect?_standard
        Lexicon.closerOf?_standard Lexicon.clean_standard.visible
        (hleads.trans (hleads₁.trans hleads₂)) (hleads₂.reads.rest_of_eq (by rw [hrest₁]; rfl))
      rw [State.finish, show s₂.mode = .print from congrArg Stacks.mode hst₂] at hfinish
      exact ⟨_, hfinish⟩

end

/-- A print tag around atoms has tokens if the checker accepts the atoms, the checker's error if it
has one, and some error if it leaves a bracket open. -/
theorem tokens_printTag (atoms : List Atom) :
    match check [] [] atoms with
    | .ok [] => ∃ tokens, Lexicon.standard.tokens (printTag atoms) = .ok tokens
    | .ok (_ :: _) => ∃ e, Lexicon.standard.tokens (printTag atoms) = .error e
    | .error e => Lexicon.standard.tokens (printTag atoms) = .error e := by
  have hd : Lexicon.standard.defect? = none := Dialect.defect?_standard
  have hm := Lexicon.closerOf?_standard
  obtain ⟨gap, hgap, hsource⟩ := exists_gap atoms
  obtain ⟨t, ht⟩ : ∃ t, spaced atoms ++ (' ' :: gap ++ ['}', '}']) = ' ' :: t := by
    cases atoms with
    | nil => exact ⟨_, rfl⟩
    | cons a atoms => exact ⟨_, by rw [spaced_cons]; rfl⟩
  obtain ⟨s, hstart, hrest, hst⟩ :=
    State.exists_leads_printStart (hsource.trans (congrArg _ ht))
  rw [← ht] at hrest
  obtain ⟨ls, hpath⟩ := Lexicon.Path.start.leads hd hm hstart
  have hatoms : Agrees s (spacedPieces atoms) (check [] [] atoms) :=
    agrees_spaced hpath rfl hst hrest
  cases hcheck : check [] [] atoms with
  | error e =>
    rw [hcheck] at hatoms
    exact hatoms.tokens_eq_error hstart
  | ok opened =>
    rw [hcheck] at hatoms
    obtain ⟨s', hleads, hst'⟩ := hatoms
    have hrest' := hleads.reads.rest_of_eq (by rw [texts_spacedPieces]; exact hrest)
    have hgap' : (' ' :: gap).all isBlank = true := hgap
    cases opened with
    | cons top outer =>
      exact exists_error_of_opened (hstart.trans hleads) hst' (List.cons_ne_nil _ _) hgap' hrest'
    | nil =>
      have hclosing : s'.rest = ' ' :: gap ++ (Lexicon.standard.print.closing ++ []) := hrest'
      obtain ⟨s'', hend, hst''⟩ := State.exists_leads_printEnd
        (congrArg Stacks.mode hst') (congrArg Stacks.scopes hst') hgap' hclosing
      refine ⟨_, Lexicon.tokens_of_leads hd hm Lexicon.clean_standard.visible
        (hstart.trans (hleads.trans hend)) ?_ ?_⟩
      · exact hend.reads.rest_of_eq (by rw [hrest']; simp; rfl)
      · rw [hst'', hst']
        rfl

end Expression

open Expression in
/-- A print tag around atoms has tokens exactly if the brackets among them form a Dyck word. If a
closing bracket is the first behind which no Dyck word can go on, the error is at that bracket: the
bracket is unexpected if what stands before it is a Dyck word, and otherwise the innermost open
bracket is unclosed, which has a Dyck word between it and the closing one. -/
theorem tokenize_printTag (atoms : List Atom) :
    ((∃ stream, tokenize (printTag atoms) = .ok stream) ↔ Dyck (marks atoms)) ∧
      ∀ before c after, atoms = before ++ .closing c :: after → Viable (marks before) →
        ¬ Viable (marks (before ++ [.closing c])) →
        (Dyck (marks before) → tokenize (printTag atoms) =
          .error ⟨.unexpectedClosingBracket c.closing, locationBehind before⟩) ∧
        (∀ outer b inner, before = outer ++ .opening b :: inner → Dyck (marks inner) →
          tokenize (printTag atoms) = .error ⟨.unclosedBracket [b.opening] (locationBehind outer),
            locationBehind before⟩) ∧
        (Dyck (marks before) ∨
          ∃ outer b inner, before = outer ++ .opening b :: inner ∧ Dyck (marks inner)) := by
  have htokens := tokens_printTag atoms
  constructor
  · rw [← check_eq_nil_iff]
    constructor
    · rintro ⟨stream, hstream⟩
      have hok := (Lexer.tokenize_eq_ok_iff.1 hstream).1
      split at htokens
      · assumption
      · obtain ⟨e, he⟩ := htokens
        cases hok.symm.trans he
      · cases hok.symm.trans htokens
    · intro hcheck
      rw [hcheck] at htokens
      obtain ⟨tokens, htokens⟩ := htokens
      obtain ⟨stream, hstream, -⟩ := Lexer.exists_tokenize (l := .standard) htokens
      exact ⟨stream, hstream⟩
  · rintro before c after rfl hbefore hfirst
    obtain ⟨opened, hopened⟩ := viable_iff.1 hbefore
    have herror {e : SyntaxError} (he : check [] [] (before ++ [.closing c]) = .error e) :
        tokenize (printTag (before ++ .closing c :: after)) = .error e := by
      have hall := check_eq_error (v := after) he
      rw [List.append_assoc, List.singleton_append] at hall
      rw [hall] at htokens
      exact Lexer.tokenize_eq_error_iff.2 htokens
    refine ⟨fun hdyck => ?_, ?_, ?_⟩
    · exact herror (check_concat (.closing c) (hdyck.check_eq rfl))
    · rintro outer b inner rfl hinner
      obtain ⟨opened', htop⟩ := check_innermost hopened hinner
      have hb : b ≠ c := by
        rintro rfl
        exact hfirst (viable_iff.2 ⟨_, (check_concat _ htop).trans (if_pos rfl)⟩)
      exact herror ((check_concat _ htop).trans (if_neg hb))
    · obtain ⟨-, hdyck⟩ | ⟨outer, b, inner, -, hsplit, -, hinner, -⟩ := cases_of_check hopened
      · exact Or.inl hdyck
      · exact Or.inr ⟨outer, b, inner, hsplit, hinner⟩

open Expression in
/-- A square bracket that is closed in a round one, and a brace that closes nothing. -/
theorem tokenize_printTag_unclosed :
    Viable (marks [.opening .round, .opening .square, .closing .square]) ∧
      ¬ Viable (marks [.opening .round, .opening .square, .closing .square, .closing .curly]) ∧
      Dyck (marks [.opening .square, .closing .square]) ∧
      tokenize ['{', '{', ' ', '(', ' ', '[', ' ', ']', ' ', '}', ' ', '}', '}'] =
        .error ⟨.unclosedBracket ['('] ⟨1, 4⟩, ⟨1, 10⟩⟩ := by
  have hviable : Viable (marks [.opening .round, .opening .square, .closing .square]) :=
    viable_iff.2 ⟨_, rfl⟩
  have hnot :
      ¬ Viable (marks [.opening .round, .opening .square, .closing .square, .closing .curly]) := by
    rw [viable_iff]
    rintro ⟨opened, h⟩
    cases h
  have hinner : Dyck (marks [.opening .square, .closing .square]) := .nest .square .nil .nil
  exact ⟨hviable, hnot, hinner, ((tokenize_printTag _).2
    [.opening .round, .opening .square, .closing .square] .curly [] rfl hviable hnot).2.1
    [] .round [.opening .square, .closing .square] rfl hinner⟩

end TemplateTokens
