import TemplateTokens.Proofs.Lexer.Move

/-!
# One stack for two

A run keeps two stacks, the parts of the template around the present one and the open scopes.
While each string and each interpolation is closed together with the scope that was opened with
it, the two are views of one stack of layers. A step then opens a layer, closes the innermost one
or leaves all of them as they are. There is one exception: a bracket that is also the beginning of
an interpolation can be closed in place of the interpolation around it.

Results:

* `Layered.eq_nil_of_mode_eq_data`, `Layered.exists_quote`, `Layered.exists_cons_of_isExpression`:
  the mode tells which layer is the innermost.
* `Lexicon.Shift.layered`: a shift leaves each layer where it may stand.
* `Lexicon.Move.layers`: a step in layers shifts the layers, leaves their base or slips.
-/

namespace TemplateTokens

open Piece

/-! ## Layers -/

/-- A tag, a bracket, a string or an interpolation that is open. -/
inductive Layer where
  | tag (tag : Tag)
  | group (scope : Scope)
  | quote (openedAt : Location)
  | interpolation (openedAt : Location)
deriving DecidableEq, Repr

/-- The scope of a double-quoted string. -/
def Scope.quote (openedAt : Location) : Scope := ⟨['"'], ['"'], openedAt⟩

/-- The scope of an interpolation. -/
def Scope.interpolation (d : Dialect) (openedAt : Location) : Scope :=
  ⟨d.interpolation.opening, d.interpolation.closing, openedAt⟩

/-- A bracket with the one that closes it. -/
def Scope.IsGroup (scope : Scope) : Prop := closerOf? scope.opener = some scope.closer

/-- Opens a layer. -/
def Layer.onto (d : Dialect) : Layer → Stacks → Stacks
  | .tag t, st => st.enter t.mode
  | .group scope, st => st.push scope
  | .quote openedAt, st => (st.push (.quote openedAt)).enter .string
  | .interpolation openedAt, st => (st.push (.interpolation d openedAt)).enter .interpolation

/-- The two stacks that layers on a base amount to, innermost first. -/
def Stacks.under (d : Dialect) (base : Stacks) (ls : List Layer) : Stacks :=
  ls.foldr (Layer.onto d) base

@[simp] theorem Stacks.under_nil (d : Dialect) (base : Stacks) : base.under d [] = base := rfl

@[simp] theorem Stacks.under_cons (d : Dialect) (base : Stacks) (l : Layer) (ls : List Layer) :
    base.under d (l :: ls) = l.onto d (base.under d ls) := rfl

/-- Layers on a base each of which stands where it may be opened. -/
inductive Layered (d : Dialect) (base : Stacks) : List Layer → Prop
  | nil : Layered d base []
  | tag {t : Tag} {ls : List Layer} : t ≠ .comment → (base.under d ls).mode = .data →
      Layered d base ls → Layered d base (.tag t :: ls)
  | group {scope : Scope} {ls : List Layer} : scope.IsGroup →
      (base.under d ls).mode.IsExpression → Layered d base ls → Layered d base (.group scope :: ls)
  | quote {openedAt : Location} {ls : List Layer} : (base.under d ls).mode.IsExpression →
      Layered d base ls → Layered d base (.quote openedAt :: ls)
  | interpolation {openedAt : Location} {ls : List Layer} : (base.under d ls).mode = .string →
      Layered d base ls → Layered d base (.interpolation openedAt :: ls)

/-- What layers may stand on: text in which no scope is open, or a string. -/
def Stacks.IsBase (base : Stacks) : Prop :=
  base.mode = .data ∧ base.scopes = [] ∨ base.mode = .string

namespace Layered

variable {d : Dialect} {base : Stacks} {ls : List Layer}

/-! ## The mode tells the innermost layer -/

theorem eq_nil_of_mode_eq_data (h : Layered d base ls) (hmode : (base.under d ls).mode = .data) :
    ls = [] := by
  cases h with
  | nil => rfl
  | tag ht => exact absurd hmode (Tag.mode_isExpression ht).1
  | group _ hexp => exact absurd hmode hexp.1
  | quote => cases hmode
  | interpolation => cases hmode

theorem exists_quote (h : Layered d base ls) (hmode : (base.under d ls).mode = .string) :
    ls = [] ∨ ∃ openedAt ls', ls = .quote openedAt :: ls' := by
  cases h with
  | nil => exact Or.inl rfl
  | tag ht => exact absurd hmode (Tag.mode_isExpression ht).2
  | group _ hexp => exact absurd hmode hexp.2
  | quote => exact Or.inr ⟨_, _, rfl⟩
  | interpolation => cases hmode

/-- Inside an expression no base and no string is innermost. -/
theorem exists_cons_of_isExpression (h : Layered d base ls) (hb : base.IsBase)
    (hmode : (base.under d ls).mode.IsExpression) :
    (∃ t, ls = [.tag t] ∧ base.mode = .data) ∨ (∃ scope ls', ls = .group scope :: ls') ∨
      ∃ openedAt ls', ls = .interpolation openedAt :: ls' := by
  cases h with
  | nil =>
    rcases hb with ⟨hdata, -⟩ | hstring
    · exact absurd hdata hmode.1
    · exact absurd hstring hmode.2
  | tag _ hdata h =>
    have hnil := h.eq_nil_of_mode_eq_data hdata
    subst hnil
    exact Or.inl ⟨_, rfl, hdata⟩
  | group => exact Or.inr (Or.inl ⟨_, _, rfl⟩)
  | quote => exact absurd rfl hmode.2
  | interpolation => exact Or.inr (Or.inr ⟨_, _, rfl⟩)

end Layered

/-! ## Shifts -/

/-- A piece of an expression that neither opens nor closes anything. -/
def Lexeme.IsWhole : Lexeme → Prop
  | .plain _ _ => True
  | .quoted _ => True
  | _ => False

/-- What a step can do to the layers where `rest` remains of the template, with the pieces it
reads. -/
inductive Lexicon.Shift (lx : Lexicon) (base : Stacks) (rest : Text) :
    List Layer → List Piece → List Layer → Prop
  | text {ls : List Layer} : (base.under lx.toDialect ls).mode = .data →
      Shift lx base rest ls [⟨.text, rest⟩] ls
  | comment {ls : List Layer} {before blank : Text} {t : TagStart} {e : CommentEnd} :
      (base.under lx.toDialect ls).mode = .data → t.tag = .comment →
      Shift lx base rest ls (unlessEmpty .text before ++ (t.pieces lx.toDialect ++
        (unlessEmpty .whitespace blank ++ e.pieces lx.toDialect))) ls
  | verbatim {ls : List Layer} {before body : Text} {opening closing : VerbatimTag} :
      (base.under lx.toDialect ls).mode = .data → opening.word = "verbatim".toList →
      closing.word = "endverbatim".toList →
      Shift lx base rest ls (unlessEmpty .text before ++ (opening.pieces lx.toDialect ++
        (unlessEmpty .text body ++ closing.pieces lx.toDialect))) ls
  | openTag {ls : List Layer} {before : Text} {t : TagStart} :
      (base.under lx.toDialect ls).mode = .data → t.tag ≠ .comment →
      Shift lx base rest ls (unlessEmpty .text before ++ t.pieces lx.toDialect) (.tag t.tag :: ls)
  | closeTag {ls : List Layer} {t : Tag} {blank : Text} {e : TagEnd} :
      Shift lx base rest (.tag t :: ls)
        (unlessEmpty .whitespace blank ++ e.pieces lx.toDialect t.endKind) ls
  | blanks {ls : List Layer} : (base.under lx.toDialect ls).mode.IsExpression →
      Shift lx base rest ls [⟨.whitespace, rest⟩] ls
  | lexeme {ls : List Layer} {blank : Text} {l : Lexeme} :
      (base.under lx.toDialect ls).mode.IsExpression → lx.Starts (rest.dropWhile isBlank) l →
      l.IsWhole → Shift lx base rest ls (unlessEmpty .whitespace blank ++ l.pieces) ls
  | openGroup {ls : List Layer} {blank : Text} {scope : Scope} :
      (base.under lx.toDialect ls).mode.IsExpression → scope.IsGroup →
      Shift lx base rest ls (unlessEmpty .whitespace blank ++ [⟨.punctuation, scope.opener⟩])
        (.group scope :: ls)
  | closeGroup {ls : List Layer} {blank : Text} {scope : Scope} :
      Shift lx base rest (.group scope :: ls)
        (unlessEmpty .whitespace blank ++ [⟨.punctuation, scope.closer⟩]) ls
  | openQuote {ls : List Layer} {blank : Text} {openedAt : Location} :
      (base.under lx.toDialect ls).mode.IsExpression →
      Shift lx base rest ls (unlessEmpty .whitespace blank ++ [⟨.openingQuote, ['"']⟩])
        (.quote openedAt :: ls)
  | stringPiece {ls : List Layer} {t : Text} : (base.under lx.toDialect ls).mode = .string →
      Shift lx base rest ls [⟨.string, t⟩] ls
  | closeQuote {ls : List Layer} {openedAt : Location} :
      Shift lx base rest (.quote openedAt :: ls) [⟨.closingQuote, ['"']⟩] ls
  | openInterpolation {ls : List Layer} {blank : Text} {openedAt : Location} :
      (base.under lx.toDialect ls).mode = .string →
      Shift lx base rest ls
        ([⟨.interpolationStart, lx.interpolation.opening⟩] ++ unlessEmpty .whitespace blank)
        (.interpolation openedAt :: ls)
  | closeInterpolation {ls : List Layer} {blank : Text} {openedAt : Location} :
      Shift lx base rest (.interpolation openedAt :: ls)
        (unlessEmpty .whitespace blank ++ [⟨.interpolationEnd, lx.interpolation.closing⟩]) ls

section Shifts

variable {lx : Lexicon} {base st : Stacks} {s : State} {ls ls' : List Layer} {ps : List Piece}

theorem Lexicon.Shift.layered {rest : Text} (h : lx.Shift base rest ls ps ls')
    (hl : Layered lx.toDialect base ls) : Layered lx.toDialect base ls' := by
  cases h with
  | text => exact hl
  | comment => exact hl
  | verbatim => exact hl
  | openTag hmode htag => exact hl.tag htag hmode
  | closeTag =>
    cases hl with
    | tag _ _ hl => exact hl
  | blanks => exact hl
  | lexeme => exact hl
  | openGroup hmode hgroup => exact hl.group hgroup hmode
  | closeGroup =>
    cases hl with
    | group _ _ hl => exact hl
  | openQuote hmode => exact hl.quote hmode
  | stringPiece => exact hl
  | closeQuote =>
    cases hl with
    | quote _ hl => exact hl
  | openInterpolation hmode => exact hl.interpolation hmode
  | closeInterpolation =>
    cases hl with
    | interpolation _ hl => exact hl

/-- A piece of an expression shifts the layers. -/
theorem Lexicon.Starts.layers (hb : base.IsBase) (hl : Layered lx.toDialect base ls)
    (hs : s.toStacks = base.under lx.toDialect ls) (hexp : s.Expects lx) {l : Lexeme}
    (hstart : lx.Starts (s.rest.dropWhile isBlank) l) {here : Location}
    (hacts : l.Acts here s.toStacks st) :
    ∃ ls', lx.Shift base s.rest ls (unlessEmpty .whitespace (blanks s.rest) ++ l.pieces) ls' ∧
      st = base.under lx.toDialect ls' := by
  have hmode : (base.under lx.toDialect ls).mode.IsExpression := hs ▸ hexp.isExpression
  cases hacts with
  | plain => exact ⟨ls, .lexeme hmode hstart trivial, hs⟩
  | quoted => exact ⟨ls, .lexeme hmode hstart trivial, hs⟩
  | @opening bracket closer =>
    have hgroup : Scope.IsGroup ⟨bracket, closer, here⟩ := by
      generalize s.rest.dropWhile isBlank = t at hstart
      cases hstart with
      | opening h => exact h
    exact ⟨.group ⟨bracket, closer, here⟩ :: ls, .openGroup hmode hgroup, by rw [hs]; rfl⟩
  | quote => exact ⟨.quote here :: ls, .openQuote hmode, by rw [hs]; rfl⟩
  | @closing bracket scope hscope hcloser =>
    rw [hs] at hscope
    obtain ⟨t, rfl, hdata⟩ | ⟨group, ls', rfl⟩ | ⟨openedAt, ls', rfl⟩ :=
      hl.exists_cons_of_isExpression hb hmode
    · -- a tag holds no scope
      rcases hb with ⟨-, hnil⟩ | hstring
      · have hnone : base.scopes.head? = some scope := hscope
        rw [hnil] at hnone
        cases hnone
      · rw [hdata] at hstring
        cases hstring
    · obtain rfl : group = scope := Option.some.inj hscope
      refine ⟨ls', ?_, by rw [hs]; rfl⟩
      rw [Lexeme.pieces, ← hcloser]
      exact .closeGroup
    · -- the bracket would be the end of the interpolation, which comes first
      obtain rfl : Scope.interpolation lx.toDialect openedAt = scope := Option.some.inj hscope
      have hinter : s.mode = .interpolation := congrArg Stacks.mode hs
      unfold State.Expects at hexp
      rw [hinter] at hexp
      have hhead : s.scopes.head? = some (Scope.interpolation lx.toDialect openedAt) := by
        rw [show s.scopes = _ from congrArg Stacks.scopes hs]
        rfl
      have hnone := hexp (by rw [hhead]; rfl)
      have hclose : lx.interpolation.closing <+: s.rest.dropWhile isBlank := by
        rw [show lx.interpolation.closing = [bracket] from hcloser]
        simpa [Lexeme.pieces] using hstart.texts_isPrefix
      have := Dialect.interpolationClose?_isSome hclose
      rw [hnone] at this
      cases this

/-- A step in layers shifts the layers, or closes the string that is their base, or takes a bracket
for the interpolation around it. -/
theorem Lexicon.Move.layers (hb : base.IsBase) (hl : Layered lx.toDialect base ls)
    (hs : s.toStacks = base.under lx.toDialect ls) (h : lx.Move s ps st) :
    (∃ ls', lx.Shift base s.rest ls ps ls' ∧ st = base.under lx.toDialect ls') ∨
      (ls = [] ∧ base.mode = .string ∧ st = base.pop.leave) ∨
      ∃ scope ls', ls = .group scope :: ls' ∧ scope.opener = lx.interpolation.opening ∧
        s.mode = .interpolation ∧ (lx.interpolationClose? s.rest).isSome ∧
        st = (base.under lx.toDialect ls').leave := by
  have hmodes : s.mode = (base.under lx.toDialect ls).mode := congrArg Stacks.mode hs
  have hscopes : s.scopes = (base.under lx.toDialect ls).scopes := congrArg Stacks.scopes hs
  cases h with
  | text hmode _ => exact Or.inl ⟨ls, .text (hmodes ▸ hmode), hs⟩
  | comment hfind htag _ => exact Or.inl ⟨ls, .comment (hmodes ▸ hfind.mode_eq) htag, hs⟩
  | verbatim hfind _ hopen _ hclose =>
    obtain ⟨inside, -, htag⟩ := search?_sound hclose
    have hword := (Dialect.wordTag?_sound hopen).2
    have hword' := (Dialect.wordTag?_sound htag).2
    exact Or.inl ⟨ls, .verbatim (hmodes ▸ hfind.mode_eq) hword hword', hs⟩
  | openTag hfind htag _ =>
    exact Or.inl ⟨_, .openTag (hmodes ▸ hfind.mode_eq) htag, by rw [hs]; rfl⟩
  | closeTag hmode htag hnil _ =>
    have hexp : (base.under lx.toDialect ls).mode.IsExpression := by
      rw [← hmodes, hmode]
      exact Tag.mode_isExpression htag
    obtain ⟨t, rfl, -⟩ | ⟨group, ls', rfl⟩ | ⟨openedAt, ls', rfl⟩ :=
      hl.exists_cons_of_isExpression hb hexp
    · obtain rfl := Tag.eq_of_mode_eq htag (hmode.symm.trans hmodes)
      exact Or.inl ⟨[], .closeTag, by rw [hs]; rfl⟩
    · rw [hnil] at hscopes
      cases hscopes
    · rw [hnil] at hscopes
      cases hscopes
  | blanks hexp _ => exact Or.inl ⟨ls, .blanks (hs ▸ hexp.isExpression), hs⟩
  | lexeme hexp hstart hacts => exact Or.inl (hstart.layers hb hl hs hexp hacts)
  | openInterpolation hmode _ =>
    exact Or.inl ⟨_, .openInterpolation (hmodes ▸ hmode), by rw [hs]; rfl⟩
  | stringPiece hmode _ _ _ => exact Or.inl ⟨ls, .stringPiece (hmodes ▸ hmode), hs⟩
  | closeQuote hmode _ _ =>
    obtain rfl | ⟨openedAt, ls', rfl⟩ := hl.exists_quote (hmodes ▸ hmode)
    · exact Or.inr (Or.inl ⟨rfl, hmodes ▸ hmode, by rw [hs]; rfl⟩)
    · refine Or.inl ⟨ls', ?_, by rw [hs]; rfl⟩
      have hcloser : s.quoteCloser = ['"'] := by
        rw [State.quoteCloser, hscopes]
        rfl
      rw [hcloser]
      exact .closeQuote
  | closeInterpolation hmode hhead hopener hclose =>
    have hexp : (base.under lx.toDialect ls).mode.IsExpression := by
      rw [← hmodes, hmode]
      exact ⟨nofun, nofun⟩
    obtain ⟨t, rfl, -⟩ | ⟨group, ls', rfl⟩ | ⟨openedAt, ls', rfl⟩ :=
      hl.exists_cons_of_isExpression hb hexp
    · exact absurd (hmodes.symm.trans hmode) (Tag.mode_ne_interpolation t)
    · rw [hscopes] at hhead
      obtain rfl : group = _ := Option.some.inj hhead
      exact Or.inr (Or.inr ⟨group, ls', rfl, hopener, hmode, by rw [hclose]; rfl, by rw [hs]; rfl⟩)
    · exact Or.inl ⟨ls', .closeInterpolation, by rw [hs]; rfl⟩

end Shifts

end TemplateTokens
