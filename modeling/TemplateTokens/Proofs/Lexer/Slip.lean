import TemplateTokens.Proofs.Lexer.Layer

/-!
# After a slip

Where a bracket was closed in place of the interpolation around it, a string is left whose
innermost scope is not its quote. When that string is closed, a scope of another kind is closed
with it, and from then on more quotes are open than strings. No step makes up for that, so no run
goes through a slip and ends with nothing open.

Results:

* `Lexicon.Move.quotes_le`: no step closes a quote without the string that it belongs to.
* `Stacks.Lost.move`: stacks that are lost stay lost.
* `Layered.covered_of_slip`: a slip leaves a string with something else than its quote innermost.
* `Stacks.Lost.scopes_ne_nil`: stacks that are lost have a scope that is open.
-/

namespace TemplateTokens

open Piece

/-! ## Strings and quotes -/

/-- A scope that a double quote opened. -/
def Scope.IsQuote (scope : Scope) : Prop := scope.opener = ['"'] ∧ scope.closer = ['"']

instance (scope : Scope) : Decidable scope.IsQuote :=
  inferInstanceAs (Decidable (scope.opener = ['"'] ∧ scope.closer = ['"']))

theorem Scope.IsGroup.not_isQuote {scope : Scope} (h : scope.IsGroup) : ¬ scope.IsQuote := by
  rintro ⟨hopener, -⟩
  rw [Scope.IsGroup, hopener] at h
  cases h

namespace Stacks

/-- The number of strings around what is being read. -/
def strings (st : Stacks) : Nat := (st.mode :: st.outer).count .string

/-- The number of double quotes that are open. -/
def quotes (st : Stacks) : Nat := st.scopes.countP fun scope => decide scope.IsQuote

variable (st : Stacks)

theorem strings_enter_string : (st.enter .string).strings = st.strings + 1 := by
  simp [strings, enter]

theorem strings_enter_of_ne {m : Mode} (h : m ≠ .string) : (st.enter m).strings = st.strings := by
  simp [strings, enter, List.count_cons, h]

theorem strings_leave_of_string (h : st.mode = .string) : st.leave.strings + 1 = st.strings := by
  obtain ⟨mode, outer, scopes⟩ := st
  obtain rfl : mode = .string := h
  cases outer with
  | nil => simp [strings, leave]
  | cons m outer => simp [strings, leave]

theorem strings_leave_le : st.leave.strings ≤ st.strings := by
  rcases st with ⟨mode, _ | ⟨m, outer⟩, scopes⟩
  · simp [strings, leave]
  · simp only [strings, leave, List.headD_cons, List.tail_cons]
    exact List.count_le_count_cons

theorem quotes_push_of_isQuote {scope : Scope} (h : scope.IsQuote) :
    (st.push scope).quotes = st.quotes + 1 := by
  simp [quotes, push, h]

theorem quotes_le_quotes_push (scope : Scope) : st.quotes ≤ (st.push scope).quotes := by
  rw [quotes, quotes, push, List.countP_cons]
  exact Nat.le_add_right _ _

theorem quotes_le_quotes_pop : st.quotes ≤ st.pop.quotes + 1 := by
  rcases st with ⟨mode, outer, _ | ⟨scope, scopes⟩⟩
  · exact Nat.zero_le _
  · simp only [quotes, pop, List.countP_cons, List.tail_cons]
    split <;> omega

theorem quotes_pop {scope : Scope} (h : st.scopes.head? = some scope) (hq : ¬ scope.IsQuote) :
    st.pop.quotes = st.quotes := by
  rcases st with ⟨mode, outer, _ | ⟨scope', scopes⟩⟩
  · cases h
  · obtain rfl : scope' = scope := Option.some.inj h
    simp [quotes, pop, hq]

@[simp] theorem strings_push (scope : Scope) : (st.push scope).strings = st.strings := rfl

@[simp] theorem strings_pop_leave : st.pop.leave.strings = st.leave.strings := rfl

@[simp] theorem strings_pop : st.pop.strings = st.strings := rfl

@[simp] theorem quotes_enter (m : Mode) : (st.enter m).quotes = st.quotes := rfl

@[simp] theorem quotes_leave : st.leave.quotes = st.quotes := rfl

end Stacks

section

variable {lx : Lexicon} {s : State} {st : Stacks} {ps : List Piece}

theorem Lexicon.Starts.quotes_le {t : Text} {l : Lexeme} (hstart : lx.Starts t l) {here : Location}
    {before : Stacks} (hacts : l.Acts here before st) :
    st.strings + before.quotes ≤ st.quotes + before.strings := by
  cases hacts with
  | plain => omega
  | quoted => omega
  | @opening bracket closer =>
    have hpush := before.quotes_le_quotes_push ⟨bracket, closer, here⟩
    rw [Stacks.strings_push]
    omega
  | @closing bracket scope hscope hcloser =>
    have hq : ¬ scope.IsQuote := by
      rintro ⟨-, hquote⟩
      cases hstart with
      | closing h =>
        rw [← hcloser, hquote] at h
        cases h
    rw [Stacks.strings_pop, before.quotes_pop hscope hq]
    omega
  | quote =>
    rw [Stacks.strings_enter_string, Stacks.strings_push, Stacks.quotes_enter,
      before.quotes_push_of_isQuote ⟨rfl, rfl⟩]
    omega

/-- No step closes a quote without the string that it belongs to. -/
theorem Lexicon.Move.quotes_le (hm : lx.interpolation.opening ≠ ['"']) (h : lx.Move s ps st) :
    st.strings + s.toStacks.quotes ≤ st.quotes + s.toStacks.strings := by
  have hleave := s.toStacks.strings_leave_le
  cases h with
  | text => omega
  | comment => omega
  | verbatim => omega
  | openTag _ htag _ =>
    rw [s.toStacks.strings_enter_of_ne (Tag.mode_isExpression htag).2, Stacks.quotes_enter]
    omega
  | closeTag =>
    rw [Stacks.quotes_leave]
    omega
  | blanks => omega
  | lexeme _ hstart hacts => exact hstart.quotes_le hacts
  | openInterpolation =>
    have hpush := s.toStacks.quotes_le_quotes_push
      ⟨lx.interpolation.opening, lx.interpolation.closing, s.position.toLocation⟩
    rw [Stacks.strings_enter_of_ne _ (by decide), Stacks.strings_push, Stacks.quotes_enter]
    omega
  | stringPiece => omega
  | closeQuote hmode =>
    have hpop := s.toStacks.quotes_le_quotes_pop
    have hclosed := s.toStacks.strings_leave_of_string hmode
    rw [Stacks.strings_pop_leave, Stacks.quotes_leave]
    omega
  | closeInterpolation _ hhead hopener =>
    have hpop := s.toStacks.quotes_pop hhead fun hq => hm (hopener ▸ hq.1)
    rw [Stacks.strings_pop_leave, Stacks.quotes_leave]
    omega

/-! ## Parts inside of parts -/

/-- Parts of a template that stand inside one another. -/
inductive Mode.Nested : Mode → List Mode → Prop
  | data : Nested .data []
  | print : Nested .print [.data]
  | block : Nested .block [.data]
  | string {m : Mode} {outer : List Mode} : m.IsExpression → Nested m outer →
      Nested .string (m :: outer)
  | interpolation {outer : List Mode} : Nested .string outer →
      Nested .interpolation (.string :: outer)

/-- The parts of two stacks stand inside one another. -/
def Stacks.Nested (st : Stacks) : Prop := st.mode.Nested st.outer

namespace Stacks.Nested

theorem enter_tag (h : st.Nested) (hmode : st.mode = .data) {t : Tag} (ht : t ≠ .comment) :
    (st.enter t.mode).Nested := by
  obtain ⟨mode, outer, scopes⟩ := st
  obtain rfl : mode = .data := hmode
  cases h with
  | data =>
    cases t with
    | comment => exact absurd rfl ht
    | print => exact .print
    | block => exact .block

theorem enter_string (h : st.Nested) (hexp : st.mode.IsExpression) : (st.enter .string).Nested :=
  .string hexp h

theorem enter_interpolation (h : st.Nested) (hmode : st.mode = .string) :
    (st.enter .interpolation).Nested := by
  obtain ⟨mode, outer, scopes⟩ := st
  obtain rfl : mode = .string := hmode
  exact .interpolation h

theorem leave_tag (h : st.Nested) {t : Tag} (ht : t ≠ .comment) (hmode : st.mode = t.mode) :
    st.leave.Nested := by
  obtain ⟨mode, outer, scopes⟩ := st
  obtain rfl : mode = t.mode := hmode
  cases t with
  | comment => exact absurd rfl ht
  | print =>
    cases h with
    | print => exact .data
  | block =>
    cases h with
    | block => exact .data

theorem leave_string (h : st.Nested) (hmode : st.mode = .string) :
    st.leave.Nested ∧ st.leave.mode.IsExpression := by
  obtain ⟨mode, outer, scopes⟩ := st
  obtain rfl : mode = .string := hmode
  cases h with
  | string hexp h => exact ⟨h, hexp⟩

theorem leave_interpolation (h : st.Nested) (hmode : st.mode = .interpolation) :
    st.leave.Nested ∧ st.leave.mode = .string := by
  obtain ⟨mode, outer, scopes⟩ := st
  obtain rfl : mode = .interpolation := hmode
  cases h with
  | interpolation h => exact ⟨h, rfl⟩

end Stacks.Nested

theorem Lexicon.Move.nested (hn : s.toStacks.Nested) (h : lx.Move s ps st) : st.Nested := by
  cases h with
  | text => exact hn
  | comment => exact hn
  | verbatim => exact hn
  | openTag hfind htag _ => exact hn.enter_tag hfind.mode_eq htag
  | closeTag hmode htag _ _ => exact hn.leave_tag htag hmode
  | blanks => exact hn
  | lexeme hexp _ hacts =>
    cases hacts with
    | plain => exact hn
    | quoted => exact hn
    | opening => exact hn
    | closing => exact hn
    | quote => exact hn.enter_string hexp.isExpression
  | openInterpolation hmode => exact hn.enter_interpolation hmode
  | stringPiece => exact hn
  | closeQuote hmode => exact (hn.leave_string hmode).1
  | closeInterpolation hmode => exact (hn.leave_interpolation hmode).1

/-! ## Stacks that are lost -/

/-- Some layers stand on a string whose innermost scope is not its quote. -/
def Stacks.Covered (d : Dialect) (st : Stacks) : Prop :=
  ∃ base scope ls, base.mode = .string ∧ base.scopes.head? = some scope ∧ ¬ scope.IsQuote ∧
    Layered d base ls ∧ st = base.under d ls

/-- More quotes are open than strings, or will be when a string is closed. -/
structure Stacks.Lost (d : Dialect) (st : Stacks) : Prop where
  nested : st.Nested
  mode_ne_data : st.mode ≠ .data
  surplus : st.strings < st.quotes ∨ st.strings ≤ st.quotes ∧ st.Covered d

theorem Stacks.scopes_suffix_under (d : Dialect) (base : Stacks) (ls : List Layer) :
    base.scopes <:+ (base.under d ls).scopes := by
  induction ls with
  | nil => exact List.suffix_rfl
  | cons l ls ih =>
    cases l with
    | tag => exact ih
    | group scope => exact ih.trans (List.suffix_cons _ _)
    | quote openedAt => exact ih.trans (List.suffix_cons _ _)
    | interpolation openedAt => exact ih.trans (List.suffix_cons _ _)

/-- Stacks that are lost have a scope that is open. -/
theorem Stacks.Lost.scopes_ne_nil {d : Dialect} (h : st.Lost d) : st.scopes ≠ [] := by
  intro hnil
  rcases h.surplus with hlt | ⟨-, base, scope, ls, -, hhead, -, -, rfl⟩
  · have hzero : st.quotes = 0 := by rw [quotes, hnil, List.countP_nil]
    omega
  · have hbase := List.suffix_nil.1 (hnil ▸ base.scopes_suffix_under d ls)
    rw [hbase] at hhead
    cases hhead

theorem Layered.nested {d : Dialect} {base : Stacks} {ls : List Layer} (hb : base.Nested)
    (h : Layered d base ls) : (base.under d ls).Nested := by
  induction h with
  | nil => exact hb
  | tag ht hdata _ ih => exact ih.enter_tag hdata ht
  | group _ _ _ ih => exact ih
  | quote hexp _ ih => exact ih.enter_string hexp
  | interpolation hstring _ ih => exact ih.enter_interpolation hstring

/-- While every string is closed with its quote, there are no more strings than quotes. -/
theorem Layered.strings_le {d : Dialect} {base : Stacks} {ls : List Layer}
    (hb : base.strings ≤ base.quotes) (h : Layered d base ls) :
    (base.under d ls).strings ≤ (base.under d ls).quotes := by
  induction h with
  | nil => exact hb
  | tag ht _ _ ih =>
    rw [Stacks.under_cons, Layer.onto, Stacks.quotes_enter,
      Stacks.strings_enter_of_ne _ (Tag.mode_isExpression ht).2]
    exact ih
  | @group scope ls _ _ _ ih =>
    have hpush := (base.under d ls).quotes_le_quotes_push scope
    rw [Stacks.under_cons, Layer.onto, Stacks.strings_push]
    omega
  | quote _ _ ih =>
    rw [Stacks.under_cons, Layer.onto, Stacks.quotes_enter, Stacks.strings_enter_string,
      Stacks.strings_push, Stacks.quotes_push_of_isQuote _ ⟨rfl, rfl⟩]
    omega
  | @interpolation openedAt ls _ _ ih =>
    have hpush := (base.under d ls).quotes_le_quotes_push (.interpolation d openedAt)
    rw [Stacks.under_cons, Layer.onto, Stacks.quotes_enter,
      Stacks.strings_enter_of_ne _ (by decide), Stacks.strings_push]
    omega

/-- Behind a slip, the string around the interpolation has something else than its quote as its
innermost scope. -/
theorem Layered.covered_of_slip {d : Dialect} {base : Stacks} {ls : List Layer}
    (hm : d.interpolation.opening ≠ ['"']) (hb : base.IsBase) (h : Layered d base ls)
    (hn : (base.under d ls).Nested) (hmode : (base.under d ls).mode = .interpolation) :
    (base.under d ls).leave.Covered d := by
  have hexp : (base.under d ls).mode.IsExpression := by
    rw [hmode]
    exact ⟨nofun, nofun⟩
  have hstring := (hn.leave_interpolation hmode).2
  obtain ⟨t, rfl, -⟩ | ⟨group, ls', rfl⟩ | ⟨openedAt, ls', rfl⟩ :=
    h.exists_cons_of_isExpression hb hexp
  · exact absurd hmode (Tag.mode_ne_interpolation t)
  · refine ⟨_, group, [], hstring, rfl, ?_, .nil, rfl⟩
    cases h with
    | group hgroup => exact hgroup.not_isQuote
  · refine ⟨_, .interpolation d openedAt, [], hstring, rfl, ?_, .nil, rfl⟩
    exact fun hq => hm hq.1

theorem Stacks.Lost.mode_ne_data_of_move {d : Dialect} (h : s.toStacks.Lost d)
    (hmove : lx.Move s ps st) : st.mode ≠ .data := by
  have hdata : s.mode ≠ .data := h.mode_ne_data
  cases hmove with
  | text => exact hdata
  | comment => exact hdata
  | verbatim => exact hdata
  | openTag hfind => exact absurd hfind.mode_eq hdata
  | closeTag _ _ hnil => exact absurd hnil h.scopes_ne_nil
  | blanks => exact hdata
  | lexeme _ _ hacts =>
    cases hacts with
    | plain => exact hdata
    | quoted => exact hdata
    | opening => exact hdata
    | closing => exact hdata
    | quote => exact nofun
  | openInterpolation => exact nofun
  | stringPiece => exact hdata
  | closeQuote hmode => exact (h.nested.leave_string hmode).2.1
  | closeInterpolation hmode =>
    have hstring : s.toStacks.leave.mode = .string := (h.nested.leave_interpolation hmode).2
    show s.toStacks.leave.mode ≠ .data
    rw [hstring]
    exact nofun

/-- Stacks that are lost stay lost. -/
theorem Stacks.Lost.move (hm : lx.interpolation.opening ≠ ['"']) (h : s.toStacks.Lost lx.toDialect)
    (hmove : lx.Move s ps st) : st.Lost lx.toDialect := by
  have hle := hmove.quotes_le hm
  refine ⟨hmove.nested h.nested, h.mode_ne_data_of_move hmove, ?_⟩
  rcases h.surplus with hlt | ⟨heq, base, scope, ls, hbase, hhead, hq, hl, hs⟩
  · exact Or.inl (by omega)
  obtain ⟨ls', hshift, rfl⟩ | ⟨rfl, -, rfl⟩ | ⟨group, ls', rfl, -, hmode, -, rfl⟩ :=
    hmove.layers (Or.inr hbase) hl hs
  · exact Or.inr ⟨by omega, base, scope, ls', hbase, hhead, hq, hshift.layered hl, rfl⟩
  · have hleave := base.strings_leave_of_string hbase
    rw [hs, Stacks.under_nil] at heq
    rw [Stacks.strings_pop_leave, Stacks.quotes_leave, base.quotes_pop hhead hq]
    exact Or.inl (by omega)
  · have hn : (base.under lx.toDialect ls').Nested := by
      have := h.nested
      rw [hs] at this
      exact this
    have hmode : (base.under lx.toDialect ls').mode = .interpolation := by
      rw [← hmode]
      exact (congrArg Stacks.mode hs).symm
    cases hl with
    | group _ _ hl => exact Or.inr ⟨by omega, hl.covered_of_slip hm (Or.inr hbase) hn hmode⟩

end

end TemplateTokens
