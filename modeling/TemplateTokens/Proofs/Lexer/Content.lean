import TemplateTokens.Proofs.Concatenation
import TemplateTokens.Proofs.Lexeme.Severed
import TemplateTokens.Proofs.Lexer.Refusal

/-!
# The content of a tag

The run over the content of a tag ends where the tag does: up to there every step leaves the tag
open, and none looks at what stands behind the content, be it the closing delimiter alone or a trim
marker before it. So the content is read in the same way whatever stands on either side of it. To
compare two such runs, both are put beside the run over the content by itself.

Results:

* `Lexicon.Move.of_inside`: a step inside a tag ends the tag, or leaves it open and reads no end of
  a tag.
* `State.Carries.settled_inside`: where it leaves the tag open, nothing that it looks at depends on
  the trim marker behind the content.
* `State.Carries.exists_leads_content`: in front of another end of the tag, the run reads the same
  content and then that end.
-/

namespace TemplateTokens

open Piece

/-- Of a row with `p` at its end, a first part is all of it or leaves a row with `p` at its end. -/
theorem eq_append_of_concat {α : Type} {p : α} {qs rs inner : List α}
    (h : qs ++ rs = inner ++ [p]) :
    (∃ inner', inner = qs ++ inner' ∧ rs = inner' ++ [p]) ∨ qs = inner ++ [p] ∧ rs = [] := by
  obtain rfl | ⟨rs, b, rfl⟩ := List.eq_nil_or_concat rs
  · exact Or.inr ⟨by rw [← h, List.append_nil], rfl⟩
  · rw [List.concat_eq_append, ← List.append_assoc] at h
    obtain ⟨rfl, hb⟩ := List.append_inj' h rfl
    exact Or.inl ⟨rs, rfl, by rw [List.concat_eq_append, hb]⟩

theorem Piece.eq_none_of_ofTrim {d : Dialect} {m : Option Trim}
    (h : ∀ p ∈ ofTrim d m, p.kind ≠ .trimming ∧ p.kind ≠ .lineTrimming) : m = none := by
  rcases m with _ | _ | _
  · rfl
  · exact absurd rfl (h ⟨.trimming, [d.trim]⟩ List.mem_cons_self).1
  · exact absurd rfl (h ⟨.lineTrimming, [d.lineTrim]⟩ List.mem_cons_self).2

/-! ## The content by itself -/

/-- A location in a piece of text by itself, put behind text that ends at `base`. The location on no
line stands for the place where the tag around the piece was opened. -/
def Location.within (opened base l : Location) : Location :=
  if l.line = 0 then opened else base.shift l

theorem Location.commutes_within {opened base : Location} (h : 1 ≤ base.column) :
    Commutes (within opened base) := by
  intro l t hl
  have hle := le_line_advance l t
  rw [within, within, if_neg (by omega), if_neg (by omega)]
  exact commutes_shift h l t hl

/-- The state before the content of a tag, by itself. -/
def State.content (tag : Tag) (text : Text) : State where
  position := Position.start
  rest := text
  mode := tag.mode
  outer := [.data]
  scopes := []
  tokens := #[]
  tagStarts := []
  tagOpenedAt := ⟨0, 0⟩

theorem State.carries_content {tag : Tag} {text more : Text} {s : State}
    (hrest : s.rest = text ++ more) (hstacks : s.toStacks = Stacks.start.enter tag.mode) :
    Carries (Location.within s.tagOpenedAt s.position.toLocation) s.tokens.toList more
      (content tag text) s where
  rest_eq := hrest
  location_eq := (Location.shift_start _).symm
  line_pos := Nat.le_refl 1
  stacks_eq := hstacks
  tokens_eq := (List.append_nil _).symm
  tagOpenedAt_eq _ := rfl

/-! ## Steps inside a tag -/

theorem Mode.isExpression_interpolation : interpolation.IsExpression := ⟨nofun, nofun⟩

/-- A row of pieces in which no tag ends. -/
def Piece.Inner (ps : List Piece) : Prop := ∀ p ∈ ps, ∀ tag : Tag, p.kind ≠ tag.endKind

namespace Piece

theorem inner_append {ps qs : List Piece} : Inner (ps ++ qs) ↔ Inner ps ∧ Inner qs :=
  List.forall_mem_append

theorem inner_nil : Inner [] := List.forall_mem_nil _

theorem inner_singleton {kind : Token.Kind}
    (h : kind ∉ [Tag.print, .block, .comment].map Tag.endKind) (value : Text) :
    Inner [⟨kind, value⟩] := by
  refine List.forall_mem_singleton.2 fun tag heq => h (List.mem_map.2 ⟨tag, ?_, heq.symm⟩)
  cases tag <;> decide

theorem inner_ofTrim (d : Dialect) (m : Option Trim) : Inner (ofTrim d m) := by
  rcases m with _ | _ | _
  · exact inner_nil
  · exact inner_singleton (by decide) _
  · exact inner_singleton (by decide) _

theorem inner_unlessEmpty {kind : Token.Kind}
    (h : kind ∉ [Tag.print, .block, .comment].map Tag.endKind) (value : Text) :
    Inner (unlessEmpty kind value) := by
  unfold unlessEmpty
  split
  · exact inner_nil
  · exact inner_singleton h value

end Piece

section

variable {lx : Lexicon} {s s₁ : State} {qs : List Piece} {st : Stacks}

theorem Lexicon.Starts.inner {t : Text} {l : Lexeme} (h : lx.Starts t l) : Inner l.pieces := by
  cases h with
  | operator => exact inner_singleton (by decide) _
  | name => exact inner_singleton (by decide) _
  | number => exact inner_singleton (by decide) _
  | opening => exact inner_singleton (by decide) _
  | closing => exact inner_singleton (by decide) _
  | separator => exact inner_singleton (by decide) _
  | quote => exact inner_singleton (by decide) _
  | quoted =>
    exact inner_append.2 ⟨inner_singleton (by decide) _,
      inner_append.2 ⟨inner_unlessEmpty (by decide) _, inner_singleton (by decide) _⟩⟩

/-- A step inside a tag ends the tag, or leaves it open and reads no end of a tag. -/
theorem Lexicon.Move.of_inside (hn : s.toStacks.Nested) (hmode : s.mode ≠ .data)
    (h : lx.Move s qs st) :
    (∃ tag e, tag ≠ .comment ∧ s.mode = tag.mode ∧ s.scopes = [] ∧
        lx.tagEnd? tag (s.rest.dropWhile isBlank) = some e ∧
        qs = unlessEmpty .whitespace (TemplateTokens.blanks s.rest) ++
          e.pieces lx.toDialect tag.endKind) ∨
      st.mode ≠ .data ∧ Inner qs := by
  have hblank : ∀ blank, Inner (unlessEmpty .whitespace blank) := inner_unlessEmpty (by decide)
  cases h with
  | text hdata => exact absurd hdata hmode
  | comment hfind => exact absurd hfind.mode_eq hmode
  | verbatim hfind => exact absurd hfind.mode_eq hmode
  | openTag hfind => exact absurd hfind.mode_eq hmode
  | closeTag hmode' htag hscopes hend => exact Or.inl ⟨_, _, htag, hmode', hscopes, hend, rfl⟩
  | blanks => exact Or.inr ⟨hmode, inner_singleton (by decide) _⟩
  | lexeme _ hstart hacts =>
    refine Or.inr ⟨?_, inner_append.2 ⟨hblank _, hstart.inner⟩⟩
    cases hacts with
    | quote => nofun
    | _ => exact hmode
  | openInterpolation =>
    exact Or.inr ⟨nofun, inner_append.2 ⟨inner_singleton (by decide) _, hblank _⟩⟩
  | stringPiece => exact Or.inr ⟨hmode, inner_singleton (by decide) _⟩
  | closeQuote hstring =>
    exact Or.inr ⟨(hn.leave_string hstring).2.1, inner_singleton (by decide) _⟩
  | closeInterpolation hinter =>
    refine Or.inr ⟨fun hdata => ?_, inner_append.2 ⟨hblank _, inner_singleton (by decide) _⟩⟩
    cases hdata.symm.trans (hn.leave_interpolation hinter).2

theorem exists_not_isBlank {t v : Text} (hv : v <+: t.dropWhile isBlank) (hne : v ≠ []) :
    ∃ c ∈ v, isBlank c = false := by
  have hhead := List.head?_dropWhile_not isBlank t
  obtain ⟨c, v, rfl⟩ := List.exists_cons_of_ne_nil hne
  obtain ⟨u, hu⟩ := hv
  rw [← hu] at hhead
  exact ⟨c, List.mem_cons_self, by simpa using hhead⟩

/-- A step of an expression reads more than blanks, where more remains. -/
theorem Lexicon.Move.exists_not_isBlank (h : standard.Move s qs st) (hmode : s.mode.IsExpression)
    (hne : s.rest.dropWhile isBlank ≠ []) : ∃ c ∈ texts qs, isBlank c = false := by
  have hbehind {ps : List Piece} {blank : Text} (hproper : texts ps ≠ [])
      (hps : texts ps <+: s.rest.dropWhile isBlank) :
      ∃ c ∈ texts (unlessEmpty .whitespace blank ++ ps), isBlank c = false := by
    obtain ⟨c, hc, hblank⟩ := TemplateTokens.exists_not_isBlank hps hproper
    exact ⟨c, by rw [texts_append]; exact List.mem_append_right _ hc, hblank⟩
  cases h with
  | text hdata => exact absurd hdata hmode.1
  | comment hfind => exact absurd hfind.mode_eq hmode.1
  | verbatim hfind => exact absurd hfind.mode_eq hmode.1
  | openTag hfind => exact absurd hfind.mode_eq hmode.1
  | closeTag _ _ _ hend =>
    refine hbehind (texts_ne_nil (Dialect.proper_tagEnd? Dialect.defect?_standard hend) ?_)
      (Dialect.texts_tagEnd? hend)
    simp [TagEnd.pieces]
  | blanks _ hnil => exact absurd hnil hne
  | @lexeme l _ _ hstart =>
    refine hbehind (texts_ne_nil (hstart.proper clean_standard.visible) ?_) hstart.texts_isPrefix
    cases l <;> simp [Lexeme.pieces]
  | openInterpolation hstring => exact absurd hstring hmode.2
  | stringPiece hstring => exact absurd hstring hmode.2
  | closeQuote hstring => exact absurd hstring hmode.2
  | closeInterpolation =>
    refine ⟨'}', ?_, by decide⟩
    rw [texts_append, texts_cons]
    exact List.mem_append_right _ (List.mem_append_left _ List.mem_cons_self)

/-- Behind a tag with nothing open in it nothing is open. -/
theorem Stacks.Nested.leave_eq_start (h : st.Nested) {tag : Tag} (htag : tag ≠ .comment)
    (hmode : st.mode = tag.mode) (hscopes : st.scopes = []) : st.leave = .start := by
  obtain ⟨mode, outer, scopes⟩ := st
  obtain rfl : mode = tag.mode := hmode
  obtain rfl : scopes = [] := hscopes
  cases tag with
  | comment => exact absurd rfl htag
  | print => cases h; rfl
  | block => cases h; rfl

theorem Lexicon.Path.nested {source : Text} {ps : List Piece} {ls : List Layer}
    (h : lx.Path source s ps ls) : s.toStacks.Nested := by
  rw [h.stacks_eq]
  exact h.layered.nested Stacks.nested_start

end

/-! ## What a step inside a tag looks at -/

/-- A step that leaves the tag open around it: it reads `qs`, which is a beginning of the content
`text`, and no end of a tag is among that. -/
structure Lexicon.StaysIn (tag : Tag) (text : Text) (s : State) (qs : List Piece) (s₁ : State) :
    Prop where
  mode_ne : s.mode ≠ .data
  tag_eq : ∀ t, t ≠ .comment → t.mode ∈ s.mode :: s.outer → t = tag
  step_eq : s.step standard = .ok s₁
  moves : s.Moves standard qs s₁
  inner : Inner qs
  isPrefix : texts qs <+: text

namespace State.Carries

variable {f f' : Location → Location} {earlier earlier' : List Token} {u s s' s₁ : State}
  {tag : Tag} {qs : List Piece}

section

variable (htag : tag ≠ .comment)
  (h : Carries f earlier (Dialect.standard.tagTail none tag) u s)
  (hstep : Lexicon.StaysIn tag u.rest s qs s₁)

include htag h hstep

/-- The tag does not end where the step begins. -/
theorem tagEnd?_eq_none (hmode : s.mode = tag.mode) (hscopes : s.scopes = []) :
    Lexicon.standard.tagEnd? tag
      (u.rest.dropWhile isBlank ++ Dialect.standard.tagTail none tag) = none := by
  rw [← dropWhile_append_of_head (Lexicon.severs_tagTail htag none).not_isBlank, ← h.rest_eq]
  refine Option.eq_none_iff_forall_ne_some.2 fun e he => ?_
  have hqs := hstep.moves.move.eq_of_tagEnd htag hmode hscopes he
  refine hstep.inner ⟨tag.endKind, e.delimiter⟩ ?_ tag rfl
  simp [hqs, TagEnd.pieces]

/-- More than blanks remains of the content. -/
theorem exists_not_isBlank (hmode : s.mode.IsExpression) : ∃ c ∈ u.rest, isBlank c = false := by
  have hsevers := Lexicon.severs_tagTail htag none
  have hne : s.rest.dropWhile isBlank ≠ [] := by
    rw [h.rest_eq, dropWhile_append_of_head hsevers.not_isBlank]
    exact List.append_ne_nil_of_right_ne_nil _ hsevers.ne_nil
  obtain ⟨c, hc, hblank⟩ := hstep.moves.move.exists_not_isBlank hmode hne
  exact ⟨c, hstep.isPrefix.subset hc, hblank⟩

theorem interpolationClose?_append (hmode : s.mode.IsExpression) (more : Text) :
    Lexicon.standard.interpolationClose? (u.rest ++ more) =
      Lexicon.standard.interpolationClose? u.rest := by
  obtain ⟨c, hc, hblank⟩ := h.exists_not_isBlank htag hstep hmode
  exact Dialect.interpolationClose?_append hc hblank List.not_mem_nil

/-- Where a piece of an expression is expected in the content by itself, one is in the template. -/
theorem expects (hexp : u.Expects Lexicon.standard) : s.Expects Lexicon.standard := by
  have hmode := h.mode_eq
  have hin (t : Tag) (ht : t ≠ .comment) (hm : s.mode = t.mode) : s.Expects Lexicon.standard := by
    obtain rfl := hstep.tag_eq t ht (hm ▸ List.mem_cons_self)
    refine expects_of_tagEnd? ht hm fun hscopes => ?_
    rw [h.rest_eq, dropWhile_append_of_head (Lexicon.severs_tagTail htag none).not_isBlank]
    exact h.tagEnd?_eq_none htag hstep hm hscopes
  rw [Expects] at hexp
  cases hu : u.mode with
  | data => rw [hu] at hexp; exact hexp.elim
  | string => rw [hu] at hexp; exact hexp.elim
  | print => exact hin .print (by decide) (hmode.trans hu)
  | block => exact hin .block (by decide) (hmode.trans hu)
  | interpolation =>
    rw [hu] at hexp hmode
    rw [Expects, hmode]
    intro hopener
    rw [h.opener_eq] at hopener
    rw [h.rest_eq, h.interpolationClose?_append htag hstep (hmode ▸ Mode.isExpression_interpolation)]
    exact hexp hopener

/-- Nothing that the step looks at depends on what stands behind the content. -/
theorem settled_inside (m : Option Trim) :
    u.Settled Lexicon.standard (Dialect.standard.tagTail m tag) := by
  have hnone := Lexicon.severs_tagTail htag none
  have hm := Lexicon.severs_tagTail htag m
  have hmode := h.mode_eq
  have hdata : u.mode ≠ .data := hmode ▸ hstep.mode_ne
  exact {
    blanks := fun _ => dropWhile_append_of_head hm.not_isBlank _
    lexeme := fun _ c t _ => hm.lexemeAt?_append c t
    ends := by
      intro hexp _
      obtain ⟨b, hb, hblank⟩ :=
        h.exists_not_isBlank htag hstep (hmode.symm ▸ hexp.isExpression)
      obtain ⟨c, t, hrest⟩ := List.exists_cons_of_ne_nil
        (List.ne_nil_of_mem (TemplateTokens.mem_dropWhile hb hblank))
      have hrest' : s.rest.dropWhile isBlank = c :: (t ++ Dialect.standard.tagTail none tag) := by
        rw [h.rest_eq, dropWhile_append_of_head hnone.not_isBlank, hrest, List.cons_append]
      obtain ⟨l, hl, -⟩ := (h.expects htag hstep hexp).exists_lexeme hstep.step_eq hrest'
      rw [hnone.lexemeAt?_append] at hl
      exact ⟨c, t, hrest, by rw [hl, Option.isSome_some]⟩
    tagEnd := by
      intro t ht hmode' hscopes
      obtain rfl := hstep.tag_eq t ht (by rw [hmode, hmode']; exact List.mem_cons_self)
      have hscopes' : s.scopes = [] := by
        rw [h.scopes_eq, hscopes, List.map_nil]
      have hend := h.tagEnd?_eq_none htag hstep (hmode.trans hmode') hscopes'
      exact (Dialect.tagEnd?_append_tagTail htag hend m).trans
        (Dialect.tagEnd?_of_append htag hend).symm
    interpolationClose := fun hinter =>
      h.interpolationClose?_append htag hstep
        (hmode.trans hinter ▸ Mode.isExpression_interpolation) _
    interpolationOpen := fun _ => hm.interpolationOpen?_append _
    stringPiece := by
      intro hstring hopen
      refine stringPiece_append (by decide) (hnone.stringPiece_ne (by decide) ?_)
      rw [← hnone.interpolationOpen?_append, ← h.rest_eq] at hopen
      rw [← h.rest_eq]
      obtain ⟨blank, hblank⟩ | rfl | ⟨rest, hrest⟩ :=
        hstep.moves.move.of_string (hmode.trans hstring)
      · cases hopen.symm.trans hblank
      · simpa using hstep.isPrefix
      · rw [hrest]
        exact List.nil_prefix
    tagAt := fun h => absurd h hdata
    text := fun h => absurd h hdata
    comment := fun _ _ _ hfind => absurd hfind.mode_eq hdata
    verbatimOpen := fun _ _ _ hfind => absurd hfind.mode_eq hdata
    verbatimClose := fun _ _ _ _ _ hfind => absurd hfind.mode_eq hdata }

end

/-! ## The end of the tag -/

/-- The run that has come to the end of a tag behind blanks reads it, and is done. -/
theorem exists_leads_tagTail {source : Text} {ps : List Piece} {ls : List Layer}
    (hpath : Lexicon.standard.Path source s ps ls) (htag : tag ≠ .comment)
    (hmode : s.mode = tag.mode) (hscopes : s.scopes = []) {gap : Text} {m : Option Trim}
    (hgap : gap.all isBlank = true) (hrest : s.rest = gap ++ Dialect.standard.tagTail m tag) :
    ∃ last, Lexicon.standard.Leads s (unlessEmpty .whitespace gap ++ (ofTrim Dialect.standard m ++
        [⟨tag.endKind, Dialect.standard.closing tag⟩])) last ∧
      last.rest = [] ∧ last.toStacks = .start := by
  have hsevers := Lexicon.severs_tagTail htag m
  have hdrop : s.rest.dropWhile isBlank = Dialect.standard.tagTail m tag := by
    rw [hrest, dropWhile_append_of_head hsevers.not_isBlank,
      List.dropWhile_eq_nil_iff.2 (List.all_eq_true.1 hgap), List.nil_append]
  have hblanks : blanks s.rest = gap := by
    rw [hrest, blanks, takeWhile_append_of_head hsevers.not_isBlank]
    exact List.takeWhile_eq_self_iff.2 (List.all_eq_true.1 hgap)
  have hne : s.rest ≠ [] := hrest ▸ List.append_ne_nil_of_right_ne_nil gap hsevers.ne_nil
  have hend : Lexicon.standard.tagEnd? tag (s.rest.dropWhile isBlank) =
      some ⟨m, Dialect.standard.closing tag⟩ := hdrop ▸ Dialect.tagEnd?_tagTail htag m
  obtain ⟨last, hleads, hstacks⟩ := exists_leads_tagEnd htag hmode hscopes hne hend
  rw [hblanks] at hleads
  refine ⟨last, hleads, ?_, ?_⟩
  · exact hleads.reads.rest_of_eq (by simp [hrest, Dialect.tagTail, TagEnd.pieces]; rfl)
  · rw [hstacks]
    exact hpath.nested.leave_eq_start htag hmode hscopes

/-! ## The run over the content -/

/-- What a step reads that is carried, told from the tokens. -/
theorem pieces_eq {more : Text} {u₁ : State} (h : Carries f earlier more u s)
    (h₁ : Carries f earlier more u₁ s₁) (hread : s.Reads qs s₁) :
    u₁.tokens.toList.map Token.piece = u.tokens.toList.map Token.piece ++ qs := by
  have hpiece : Token.piece ∘ Token.relocate f = Token.piece := rfl
  have htokens := congrArg (List.map Token.piece) hread.tokens_eq
  rw [h₁.tokens_eq, h.tokens_eq, List.map_append, List.map_append, List.map_append, List.map_map,
    List.map_map, hpiece, map_piece_tokensFrom, List.append_assoc] at htokens
  exact List.append_cancel_left htokens

/-- A step that leaves the tag open is taken in front of another end of the tag as well, and reads
the same there. -/
theorem exists_step_inside (hf : Location.Commutes f) (hf' : Location.Commutes f')
    (htag : tag ≠ .comment) {m : Option Trim}
    (h : Carries f earlier (Dialect.standard.tagTail none tag) u s)
    (h' : Carries f' earlier' (Dialect.standard.tagTail m tag) u s')
    (hstep : Lexicon.StaysIn tag u.rest s qs s₁) (hread : s.Reads qs s₁)
    (hne : u.rest ≠ []) {source source' : Text} {ps ps' : List Piece} {ls ls' : List Layer}
    (hpath : Lexicon.standard.Path source s ps ls)
    (hpath' : Lexicon.standard.Path source' s' ps' ls') :
    ∃ u₁ s₁' ls₁', Carries f earlier (Dialect.standard.tagTail none tag) u₁ s₁ ∧
      Carries f' earlier' (Dialect.standard.tagTail m tag) u₁ s₁' ∧
      s'.step Lexicon.standard = .ok s₁' ∧ s'.Reads qs s₁' ∧
      Lexicon.standard.Path source' s₁' (ps' ++ qs) ls₁' := by
  have hdata : u.mode ≠ .data := h.mode_eq ▸ hstep.mode_ne
  have hcloser (hstring : u.mode = .string) : u.quoteCloser = ['"'] := by
    rw [← h.quoteCloser_eq]
    exact hpath.quoteCloser_eq (h.mode_eq.trans hstring)
  have hfollows := h.step Dialect.defect?_standard hf hne (h.settled_inside htag hstep none)
    (fun hmode => absurd hmode hdata) (fun hmode => absurd hmode hdata) hcloser
  have hfollows' := h'.step Dialect.defect?_standard hf' hne (h.settled_inside htag hstep m)
    (fun hmode => absurd hmode hdata) (fun hmode => absurd hmode hdata) hcloser
  rw [hstep.step_eq] at hfollows
  cases hu : u.step Lexicon.standard with
  | error e =>
    rw [hu] at hfollows
    exact hfollows.elim
  | ok u₁ =>
    rw [hu] at hfollows hfollows'
    cases hs' : s'.step Lexicon.standard with
    | error e =>
      rw [hs'] at hfollows'
      exact hfollows'.elim
    | ok s₁' =>
      rw [hs'] at hfollows'
      have hne' : s'.rest ≠ [] := by
        rw [h'.rest_eq]
        exact List.append_ne_nil_of_left_ne_nil hne _
      obtain ⟨qs', ls₁', -, -, hread', hpath₁'⟩ := hpath'.exists_moves Dialect.defect?_standard
        Lexicon.closerOf?_standard hne' hs'
      obtain rfl : qs' = qs := List.append_cancel_left
        ((h'.pieces_eq hfollows' hread').symm.trans (h.pieces_eq hfollows hread))
      exact ⟨u₁, s₁', ls₁', hfollows, hfollows', rfl, hread', hpath₁'⟩

/-- The run over the content of a tag and its end reads the same content in front of another end of
the tag, and then that end. -/
theorem exists_leads_content (hf : Location.Commutes f) (hf' : Location.Commutes f')
    (htag : tag ≠ .comment) {m : Option Trim}
    (h : Carries f earlier (Dialect.standard.tagTail none tag) u s)
    (h' : Carries f' earlier' (Dialect.standard.tagTail m tag) u s')
    {source source' : Text} {ps ps' rs inner : List Piece} {ls ls' : List Layer} {last : State}
    (hpath : Lexicon.standard.Path source s ps ls)
    (hpath' : Lexicon.standard.Path source' s' ps' ls')
    (hleads : Lexicon.standard.Leads s rs last) (hnil : last.rest = [])
    (hrs : rs = inner ++ [⟨tag.endKind, Dialect.standard.closing tag⟩])
    (hinner : ∀ p ∈ inner, p.kind ≠ tag.endKind ∧ p.kind ≠ .trimming ∧ p.kind ≠ .lineTrimming)
    (hmode : s.mode ≠ .data)
    (hopen : ∀ t, t ≠ .comment → t.mode ∈ s.mode :: s.outer → t = tag) :
    ∃ last', Lexicon.standard.Leads s' (inner ++ (ofTrim Dialect.standard m ++
        [⟨tag.endKind, Dialect.standard.closing tag⟩])) last' ∧
      last'.rest = [] ∧ last'.toStacks = .start := by
  induction hleads generalizing u s' ps ps' ls ls' inner with
  | refl => simp at hrs
  | @step s s₁ last qs rs hne hstep hread hleads ih =>
    obtain ⟨hqs, hmoves, ls₁, hpath₁⟩ :=
      hpath.moves Dialect.defect?_standard Lexicon.closerOf?_standard hne hstep hread
    have hrest : u.rest = texts inner := by
      have hall := (Lexicon.Leads.step hne hstep hread hleads).reads.rest_eq
      rw [hrs, hnil, h.rest_eq, texts_append, List.append_nil] at hall
      exact List.append_cancel_right (hall.trans (by simp [Dialect.tagTail, Dialect.modifierText]))
    obtain ⟨t, e, ht, hmode', hscopes, hend, rfl⟩ | ⟨hmode₁, hqsInner⟩ :=
      hmoves.move.of_inside hpath.nested hmode
    · obtain rfl := hopen t ht (hmode' ▸ List.mem_cons_self)
      obtain ⟨inner', rfl, -⟩ | ⟨hends, rfl⟩ := eq_append_of_concat hrs
      · -- then the tag would end in its content
        exact absurd rfl (hinner ⟨t.endKind, e.delimiter⟩ (by simp [TagEnd.pieces])).1
      · rw [TagEnd.pieces, ← List.append_assoc] at hends
        obtain ⟨rfl, -⟩ := List.append_inj' hends rfl
        have hnone : e.modifier = none :=
          eq_none_of_ofTrim fun p hp => (hinner p (List.mem_append_right _ hp)).2
        rw [hnone, ofTrim, List.append_nil] at hrest ⊢
        rw [texts_unlessEmpty] at hrest
        have hscopes' : s'.scopes = [] := by
          have hu := h.scopes_eq
          rw [hscopes, eq_comm, List.map_eq_nil_iff] at hu
          rw [h'.scopes_eq, hu, List.map_nil]
        exact exists_leads_tagTail hpath' htag (h'.mode_eq.trans (h.mode_eq.symm.trans hmode'))
          hscopes' List.all_takeWhile (hrest ▸ h'.rest_eq)
    · obtain ⟨inner', rfl, rfl⟩ | ⟨hlast, -⟩ := eq_append_of_concat hrs
      · have hstays : Lexicon.StaysIn tag u.rest s qs s₁ := by
          refine ⟨hmode, hopen, hstep, hmoves, hqsInner, ?_⟩
          rw [hrest, texts_append]
          exact List.prefix_append _ _
        have hproper := (proper_append.1 (hpath₁.proper Dialect.defect?_standard
          Lexicon.clean_standard.visible)).2
        have hrest_ne : u.rest ≠ [] := by
          rw [hrest, texts_append]
          exact List.append_ne_nil_of_left_ne_nil (texts_ne_nil hproper hqs) _
        obtain ⟨u₁, s₁', ls₁', h₁, h₁', hstep', hread', hpath₁'⟩ :=
          h.exists_step_inside hf hf' htag h' hstays hread hrest_ne hpath hpath'
        obtain ⟨last', hleads', hend, hstacks⟩ := ih h₁ h₁' hpath₁ hpath₁' hnil rfl
          (fun p hp => hinner p (List.mem_append_right qs hp)) hmode₁ fun t ht hmem => by
            obtain hmem | ⟨_, _, _, hfind, -⟩ := hmoves.move.tag_open ht hmem
            · exact hopen t ht hmem
            · exact absurd hfind.mode_eq hmode
        have hne' : s'.rest ≠ [] := by
          rw [h'.rest_eq]
          exact List.append_ne_nil_of_left_ne_nil hrest_ne _
        refine ⟨last', ?_, hend, hstacks⟩
        rw [List.append_assoc]
        exact .step hne' hstep' hread' hleads'
      · refine absurd rfl (hqsInner ⟨tag.endKind, Dialect.standard.closing tag⟩ ?_ tag)
        rw [hlast]
        exact List.mem_append_right _ List.mem_cons_self

end State.Carries

end TemplateTokens
