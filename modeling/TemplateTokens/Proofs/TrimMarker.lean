import TemplateTokens.Proofs.Lexer.Content
import TemplateTokens.Proofs.VerbatimBlock

/-!
# Trim markers

A trim marker beside a delimiter is one more token of its tag and changes no other. The markers are
operators as well, and one of them stands in `b-or`, `b-xor` and `b-and`, so what the content ends
with might take the marker in front of the closing delimiter along. It does not, as the end of the
tag is severed from the content. Nor does a marker turn a tag into one that opens a verbatim block.

Results:

* `Dialect.verbatimOpen?_tagText`: a tag that opens no verbatim block opens none with trim markers.
* `Lexicon.Leads.of_tagText`: the run over a single tag goes into the tag with its first step.
* `Lexicon.exists_leads_tagText`: with trim markers it reads the same pieces, and the markers.
* `tokenize_tagText`: so the tokens of a single tag are the same but for those of the markers.
-/

namespace TemplateTokens

open Piece

/-! ## A template that is one tag -/

namespace Dialect

/-- The text of a tag: between its delimiters there are a trim marker or none, the content, and
again a trim marker or none. -/
def tagText (d : Dialect) (tag : Tag) (m₁ : Option Trim) (x : Text) (m₂ : Option Trim) : Text :=
  d.opening tag ++ (d.modifierText m₁ ++ (x ++ d.tagTail m₂ tag))

theorem tagAt?_opening (tag : Tag) (t : Text) :
    standard.tagAt? (standard.opening tag ++ t) = some (tag, standard.modifierAt t) := by
  cases tag with
  | print => rfl
  | block => rfl
  | comment => rfl

theorem modifierAt_modifierText {m : Option Trim} {rest : Text}
    (h : m = none → standard.modifierAt rest = none) :
    standard.modifierAt (standard.modifierText m ++ rest) = m := by
  rcases m with _ | _ | _
  · exact h rfl
  · rfl
  · rfl

/-! ## Verbatim tags -/

/-- What is behind the content of a block tag begins with neither a blank nor a letter. -/
theorem apart_tagTail {w : Text} (h : ∀ c ∈ w, isBlank c = true ∨ c.isAlpha = true)
    (m : Option Trim) : Apart w (standard.tagTail m .block) := by
  rintro b hb ⟨behind, hbehind⟩
  cases b with
  | nil => rfl
  | cons c b =>
    have hapart : ∀ c ∈ (standard.tagTail m .block).head?,
        isBlank c = false ∧ c.isAlpha = false := by
      rcases m with _ | _ | _ <;> rintro c ⟨⟩ <;> decide
    obtain ⟨hblank, halpha⟩ := hapart c (by rw [← hbehind]; rfl)
    obtain hc | hc := h c (((List.mem_tails _ _).1 hb).subset List.mem_cons_self)
    · cases hblank.symm.trans hc
    · cases halpha.symm.trans hc

end Dialect

namespace VerbatimTag

/-- A verbatim tag is a tag whose content is a word and the blanks around it. -/
def content (tag : VerbatimTag) : Text := tag.leading ++ (tag.word ++ tag.trailing)

theorem text_eq_tagText (d : Dialect) (tag : VerbatimTag) :
    tag.text d = d.tagText .block tag.openModifier tag.content tag.closeModifier := by
  simp only [text, content, Dialect.tagText, Dialect.tagTail, List.append_assoc]
  rfl

theorem Holds.apart_content {tag : VerbatimTag} (h : tag.Holds "verbatim".toList)
    (m : Option Trim) : Apart tag.content (Dialect.standard.tagTail m .block) := by
  refine Dialect.apart_tagTail (fun c hc => ?_) m
  have hword : "verbatim".toList.all Char.isAlpha = true := by decide
  rw [content, h.word_eq, List.mem_append, List.mem_append] at hc
  obtain hc | hc | hc := hc
  · exact Or.inl (List.all_eq_true.1 h.leading c hc)
  · exact Or.inr (List.all_eq_true.1 hword c hc)
  · exact Or.inl (List.all_eq_true.1 h.trailing c hc)

theorem Holds.modifierAt_content {tag : VerbatimTag} (h : tag.Holds "verbatim".toList)
    (rest : Text) : Dialect.standard.modifierAt (tag.content ++ rest) = none := by
  rw [verbatim_eq] at h
  rw [content, List.append_assoc, List.append_assoc]
  exact h.modifierAt_eq_none (by decide) _

/-- Whatever trim markers stand beside its delimiters, the tag opens a verbatim block. -/
theorem Holds.verbatimOpen?_isSome {tag : VerbatimTag} (h : tag.Holds "verbatim".toList)
    (m n : Option Trim) (behind : Text) : (Dialect.standard.verbatimOpen?
      (Dialect.standard.tagText .block m tag.content n ++ behind)).isSome := by
  have hmarked : Holds ⟨m, tag.leading, tag.word, tag.trailing, n⟩ "verbatim".toList :=
    ⟨h.word_eq, h.leading, h.trailing⟩
  have hopen := verbatimOpen?_text hmarked behind
  rw [text_eq_tagText] at hopen
  exact Option.isSome_of_eq_some hopen

end VerbatimTag

/-- A tag that opens no verbatim block opens none with trim markers beside its delimiters. -/
theorem Dialect.verbatimOpen?_tagText {m₁ m₂ : Option Trim} {x : Text}
    (hm : m₁ = none → standard.modifierAt (x ++ standard.tagTail m₂ .block) = none)
    (h : standard.verbatimOpen? (standard.tagText .block none x none) = none) :
    standard.verbatimOpen? (standard.tagText .block m₁ x m₂) = none := by
  refine Option.eq_none_iff_forall_ne_some.2 fun tag htag => ?_
  obtain ⟨hholds, hbegins⟩ := VerbatimTag.holds_of_wordTag? htag
  rw [tag.text_eq_tagText, tagText, tagText, List.prefix_append_right_inj] at hbegins
  -- both have the trim marker that they begin with
  have hmodifier : tag.openModifier = m₁ := by
    have hne : standard.modifierText tag.openModifier ++
        (tag.content ++ standard.tagTail tag.closeModifier .block) ≠ [] := by
      simp [VerbatimTag.content, hholds.word_eq]
    obtain ⟨behind, hbehind⟩ := hbegins
    have hat := congrArg standard.modifierAt hbehind
    rwa [modifierAt_append hne, modifierAt_modifierText hm,
      modifierAt_modifierText fun _ => hholds.modifierAt_content _] at hat
  rw [hmodifier, List.prefix_append_right_inj] at hbegins
  -- so the content begins with the word, and the end of the tag is behind it
  obtain ⟨x', rfl⟩ := isPrefix_left_of_append ((hholds.apart_content m₂).overlap x)
    ((List.prefix_append _ _).trans hbegins)
  rw [List.append_assoc, List.prefix_append_right_inj] at hbegins
  obtain ⟨n, behind, hbehind⟩ :=
    exists_tagTail_isPrefix (show Tag.block ≠ .comment from nofun) hbegins
  have hsource : standard.tagText .block none (tag.content ++ x') none =
      standard.tagText .block none tag.content n ++ behind := by
    simp only [tagText, List.append_assoc, hbehind]
  have hopen := hholds.verbatimOpen?_isSome none n behind
  rw [← hsource, h] at hopen
  cases hopen

/-! ## The start of the tag -/

/-- A template that begins with a tag that opens no verbatim block goes into the tag. -/
theorem State.exists_leads_tagStart {tag : Tag} (htag : tag ≠ .comment) {m : Option Trim}
    {rest : Text} (hm : m = none → Dialect.standard.modifierAt rest = none)
    (hopen : tag = .block → Dialect.standard.verbatimOpen?
      (Dialect.standard.opening tag ++ (Dialect.standard.modifierText m ++ rest)) = none) :
    ∃ s, Lexicon.standard.Leads (.start Dialect.standard
          (Dialect.standard.opening tag ++ (Dialect.standard.modifierText m ++ rest)))
        (⟨tag.startKind, Dialect.standard.opening tag⟩ :: ofTrim Dialect.standard m) s ∧
      s.rest = rest ∧ s.toStacks = Stacks.start.enter tag.mode := by
  have hat := Dialect.tagAt?_opening tag (Dialect.standard.modifierText m ++ rest)
  rw [Dialect.modifierAt_modifierText hm] at hat
  obtain ⟨after, hfind⟩ := exists_finds_start hat
  have hsource := hfind.rest_eq
  obtain ⟨s, hleads, hstacks⟩ := hfind.exists_leads_open Dialect.defect?_standard htag fun hblock =>
    (congrArg Lexicon.standard.verbatimOpen? hsource.symm).trans (hopen hblock)
  refine ⟨s, hleads, hleads.reads.rest_of_eq ?_, hstacks⟩
  show _ = texts (TagStart.pieces Dialect.standard ⟨tag, 0, m⟩) ++ rest
  rw [TagStart.texts_pieces, Dialect.startText, List.append_assoc]
  rfl

/-- The first step over a template that begins with a tag goes into the tag, or it reads a verbatim
block. -/
theorem Lexicon.Move.of_tagStart {tag : Tag} (htag : tag ≠ .comment) (rest : Text)
    {qs : List Piece} {st : Stacks}
    (h : standard.Move (.start Dialect.standard (Dialect.standard.opening tag ++ rest)) qs st) :
    (tag = .block ∧ ∃ opening closing : VerbatimTag, ∃ body,
        qs = opening.pieces Dialect.standard ++
          (unlessEmpty .text body ++ closing.pieces Dialect.standard)) ∨
      (tag = .block →
          Dialect.standard.verbatimOpen? (Dialect.standard.opening tag ++ rest) = none) ∧
        qs = ⟨tag.startKind, Dialect.standard.opening tag⟩ ::
          ofTrim Dialect.standard (Dialect.standard.modifierAt rest) ∧
        st = Stacks.start.enter tag.mode := by
  obtain ⟨after, hfind⟩ := State.exists_finds_start (Dialect.tagAt?_opening tag rest)
  obtain ⟨hcomment, -⟩ | ⟨hblock, opening, rest', body, closing, -, -, -, hqs⟩ |
      ⟨-, hopen, hqs, hst⟩ := h.of_finds hfind
  · exact absurd hcomment htag
  · exact Or.inl ⟨hblock, opening, closing, body, hqs⟩
  · refine Or.inr ⟨fun hblock => ?_, hqs, hst⟩
    exact (congrArg standard.verbatimOpen? hfind.rest_eq).trans (hopen hblock)

theorem VerbatimTag.exists_pieces_eq (d : Dialect) (tag : VerbatimTag) : ∃ row, tag.pieces d =
    ⟨.blockStart, d.block.opening⟩ :: (row ++ [⟨.blockEnd, d.block.closing⟩]) := by
  refine ⟨ofTrim d tag.openModifier ++ (unlessEmpty .whitespace tag.leading ++
    ([⟨.name, tag.word⟩] ++ (unlessEmpty .whitespace tag.trailing ++
      ofTrim d tag.closeModifier))), ?_⟩
  simp only [pieces, List.append_assoc, List.cons_append, List.nil_append]

/-! ## The run over the tag -/

namespace Lexicon

variable {tag : Tag} {x : Text} {p q : Piece} {inner : List Piece} {last : State}

/-- Where the run over a single tag reads the end of the tag once, and no trim marker, its first
step goes into the tag. -/
theorem Leads.of_tagText (htag : tag ≠ .comment)
    (h : standard.Leads (.start Dialect.standard (Dialect.standard.tagText tag none x none))
      (p :: (inner ++ [q])) last)
    (hinner : ∀ p ∈ inner, p.kind ≠ tag.endKind ∧ p.kind ≠ .trimming ∧ p.kind ≠ .lineTrimming)
    (hq : q.kind = tag.endKind) :
    p = ⟨tag.startKind, Dialect.standard.opening tag⟩ ∧
      Dialect.standard.modifierAt (x ++ Dialect.standard.tagTail none tag) = none ∧
      (tag = .block → Dialect.standard.verbatimOpen?
        (Dialect.standard.tagText tag none x none) = none) ∧
      ∃ s ls, standard.Path (Dialect.standard.tagText tag none x none) s [p] ls ∧
        s.rest = x ++ Dialect.standard.tagTail none tag ∧
        s.toStacks = Stacks.start.enter tag.mode ∧ standard.Leads s (inner ++ [q]) last := by
  generalize hps : p :: (inner ++ [q]) = ps at h
  cases h with
  | refl => cases hps
  | @step _ s₁ _ qs rs hne hstep hread hleads =>
    obtain ⟨-, hmoves, ls, hpath⟩ :=
      Path.start.moves Dialect.defect?_standard closerOf?_standard hne hstep hread
    obtain ⟨rfl, opening, closing, body, rfl⟩ | ⟨hopen, rfl, hstacks⟩ :=
      Move.of_tagStart htag (x ++ Dialect.standard.tagTail none tag) hmoves.move
    · -- then the end of the opening tag would be in the content
      obtain ⟨row, hrow⟩ := opening.exists_pieces_eq Dialect.standard
      rw [hrow, List.cons_append, List.cons_append] at hps
      have hsplit : (row ++ [⟨.blockEnd, Dialect.standard.block.closing⟩]) ++
          (unlessEmpty .text body ++ (closing.pieces Dialect.standard ++ rs)) = inner ++ [q] := by
        rw [(List.cons.inj hps).2]
        simp only [List.append_assoc]
      obtain ⟨inner', rfl, -⟩ | ⟨-, hnil⟩ := eq_append_of_concat hsplit
      · exact absurd rfl (hinner ⟨.blockEnd, Dialect.standard.block.closing⟩ (by simp)).1
      · simp [VerbatimTag.pieces] at hnil
    · obtain ⟨rfl, hsplit⟩ := List.cons.inj hps
      obtain ⟨inner', hrow, rfl⟩ | ⟨hall, -⟩ := eq_append_of_concat hsplit.symm
      · -- a trim marker behind the opening delimiter would be in the content as well
        have hnone := eq_none_of_ofTrim fun p hp =>
          (hinner p (hrow ▸ List.mem_append_left _ hp)).2
        rw [hnone] at hrow hread hpath
        obtain rfl : inner = inner' := hrow
        refine ⟨rfl, hnone, hopen, s₁, ls, hpath, hread.rest_of_eq ?_, hstacks, hleads⟩
        rw [ofTrim, texts_cons, texts_nil, List.append_nil]
        rfl
      · have hmem : q ∈ inner ++ [q] := List.mem_append_right _ List.mem_cons_self
        rw [← hall] at hmem
        exact absurd hq (inner_ofTrim _ _ q hmem tag)

theorem Path.one_le_column {source : Text} {s : State} {ps : List Piece} {ls : List Layer}
    (h : standard.Path source s ps ls) : 1 ≤ s.position.toLocation.column := by
  rw [h.location_eq clean_standard]
  exact Location.one_le_column_walk (Nat.le_refl 1) _

/-- Where only the end of a tag remains, nothing is read before it. -/
theorem Path.eq_nil_of_leads {source : Text} {s : State} {ps : List Piece} {ls : List Layer}
    (h : standard.Path source s ps ls) (hleads : standard.Leads s (inner ++ [q]) last)
    (hnil : last.rest = []) (hrest : s.rest = q.value) : inner = [] := by
  obtain ⟨ls', hpath⟩ := h.leads Dialect.defect?_standard closerOf?_standard hleads
  have hproper := hpath.proper Dialect.defect?_standard clean_standard.visible
  have htexts := hleads.reads.rest_eq
  have hinner : Proper inner := (proper_append.1 (proper_append.1 hproper).2).1
  have hempty : texts inner = [] := by simpa [hnil, hrest] using htexts
  by_contra hne
  exact texts_ne_nil hinner hne hempty

section

variable (htag : tag ≠ .comment)
  (h : standard.Leads (.start Dialect.standard (Dialect.standard.tagText tag none x none))
    (p :: (inner ++ [⟨tag.endKind, Dialect.standard.closing tag⟩])) last)
  (hnil : last.rest = [])
  (hinner : ∀ p ∈ inner, p.kind ≠ tag.endKind ∧ p.kind ≠ .trimming ∧ p.kind ≠ .lineTrimming)
  (m₁ m₂ : Option Trim)

include htag h hnil hinner

/-- Where the trim marker in front of the content is told from what follows, the run with trim
markers reads them and, but for them, what it reads without. -/
theorem exists_leads_marked
    (hm : m₁ = none →
      Dialect.standard.modifierAt (x ++ Dialect.standard.tagTail m₂ tag) = none) :
    ∃ last', standard.Leads (.start Dialect.standard (Dialect.standard.tagText tag m₁ x m₂))
        (p :: (ofTrim Dialect.standard m₁ ++ (inner ++ (ofTrim Dialect.standard m₂ ++
          [⟨tag.endKind, Dialect.standard.closing tag⟩])))) last' ∧
      last'.rest = [] ∧ last'.toStacks = .start := by
  obtain ⟨rfl, -, hopen, s, ls, hpath, hrest, hstacks, hleads⟩ := h.of_tagText htag hinner rfl
  obtain ⟨s', hstart, hrest', hstacks'⟩ := State.exists_leads_tagStart htag hm fun hblock => by
    subst hblock
    exact Dialect.verbatimOpen?_tagText hm (hopen rfl)
  obtain ⟨ls', hpath'⟩ := Path.start.leads Dialect.defect?_standard closerOf?_standard hstart
  have hmode : s.mode = tag.mode := congrArg Stacks.mode hstacks
  have houter : s.outer = [.data] := congrArg Stacks.outer hstacks
  have hdata : tag.mode ≠ .data := (Tag.mode_isExpression htag).1
  have htags : ∀ t, t ≠ .comment → t.mode ∈ s.mode :: s.outer → t = tag := by
    intro t ht hmem
    rw [hmode, houter, List.mem_cons, List.mem_singleton] at hmem
    obtain hsame | hbetween := hmem
    · exact Tag.eq_of_mode_eq ht hsame
    · exact absurd hbetween (Tag.mode_isExpression ht).1
  -- both runs are compared with the one over the content by itself
  have hcarries := State.carries_content hrest hstacks
  have hcarries' := State.carries_content hrest' hstacks'
  obtain ⟨last', hleads', hend, hclosed⟩ := hcarries.exists_leads_content
    (Location.commutes_within hpath.one_le_column) (Location.commutes_within hpath'.one_le_column)
    htag hcarries' hpath hpath' hleads hnil rfl hinner (hmode ▸ hdata) htags
  exact ⟨last', hstart.trans hleads', hend, hclosed⟩

/-- With trim markers beside the delimiters the run reads the markers and, but for them, what it
reads without. -/
theorem exists_leads_tagText :
    ∃ last', standard.Leads (.start Dialect.standard (Dialect.standard.tagText tag m₁ x m₂))
        (p :: (ofTrim Dialect.standard m₁ ++ (inner ++ (ofTrim Dialect.standard m₂ ++
          [⟨tag.endKind, Dialect.standard.closing tag⟩])))) last' ∧
      last'.rest = [] ∧ last'.toStacks = .start := by
  obtain ⟨-, hnone, -, s, ls, hpath, hrest, -, hleads⟩ := h.of_tagText htag hinner rfl
  by_cases hempty : x = [] ∧ m₁ = none
  · -- then the marker in front of the closing delimiter is taken for one of the opening delimiter
    obtain ⟨rfl, rfl⟩ := hempty
    obtain rfl : inner = [] := hpath.eq_nil_of_leads hleads hnil hrest
    exact exists_leads_marked htag h hnil hinner m₂ none fun _ => hnone
  · refine exists_leads_marked htag h hnil hinner m₁ m₂ fun hm₁ => ?_
    have hx : x ≠ [] := fun hx => hempty ⟨hx, hm₁⟩
    rw [Dialect.modifierAt_append hx] at hnone ⊢
    exact hnone

end

end Lexicon

/-! ## The end of the tag -/

/-- Where the template ends with the closing delimiter of a tag, no line break belongs to the end of
the tag. -/
theorem Dialect.Ends.eq_closing {tag : Tag} {v t : Text} (h : standard.Ends tag v)
    (hv : v <:+ t ++ standard.closing tag) : v = standard.closing tag := by
  have hnone {u w : Text} (hu : lineBreakAt u <:+ w ++ ['}']) : lineBreakAt u = [] := by
    obtain hnil | ⟨u', b, hb⟩ := List.eq_nil_or_concat (lineBreakAt u)
    · exact hnil
    · obtain ⟨before, hbefore⟩ := hu
      rw [hb, List.concat_eq_append, ← List.append_assoc] at hbefore
      obtain rfl : b = '}' := (List.cons.inj (List.append_inj' hbefore rfl).2).1
      have hmem : '}' ∈ lineBreakAt u := by simp [hb]
      obtain hbreak | hbreak := mem_lineBreakAt hmem <;> cases hbreak
  cases h with
  | print => rfl
  | block u =>
    have hsuffix : lineBreakAt u <:+ (t ++ ['%']) ++ ['}'] := by
      rw [List.append_assoc]
      exact (List.suffix_append _ _).trans hv
    rw [hnone hsuffix, List.append_nil]
    rfl
  | comment u =>
    have hsuffix : lineBreakAt u <:+ (t ++ ['#']) ++ ['}'] := by
      rw [List.append_assoc]
      exact (List.suffix_append _ _).trans hv
    rw [hnone hsuffix, List.append_nil]
    rfl

/-! ## Tokens -/

/-- The kind and the value of a token. -/
def Token.content (t : Token) : Token.Kind × Option Text := (t.kind, t.value)

/-- The kind and the value of the token that a piece becomes. -/
def Piece.content (p : Piece) : Token.Kind × Option Text := (p.kind, some p.value)

/-- The kinds and the values of the tokens of a stream. -/
def TokenStream.contents (s : TokenStream) : List (Token.Kind × Option Text) :=
  s.tokens.toList.map Token.content

theorem Piece.map_content_tokensFrom (l : Location) (ps : List Piece) :
    (tokensFrom l ps).map Token.content = ps.map content := by
  induction ps generalizing l with
  | nil => rfl
  | cons p ps ih => exact congrArg (p.content :: ·) (ih _)

/-- The tokens of a template that is one tag: the start of the tag, its content without an end of
the tag and without trim markers, the end of the tag, and the end of the template. -/
structure TagTokens (tag : Tag) where
  first : Token
  inner : List Token
  last : Token
  eof : Token
  first_kind : first.kind = tag.startKind
  inner_kind : ∀ t ∈ inner, t.kind ≠ tag.endKind ∧ t.kind ≠ .trimming ∧ t.kind ≠ .lineTrimming
  last_kind : last.kind = tag.endKind
  eof_kind : eof.kind = .eof

namespace TagTokens

variable {tag : Tag} (ts : TagTokens tag)

def toList : List Token := ts.first :: (ts.inner ++ [ts.last, ts.eof])

/-- The kinds and the values with those of trim markers added, one behind the start of the tag and
one before its end. -/
def marked (m₁ m₂ : Option Trim) : List (Token.Kind × Option Text) :=
  ts.first.content :: ((ofTrim Dialect.standard m₁).map Piece.content ++
    (ts.inner.map Token.content ++ ((ofTrim Dialect.standard m₂).map Piece.content ++
      [ts.last.content, ts.eof.content])))

variable {ts} {source : Text} {stream : TokenStream}

/-- The tokens of a tag come from a run over it, and all but the last have a value. -/
theorem exists_path (h : tokenize source = .ok stream) (hts : stream.tokens.toList = ts.toList) :
    ∃ s, Lexicon.standard.Path source s
        (ts.first.piece :: (ts.inner.map Token.piece ++ [ts.last.piece])) [] ∧
      s.rest = [] ∧ (∀ t ∈ ts.first :: (ts.inner ++ [ts.last]), t.content = t.piece.content) ∧
      ts.eof.content = (.eof, none) := by
  obtain ⟨s, ps, hpath, hrest, htokens⟩ := Lexicon.exists_path_of_tokens Dialect.defect?_standard
    Lexicon.clean_standard.visible (Lexer.tokenize_eq_ok_iff.1 h).1
  have hread : s.tokens.toList = tokensFrom Location.start ps := hpath.reads.tokens_eq
  rw [htokens, Array.toList_push, hread] at hts
  have hsplit : tokensFrom Location.start ps ++ [.eof s.position.toLocation] =
      (ts.first :: (ts.inner ++ [ts.last])) ++ [ts.eof] := by
    simpa [toList] using hts
  obtain ⟨hall, heof⟩ := List.append_inj' hsplit rfl
  refine ⟨s, ?_, hrest, fun t ht => ?_, ?_⟩
  · have hps := map_piece_tokensFrom Location.start ps
    rw [hall, List.map_cons, List.map_append] at hps
    exact hps ▸ hpath
  · rw [← hall] at ht
    exact congrArg (t.kind, ·) (value_of_mem_tokensFrom ht)
  · rw [← (List.cons.inj heof).1]
    rfl

theorem marked_eq (hvalue : ∀ t ∈ ts.first :: (ts.inner ++ [ts.last]), t.content = t.piece.content)
    (heof : ts.eof.content = (.eof, none)) (m₁ m₂ : Option Trim) :
    ts.marked m₁ m₂ = (ts.first.piece :: (ofTrim Dialect.standard m₁ ++ (ts.inner.map Token.piece ++
      (ofTrim Dialect.standard m₂ ++ [ts.last.piece])))).map Piece.content ++ [(.eof, none)] := by
  rw [List.forall_mem_cons, List.forall_mem_append, List.forall_mem_singleton] at hvalue
  obtain ⟨hfirst, hinner, hlast⟩ := hvalue
  have hmap : ts.inner.map Token.content = (ts.inner.map Token.piece).map Piece.content := by
    rw [List.map_map]
    exact List.map_congr_left hinner
  simp [marked, hfirst, hmap, hlast, heof]

/-- The last piece of a single tag is its closing delimiter. -/
theorem last_piece (ts : TagTokens tag) {x : Text} {s : State} {p : Piece} {ps : List Piece}
    (hpath : Lexicon.standard.Path (Dialect.standard.tagText tag none x none) s
      (p :: (ps ++ [ts.last.piece])) []) (hrest : s.rest = []) :
    ts.last.piece = ⟨tag.endKind, Dialect.standard.closing tag⟩ := by
  have hget : (p :: (ps ++ [ts.last.piece])).getLast? = some ts.last.piece := by
    rw [← List.cons_append, List.getLast?_concat]
  have hkind : ts.last.piece.kind = tag.endKind := ts.last_kind
  obtain hnil | ⟨-, v, htext⟩ | ⟨tag', v, hend, hends⟩ :=
    hpath.getLast?_of_data (congrArg Stacks.mode hpath.stacks_eq)
  · cases hnil
  · rw [Option.some.inj (hget.symm.trans htext)] at hkind
    cases tag <;> cases hkind
  · have hpiece := Option.some.inj (hget.symm.trans hend)
    rw [hpiece] at hkind
    obtain rfl : tag' = tag := Tag.endKind_injective hkind
    have hsuffix := suffix_of_getLast? hend
    have hsource := hpath.source_eq
    rw [hrest, List.append_nil] at hsource
    have hclosing : Dialect.standard.tagText tag' none x none =
        (Dialect.standard.opening tag' ++ x) ++ Dialect.standard.closing tag' := by
      rw [List.append_assoc]
      rfl
    rw [← hsource, hclosing] at hsuffix
    rw [hpiece, hends.eq_closing hsuffix]

end TagTokens

/-- Trim markers are transparent. A template that is one print or block tag, with the end of the tag
only at the end and without trim markers, has the same kinds and values of tokens with any trim
markers beside its delimiters, but for those of the markers themselves. -/
theorem tokenize_tagText {tag : Tag} (htag : tag ≠ .comment) {x : Text} {stream : TokenStream}
    (h : tokenize (Dialect.standard.tagText tag none x none) = .ok stream) {ts : TagTokens tag}
    (hts : stream.tokens.toList = ts.toList) (m₁ m₂ : Option Trim) :
    ∃ stream', tokenize (Dialect.standard.tagText tag m₁ x m₂) = .ok stream' ∧
      stream'.contents = ts.marked m₁ m₂ := by
  obtain ⟨s, hpath, hrest, hvalue, heof⟩ := TagTokens.exists_path h hts
  have hlast := ts.last_piece hpath hrest
  have hinner : ∀ p ∈ ts.inner.map Token.piece,
      p.kind ≠ tag.endKind ∧ p.kind ≠ .trimming ∧ p.kind ≠ .lineTrimming :=
    List.forall_mem_map.2 ts.inner_kind
  have hleads := hpath.leads_of_start
  rw [hlast] at hleads
  obtain ⟨last', hleads', hnil, hstacks⟩ :=
    Lexicon.exists_leads_tagText htag hleads hrest hinner m₁ m₂
  obtain ⟨stream', hstream, htokens⟩ := Lexer.exists_tokenize (l := .standard)
    (Lexicon.tokens_of_leads Dialect.defect?_standard Lexicon.closerOf?_standard
      Lexicon.clean_standard.visible hleads' hnil hstacks)
  refine ⟨stream', hstream, ?_⟩
  have hread : last'.tokens.toList = tokensFrom Location.start _ := hleads'.reads.tokens_eq
  rw [TagTokens.marked_eq hvalue heof, hlast, TokenStream.contents, htokens, Array.toList_push,
    hread, List.map_append, map_content_tokensFrom]
  rfl

/-- A print tag that holds the name with which three operators begin that have a marker next. -/
def TagTokens.name : TagTokens .print where
  first := ⟨.printStart, some ['{', '{'], ⟨1, 1⟩⟩
  inner := [⟨.name, some ['b'], ⟨1, 3⟩⟩]
  last := ⟨.printEnd, some ['}', '}'], ⟨1, 4⟩⟩
  eof := ⟨.eof, none, ⟨1, 6⟩⟩
  first_kind := rfl
  inner_kind := by decide
  last_kind := rfl
  eof_kind := rfl

/-- That tag with markers on both sides of the name. -/
theorem tokenize_tagText_name : ∃ stream stream',
    tokenize ['{', '{', 'b', '}', '}'] = .ok stream ∧
      stream.tokens.toList = TagTokens.name.toList ∧
      tokenize ['{', '{', '~', 'b', '-', '}', '}'] = .ok stream' ∧
      stream'.contents = [(.printStart, some ['{', '{']), (.lineTrimming, some ['~']),
        (.name, some ['b']), (.trimming, some ['-']), (.printEnd, some ['}', '}']),
        (.eof, none)] := by
  obtain ⟨stream, hstream, hts⟩ : ∃ stream, tokenize ['{', '{', 'b', '}', '}'] = .ok stream ∧
      stream.tokens.toList = TagTokens.name.toList := ⟨_, rfl, rfl⟩
  have htag : Tag.print ≠ .comment := by decide
  obtain ⟨stream', hstream', hcontents⟩ :=
    tokenize_tagText htag (x := ['b']) hstream hts (some .line) (some .whole)
  exact ⟨stream, stream', hstream, hts, hstream', hcontents⟩

end TemplateTokens
