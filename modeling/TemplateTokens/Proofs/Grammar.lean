import TemplateTokens.Proofs.Lexer.Run

/-!
# The grammar of tokens

The tokens of a template are a word of a context-free grammar: text and tags, expressions inside
of tags, and brackets, strings and interpolations that close in the reverse order in which they
open. While a run is under way the open layers are the rules of the grammar that have been begun.

Results:

* `Pending.shift`: a step adds to the rules that have been begun, begins one or completes one.
* `Lexer.template_of_tokenize`: the tokens of a template are a word of the grammar.
-/

namespace TemplateTokens

open Piece

/-! ## The grammar -/

namespace Grammar

/-- Words of a language, any number of them one behind the other. -/
inductive Star (L : List Piece → Prop) : List Piece → Prop
  | nil : Star L []
  | snoc {ps qs : List Piece} : Star L ps → L qs → Star L (ps ++ qs)

/-- A piece of a kind, or nothing. -/
inductive Maybe (kind : Token.Kind) : List Piece → Prop
  | none : Maybe kind []
  | some {value : Text} : Maybe kind [⟨kind, value⟩]

/-- A trim marker of one of the two kinds, or nothing. -/
inductive MaybeTrim : List Piece → Prop
  | none : MaybeTrim []
  | whole {value : Text} : MaybeTrim [⟨.trimming, value⟩]
  | line {value : Text} : MaybeTrim [⟨.lineTrimming, value⟩]

mutual

/-- A piece of an expression with all that is nested in it. -/
inductive Item : List Piece → Prop
  | whitespace {value : Text} : Item [⟨.whitespace, value⟩]
  | name {value : Text} : Item [⟨.name, value⟩]
  | number {value : Text} : Item [⟨.number, value⟩]
  | operator {value : Text} : Item [⟨.operator, value⟩]
  | separator {c : Char} : c ∈ ['?', ':', '.', ',', '|'] → Item [⟨.punctuation, [c]⟩]
  | group {opener closer : Text} {ps : List Piece} : (opener, closer) ∈ brackets → Star Item ps →
      Item ([⟨.punctuation, opener⟩] ++ ps ++ [⟨.punctuation, closer⟩])
  | quoted {quote : Text} {ps : List Piece} : quote = ['"'] ∨ quote = ['\''] → Maybe .string ps →
      Item ([⟨.openingQuote, quote⟩] ++ ps ++ [⟨.closingQuote, quote⟩])
  | string {ps : List Piece} : Star Part ps →
      Item ([⟨.openingQuote, ['"']⟩] ++ ps ++ [⟨.closingQuote, ['"']⟩])

/-- A part of a double-quoted string. -/
inductive Part : List Piece → Prop
  | string {value : Text} : Part [⟨.string, value⟩]
  | interpolation (opening closing : Text) {ps : List Piece} : Star Item ps →
      Part ([⟨.interpolationStart, opening⟩] ++ ps ++ [⟨.interpolationEnd, closing⟩])

end

/-- A block tag that holds one word. -/
inductive WordTag (word : Text) : List Piece → Prop
  | intro (opening closing : Text) {trim blank blank' trim' : List Piece} :
      MaybeTrim trim → Maybe .whitespace blank → Maybe .whitespace blank' → MaybeTrim trim' →
      WordTag word ([⟨.blockStart, opening⟩] ++ trim ++ blank ++ [⟨.name, word⟩] ++ blank' ++
        trim' ++ [⟨.blockEnd, closing⟩])

/-- A tag with its content, or a verbatim block. -/
inductive Tag : List Piece → Prop
  | print (opening closing : Text) {trim ps trim' : List Piece} :
      MaybeTrim trim → Star Item ps → MaybeTrim trim' →
      Tag ([⟨.printStart, opening⟩] ++ trim ++ ps ++ trim' ++ [⟨.printEnd, closing⟩])
  | block (opening closing : Text) {trim ps trim' : List Piece} :
      MaybeTrim trim → Star Item ps → MaybeTrim trim' →
      Tag ([⟨.blockStart, opening⟩] ++ trim ++ ps ++ trim' ++ [⟨.blockEnd, closing⟩])
  | comment (opening closing : Text) {trim blank text blank' trim' : List Piece} :
      MaybeTrim trim → Maybe .whitespace blank → Maybe .text text → Maybe .whitespace blank' →
      MaybeTrim trim' →
      Tag ([⟨.commentStart, opening⟩] ++ trim ++ blank ++ text ++ blank' ++ trim' ++
        [⟨.commentEnd, closing⟩])
  | verbatim {first text last : List Piece} : WordTag "verbatim".toList first → Maybe .text text →
      WordTag "endverbatim".toList last → Tag (first ++ text ++ last)

/-- A tag and the text before it. -/
inductive Section : List Piece → Prop
  | intro {text ps : List Piece} : Maybe .text text → Tag ps → Section (text ++ ps)

/-- A template: tags with text between them, and the end. -/
inductive Template : List Piece → Prop
  | intro {ps text : List Piece} : Star Section ps → Maybe .text text →
      Template (ps ++ text ++ [⟨.eof, []⟩])

/-! ### Small words -/

theorem Star.one {L : List Piece → Prop} {ps : List Piece} (h : L ps) : Star L ps := Star.nil.snoc h

theorem Star.append {L : List Piece → Prop} {ps qs : List Piece} (hp : Star L ps) (hq : Star L qs) :
    Star L (ps ++ qs) := by
  induction hq with
  | nil => simpa using hp
  | snoc _ hL ih =>
    rw [← List.append_assoc]
    exact ih.snoc hL

theorem maybe_unlessEmpty (kind : Token.Kind) (value : Text) :
    Maybe kind (unlessEmpty kind value) := by
  unfold unlessEmpty
  split
  · exact .none
  · exact .some

theorem maybeTrim_ofTrim (d : Dialect) (m : Option Trim) : MaybeTrim (ofTrim d m) := by
  rcases m with _ | ⟨_ | _⟩
  · exact .none
  · exact .whole
  · exact .line

theorem star_item_unlessEmpty (blank : Text) : Star Item (unlessEmpty .whitespace blank) := by
  unfold unlessEmpty
  split
  · exact .nil
  · exact .one .whitespace

theorem mem_brackets {opener closer : Text} (h : closerOf? opener = some closer) :
    (opener, closer) ∈ brackets := by
  obtain ⟨⟨opener', closer'⟩, hfind, rfl⟩ := Option.map_eq_some_iff.1 h
  have heq : opener' = opener := by simpa using List.find?_some hfind
  exact heq ▸ List.mem_of_find?_eq_some hfind

theorem mem_separators {c : Char} (h : isSeparator c = true) : c ∈ ['?', ':', '.', ',', '|'] := by
  simpa [isSeparator, or_assoc] using h

/-- A piece of an expression that neither opens nor closes anything is an item. -/
theorem item_of_starts {lx : Lexicon} {t : Text} {l : Lexeme} (h : lx.Starts t l) (hw : l.IsWhole) :
    Item l.pieces := by
  cases h with
  | operator => exact .operator
  | name => exact .name
  | number => exact .number
  | opening => exact hw.elim
  | closing => exact hw.elim
  | separator h => exact .separator (mem_separators h)
  | quoted h =>
    rw [Lexeme.pieces, ← List.append_assoc]
    refine .quoted ?_ (maybe_unlessEmpty _ _)
    rcases (Dialect.quotedString?_sound h).1 with hq | hq <;> simp [hq]
  | quote => exact hw.elim

theorem wordTag_pieces (d : Dialect) (tag : VerbatimTag) : WordTag tag.word (tag.pieces d) := by
  have h : WordTag tag.word _ := .intro d.block.opening d.block.closing
    (maybeTrim_ofTrim d tag.openModifier) (maybe_unlessEmpty .whitespace tag.leading)
    (maybe_unlessEmpty .whitespace tag.trailing) (maybeTrim_ofTrim d tag.closeModifier)
  simpa [VerbatimTag.pieces] using h

end Grammar

/-! ## Rules that have been begun -/

open Grammar

/-- What has been read where some layers are open: for each of them, the beginning of a word of its
rule. -/
inductive Pending : List Layer → List Piece → Prop
  | nil {ps : List Piece} : Star Section ps → Pending [] ps
  | tag {t : Tag} (opening : Text) {ps text trim qs : List Piece} : t ≠ .comment → Star Section ps →
      Maybe .text text → MaybeTrim trim → Star Item qs →
      Pending [.tag t] (ps ++ (text ++ ([⟨t.startKind, opening⟩] ++ trim ++ qs)))
  | group {scope : Scope} {ls : List Layer} {ps qs : List Piece} : scope.IsGroup → Pending ls ps →
      Star Item qs → Pending (.group scope :: ls) (ps ++ ([⟨.punctuation, scope.opener⟩] ++ qs))
  | quote (openedAt : Location) {ls : List Layer} {ps qs : List Piece} : Pending ls ps →
      Star Part qs → Pending (.quote openedAt :: ls) (ps ++ ([⟨.openingQuote, ['"']⟩] ++ qs))
  | interpolation (openedAt : Location) (opening : Text) {ls : List Layer} {ps qs : List Piece} :
      Pending ls ps → Star Item qs →
      Pending (.interpolation openedAt :: ls) (ps ++ ([⟨.interpolationStart, opening⟩] ++ qs))

namespace Pending

variable {d : Dialect} {ls : List Layer} {ps qs : List Piece}

/-- Items go on where an expression is being read. -/
theorem items (h : Pending ls ps) (hmode : (Stacks.start.under d ls).mode.IsExpression)
    (hq : Star Item qs) : Pending ls (ps ++ qs) := by
  cases h with
  | nil => exact absurd rfl hmode.1
  | tag opening ht hps htext htrim hqs =>
    have := Pending.tag opening ht hps htext htrim (hqs.append hq)
    simpa using this
  | group hgroup hps hqs => simpa using hps.group hgroup (hqs.append hq)
  | quote => exact absurd rfl hmode.2
  | interpolation openedAt opening hps hqs =>
    have := hps.interpolation openedAt opening (hqs.append hq)
    simpa using this

/-- Parts go on where a string is being read. -/
theorem parts (h : Pending ls ps) (hl : Layered d .start ls)
    (hmode : (Stacks.start.under d ls).mode = .string) (hq : Star Part qs) :
    Pending ls (ps ++ qs) := by
  obtain rfl | ⟨openedAt, ls', rfl⟩ := hl.exists_quote hmode
  · cases hmode
  · cases h with
    | quote _ hps hqs => simpa using hps.quote openedAt (hqs.append hq)

theorem sections (h : Pending [] ps) : Star Section ps := by
  cases h with
  | nil hps => exact hps

/-- The end of a tag completes the tag. -/
theorem closeTag {t : Tag} {blank : Text} {e : TagEnd} (h : Pending (.tag t :: ls) ps) :
    Pending ls (ps ++ (unlessEmpty .whitespace blank ++ e.pieces d t.endKind)) := by
  cases h with
  | @tag _ opening ps _ trim qs ht hps htext htrim hqs =>
    have hitems := hqs.append (star_item_unlessEmpty blank)
    have htrim' := maybeTrim_ofTrim d e.modifier
    have htag : Grammar.Tag ([⟨t.startKind, opening⟩] ++ trim ++
        (qs ++ unlessEmpty .whitespace blank) ++ ofTrim d e.modifier ++
          [⟨t.endKind, e.delimiter⟩]) := by
      cases t with
      | comment => exact absurd rfl ht
      | print => exact .print opening e.delimiter htrim hitems htrim'
      | block => exact .block opening e.delimiter htrim hitems htrim'
    have := hps.snoc (.intro htext htag)
    exact .nil (by simpa [TagEnd.pieces] using this)

/-- A closing bracket completes the group. -/
theorem closeGroup {scope : Scope} {blank : Text} (hl : Layered d .start (.group scope :: ls))
    (h : Pending (.group scope :: ls) ps) :
    Pending ls (ps ++ (unlessEmpty .whitespace blank ++ [⟨.punctuation, scope.closer⟩])) := by
  cases hl with
  | group _ hmode =>
    cases h with
    | group hgroup hps hqs =>
      have hitem := Item.group (mem_brackets hgroup) (hqs.append (star_item_unlessEmpty blank))
      have := hps.items hmode (.one hitem)
      simpa using this

/-- A closing quote completes the string. -/
theorem closeQuote {openedAt : Location} (hl : Layered d .start (.quote openedAt :: ls))
    (h : Pending (.quote openedAt :: ls) ps) : Pending ls (ps ++ [⟨.closingQuote, ['"']⟩]) := by
  cases hl with
  | quote hmode =>
    cases h with
    | quote _ hps hqs =>
      have := hps.items hmode (.one (Item.string hqs))
      simpa using this

/-- The end of an interpolation completes the interpolation. -/
theorem closeInterpolation {openedAt : Location} {blank closing : Text}
    (hl : Layered d .start (.interpolation openedAt :: ls))
    (h : Pending (.interpolation openedAt :: ls) ps) :
    Pending ls (ps ++ (unlessEmpty .whitespace blank ++ [⟨.interpolationEnd, closing⟩])) := by
  cases hl with
  | interpolation hmode hl =>
    cases h with
    | interpolation _ opening hps hqs =>
      have hpart := Part.interpolation opening closing (hqs.append (star_item_unlessEmpty blank))
      have := hps.parts hl hmode (.one hpart)
      simpa using this

/-- A step adds to the rules that have been begun, begins one or completes one; or it reads the
text behind the last tag. -/
theorem shift {lx : Lexicon} {rest : Text} {ls' : List Layer} (hl : Layered lx.toDialect .start ls)
    (h : Pending ls ps) (hshift : lx.Shift .start rest ls qs ls') :
    Pending ls' (ps ++ qs) ∨ ls' = [] ∧ Star Section ps ∧ qs = [⟨.text, rest⟩] := by
  cases hshift with
  | text hmode =>
    obtain rfl := hl.eq_nil_of_mode_eq_data hmode
    exact Or.inr ⟨rfl, h.sections, rfl⟩
  | @comment _ before blank t e hmode htag =>
    obtain rfl := hl.eq_nil_of_mode_eq_data hmode
    have hcomment : Grammar.Tag _ := .comment (lx.opening t.tag) e.delimiter
      (maybeTrim_ofTrim lx.toDialect t.modifier) (maybe_unlessEmpty .whitespace blank)
      (maybe_unlessEmpty .text e.before) (maybe_unlessEmpty .whitespace e.blank)
      (maybeTrim_ofTrim lx.toDialect e.modifier)
    have := h.sections.snoc (.intro (maybe_unlessEmpty .text before) hcomment)
    refine Or.inl (.nil ?_)
    simpa [TagStart.pieces, CommentEnd.pieces, TagEnd.pieces, htag, Tag.startKind] using this
  | @verbatim _ before body opening closing hmode hopen hclose =>
    obtain rfl := hl.eq_nil_of_mode_eq_data hmode
    have hverbatim : Grammar.Tag _ := .verbatim (hopen ▸ wordTag_pieces lx.toDialect opening)
      (maybe_unlessEmpty .text body) (hclose ▸ wordTag_pieces lx.toDialect closing)
    have := h.sections.snoc (.intro (maybe_unlessEmpty .text before) hverbatim)
    exact Or.inl (.nil (by simpa using this))
  | @openTag _ before t hmode htag =>
    obtain rfl := hl.eq_nil_of_mode_eq_data hmode
    have := Pending.tag (lx.opening t.tag) htag h.sections (maybe_unlessEmpty .text before)
      (maybeTrim_ofTrim lx.toDialect t.modifier) .nil
    exact Or.inl (by simpa [TagStart.pieces] using this)
  | closeTag => exact Or.inl h.closeTag
  | blanks hmode => exact Or.inl (h.items hmode (.one .whitespace))
  | lexeme hmode hstart hwhole =>
    have hitems := (star_item_unlessEmpty ‹_›).append (.one (item_of_starts hstart hwhole))
    exact Or.inl (h.items hmode hitems)
  | openGroup hmode hgroup =>
    have := (h.items hmode (star_item_unlessEmpty ‹_›)).group hgroup .nil
    exact Or.inl (by simpa using this)
  | closeGroup => exact Or.inl (h.closeGroup hl)
  | @openQuote _ blank openedAt hmode =>
    have := (h.items hmode (star_item_unlessEmpty blank)).quote openedAt .nil
    exact Or.inl (by simpa using this)
  | stringPiece hmode => exact Or.inl (h.parts hl hmode (.one .string))
  | closeQuote => exact Or.inl (h.closeQuote hl)
  | @openInterpolation _ blank openedAt hmode =>
    have := h.interpolation openedAt lx.interpolation.opening (star_item_unlessEmpty blank)
    exact Or.inl (by simpa using this)
  | closeInterpolation => exact Or.inl (h.closeInterpolation hl)

end Pending

/-! ## Whole templates -/

/-- Along a path the open layers are the rules that have been begun, up to the text behind the last
tag. -/
theorem Lexicon.Path.pending {lx : Lexicon} {source : Text} {s : State} {ps : List Piece}
    {ls : List Layer} (h : lx.Path source s ps ls) :
    Pending ls ps ∨ s.rest = [] ∧ ∃ qs t, Star Section qs ∧ ps = qs ++ [⟨.text, t⟩] := by
  induction h with
  | start => exact Or.inl (.nil .nil)
  | step hpath hne _ _ hread hshift _ ih =>
    rcases ih with hpending | ⟨hnil, -⟩
    · obtain hpending' | ⟨-, hsections, rfl⟩ := hpending.shift hpath.layered hshift
      · exact Or.inl hpending'
      · exact Or.inr ⟨hread.rest_of_eq (by simp), _, _, hsections, rfl⟩
    · exact absurd hnil hne

/-- The tokens of a template are a word of the grammar. -/
theorem Lexer.template_of_tokenize {l : Lexer} (hv : l.dialect.Visible) {source : Text}
    {stream : TokenStream} (h : l.tokenize source = .ok stream) :
    Template (stream.tokens.toList.map Token.piece) := by
  obtain ⟨s, ps, hpath, -, -, htokens⟩ := exists_path_of_tokenize hv h
  rw [htokens, List.map_append, map_piece_tokensFrom]
  rcases hpath.pending with hpending | ⟨-, qs, t, hsections, rfl⟩
  · have := Template.intro hpending.sections .none
    rwa [List.append_nil] at this
  · exact .intro hsections .some

/-- A string with an interpolation that holds a group. -/
theorem Lexer.template_of_nested : Dialect.standard.Visible ∧
    ∃ stream, standard.tokenize
        ['{', '{', '"', '#', '{', '(', 'a', ')', '}', '"', '}', '}'] = .ok stream ∧
      Template (stream.tokens.toList.map Token.piece) := by
  obtain ⟨stream, h⟩ : ∃ stream, standard.tokenize
      ['{', '{', '"', '#', '{', '(', 'a', ')', '}', '"', '}', '}'] = .ok stream := ⟨_, rfl⟩
  exact ⟨by decide, stream, h, template_of_tokenize (by decide) h⟩

end TemplateTokens
