import TemplateTokens.Dialect.Defect
import TemplateTokens.Lexeme.Basic
import TemplateTokens.Lexeme.TagEnd
import TemplateTokens.Lexeme.Verbatim
import TemplateTokens.Proofs.Lexer.Piece

/-!
# What the matchers find, as pieces

Each matcher answers with parts of the text it looks at. Here the parts are put back in their
order, as the pieces that a run makes tokens of.

Results:

* `Lexicon.starts_of_lexemeAt?`: how a text starts where a piece of an expression is found.
* `Lexicon.Starts.texts_isPrefix`: the pieces of it are the beginning of the text.
* `Dialect.texts_blockEnd?`, `Dialect.texts_printEnd?`, `Dialect.texts_commentEnd?`,
  `Dialect.texts_wordTag?`: so are those of a tag end and of a verbatim tag.
* `Lexicon.Starts.proper`, `TagEnd.proper`, `VerbatimTag.proper`: in a usable dialect no piece has
  an empty text.
-/

namespace TemplateTokens

open Piece

/-! ## Pieces with a text -/

/-- A row of pieces each of which has a text and none of which is the end of the template. -/
def Piece.Proper (ps : List Piece) : Prop := ∀ p ∈ ps, p.value ≠ [] ∧ p.kind ≠ .eof

namespace Piece

theorem proper_nil : Proper [] := fun _ h => nomatch h

@[simp] theorem proper_cons {p : Piece} {ps : List Piece} :
    Proper (p :: ps) ↔ (p.value ≠ [] ∧ p.kind ≠ .eof) ∧ Proper ps := List.forall_mem_cons

@[simp] theorem proper_append {ps qs : List Piece} : Proper (ps ++ qs) ↔ Proper ps ∧ Proper qs :=
  List.forall_mem_append

theorem proper_unlessEmpty {kind : Token.Kind} (h : kind ≠ .eof) (value : Text) :
    Proper (unlessEmpty kind value) := by
  unfold unlessEmpty
  split
  · exact proper_nil
  · rename_i hne
    exact proper_cons.2 ⟨⟨hne, h⟩, proper_nil⟩

theorem proper_ofTrim (d : Dialect) (m : Option Trim) : Proper (ofTrim d m) := by
  rcases m with _ | ⟨_ | _⟩ <;> simp [ofTrim, proper_nil]

theorem texts_ne_nil {ps : List Piece} (h : Proper ps) (hne : ps ≠ []) : texts ps ≠ [] := by
  cases ps with
  | nil => exact absurd rfl hne
  | cons p ps => simp [(proper_cons.1 h).1.1]

end Piece

/-! ## Pieces of an expression -/

/-- The pieces of a lexeme. -/
def Lexeme.pieces : Lexeme → List Piece
  | .plain kind value => [⟨kind, value⟩]
  | .opening bracket _ => [⟨.punctuation, bracket⟩]
  | .closing bracket => [⟨.punctuation, [bracket]⟩]
  | .quoted string =>
    [⟨.openingQuote, [string.quote]⟩] ++
      (unlessEmpty .string string.body ++ [⟨.closingQuote, [string.quote]⟩])
  | .quote => [⟨.openingQuote, ['"']⟩]

namespace Lexicon

variable {lx : Lexicon}

/-- How a text starts with a piece of an expression. -/
inductive Starts (lx : Lexicon) : Text → Lexeme → Prop
  | operator {t v : Text} : operatorAt? lx.ranked t = some v → Starts lx t (.plain .operator v)
  | name {t v : Text} : operatorAt? lx.ranked t = none → name? t = some v →
      Starts lx t (.plain .name v)
  | number {t v : Text} : operatorAt? lx.ranked t = none → name? t = none → number? t = some v →
      Starts lx t (.plain .number v)
  | opening {c : Char} {t closer : Text} : closerOf? [c] = some closer →
      Starts lx (c :: t) (.opening [c] closer)
  | closing {c : Char} {t : Text} : isClosingBracket [c] = true → Starts lx (c :: t) (.closing c)
  | separator {c : Char} {t : Text} : isSeparator c = true →
      Starts lx (c :: t) (.plain .punctuation [c])
  | quoted {t : Text} {string : QuotedString} : lx.quotedString? t = some string →
      Starts lx t (.quoted string)
  | quote {t : Text} : Starts lx ('"' :: t) .quote

theorem starts_of_lexemeAt? {c : Char} {t : Text} {l : Lexeme}
    (h : lx.lexemeAt? c (c :: t) = some l) : lx.Starts (c :: t) l := by
  unfold lexemeAt? at h
  split at h
  · rename_i v ho
    cases h
    exact .operator ho
  rename_i ho
  split at h
  · rename_i v hn
    cases h
    exact .name ho hn
  rename_i hn
  split at h
  · rename_i v hd
    cases h
    exact .number ho hn hd
  split at h
  · rename_i closer hc
    cases h
    exact .opening hc
  split at h
  · rename_i hc
    cases h
    exact .closing hc
  split at h
  · rename_i hs
    cases h
    exact .separator hs
  split at h
  · rename_i string hq
    cases h
    exact .quoted hq
  split at h
  · rename_i hc
    cases h
    exact hc ▸ .quote
  · cases h

theorem operatorAt?_isPrefix {operators : List Operator} {t v : Text}
    (h : operatorAt? operators t = some v) : v <+: t := by
  obtain ⟨o, -, ho⟩ := List.exists_of_findSome?_eq_some h
  obtain ⟨found, hfound, ho⟩ := Option.bind_eq_some_iff.1 ho
  split at ho
  · cases ho
  · cases ho
    exact Operator.wordsAt?_sound hfound

end Lexicon

theorem Dialect.quotedString?_sound {d : Dialect} {t : Text} {string : QuotedString}
    (h : d.quotedString? t = some string) :
    (string.quote = '"' ∨ string.quote = '\'') ∧
      string.quote :: (string.body ++ [string.quote]) <+: t := by
  unfold quotedString? at h
  split at h
  · obtain ⟨body, hb, rfl⟩ := Option.map_eq_some_iff.1 h
    exact ⟨Or.inl rfl, List.cons_prefix_cons.2 ⟨rfl, quotedBody?_sound hb⟩⟩
  · obtain ⟨body, hb, rfl⟩ := Option.map_eq_some_iff.1 h
    exact ⟨Or.inr rfl, List.cons_prefix_cons.2 ⟨rfl, quotedBody?_sound hb⟩⟩
  · cases h

namespace Lexicon.Starts

variable {lx : Lexicon} {t : Text} {l : Lexeme}

/-- The pieces of a lexeme are the beginning of the text that starts with it. -/
theorem texts_isPrefix (h : lx.Starts t l) : texts l.pieces <+: t := by
  cases h with
  | operator h => simpa [Lexeme.pieces] using operatorAt?_isPrefix h
  | name _ h => simpa [Lexeme.pieces] using name?_sound h
  | number _ _ h => simpa [Lexeme.pieces] using number?_sound h
  | opening h => simp [Lexeme.pieces]
  | closing h => simp [Lexeme.pieces]
  | separator h => simp [Lexeme.pieces]
  | quoted h => simpa [Lexeme.pieces] using (Dialect.quotedString?_sound h).2
  | quote => simp [Lexeme.pieces]

end Lexicon.Starts

/-! ### In a dialect whose operators can be seen -/

/-- Every operator has a character that is not white space. -/
def Dialect.Visible (d : Dialect) : Prop := ∀ o ∈ d.operators, ∃ c ∈ o, isWhiteSpace c = false

theorem Dialect.all_any_iff_visible {d : Dialect} :
    (d.operators.all fun o => o.any fun c => !isWhiteSpace c) = true ↔ d.Visible := by
  simp [Visible]

instance (d : Dialect) : Decidable d.Visible := decidable_of_decidable_of_iff d.all_any_iff_visible

/-- Every operator has a word. -/
def Lexicon.Visible (lx : Lexicon) : Prop := ∀ o ∈ lx.ranked, o.words ≠ [] ∧ ∀ w ∈ o.words, w ≠ []

theorem splitWords_eq_nil_iff {t : Text} : splitWords t = [] ↔ ∀ c ∈ t, isWhiteSpace c = true := by
  constructor
  · intro h
    have hf := flatten_splitWords t
    rw [h] at hf
    simpa using hf.symm
  · intro h
    have hf : (splitWords t).flatten = [] := by
      rw [flatten_splitWords]
      simpa using h
    refine List.eq_nil_iff_forall_not_mem.2 fun w hw => splitWords_ne_nil hw ?_
    exact List.flatten_eq_nil_iff.1 hf w hw

theorem Dialect.Visible.lexicon {d : Dialect} (h : d.Visible) : (Lexicon.ofDialect d).Visible := by
  intro o ho
  obtain ⟨t, ht, rfl⟩ := List.mem_map.1 (show o ∈ vocabulary d.operators from ho)
  refine ⟨fun e => ?_, fun w hw => splitWords_ne_nil hw⟩
  have hblank : ∀ c ∈ t, isWhiteSpace c = true := splitWords_eq_nil_iff.1 e
  have hmem : t ∈ withAssignment d.operators := mem_largestFirst.1 ht
  unfold withAssignment at hmem
  split at hmem
  · obtain ⟨c, hc, hne⟩ := h t hmem
    simp [hblank c hc] at hne
  · rcases List.mem_append.1 hmem with hmem | hmem
    · obtain ⟨c, hc, hne⟩ := h t hmem
      simp [hblank c hc] at hne
    · obtain rfl := List.mem_singleton.1 hmem
      exact absurd (hblank '=' (by simp [assignment])) (by decide)

theorem operatorAt?_ne_nil {lx : Lexicon} (hv : lx.Visible) {t v : Text}
    (h : operatorAt? lx.ranked t = some v) : v ≠ [] := by
  obtain ⟨o, hmem, ho⟩ := List.exists_of_findSome?_eq_some h
  obtain ⟨found, hfound, ho⟩ := Option.bind_eq_some_iff.1 ho
  split at ho
  · cases ho
  · cases ho
    exact Operator.wordsAt?_ne_nil (hv o hmem).1 (hv o hmem).2 hfound

theorem name?_ne_nil {t v : Text} (h : name? t = some v) : v ≠ [] := by
  cases t with
  | nil => cases h
  | cons c t =>
    simp only [name?] at h
    split at h
    · cases h
      simp
    · cases h

theorem number?_ne_nil {t v : Text} (h : number? t = some v) : v ≠ [] := by
  simp only [number?] at h
  split at h
  · cases h
  · rename_i hne
    cases h
    simp only [List.isEmpty_iff] at hne
    simp [hne]

/-- In a dialect whose operators can be seen, every piece of an expression has a text. -/
theorem Lexicon.Starts.proper {lx : Lexicon} (hv : lx.Visible) {t : Text} {l : Lexeme}
    (h : lx.Starts t l) : Proper l.pieces := by
  cases h with
  | operator h => simp [Lexeme.pieces, operatorAt?_ne_nil hv h, proper_nil]
  | name _ h => simp [Lexeme.pieces, name?_ne_nil h, proper_nil]
  | number _ _ h => simp [Lexeme.pieces, number?_ne_nil h, proper_nil]
  | opening h => simp [Lexeme.pieces, proper_nil]
  | closing h => simp [Lexeme.pieces, proper_nil]
  | separator h => simp [Lexeme.pieces, proper_nil]
  | quoted h => simp [Lexeme.pieces, proper_nil, proper_unlessEmpty]
  | quote => simp [Lexeme.pieces, proper_nil]

/-! ## Tag ends -/

/-- The pieces of a tag end. -/
def TagEnd.pieces (d : Dialect) (kind : Token.Kind) (e : TagEnd) : List Piece :=
  ofTrim d e.modifier ++ [⟨kind, e.delimiter⟩]

/-- The pieces of what a comment holds, and of its end. -/
def CommentEnd.pieces (d : Dialect) (e : CommentEnd) : List Piece :=
  unlessEmpty .text e.before ++ (unlessEmpty .whitespace e.blank ++ e.toTagEnd.pieces d .commentEnd)

/-- The pieces of a verbatim tag. -/
def VerbatimTag.pieces (d : Dialect) (tag : VerbatimTag) : List Piece :=
  [⟨.blockStart, d.block.opening⟩] ++ (ofTrim d tag.openModifier ++
    (unlessEmpty .whitespace tag.leading ++ ([⟨.name, tag.word⟩] ++
      (unlessEmpty .whitespace tag.trailing ++ (ofTrim d tag.closeModifier ++
        [⟨.blockEnd, d.block.closing⟩])))))

namespace Dialect

variable {d : Dialect} {t : Text}

theorem texts_blockEnd? {e : TagEnd} (kind : Token.Kind) (h : d.blockEnd? t = some e) :
    texts (e.pieces d kind) <+: t := by
  simpa [TagEnd.pieces] using (blockEnd?_sound h).1

theorem texts_printEnd? {e : TagEnd} (kind : Token.Kind) (h : d.printEnd? t = some e) :
    texts (e.pieces d kind) <+: t := by
  simpa [TagEnd.pieces] using (printEnd?_sound h).1

theorem texts_commentEnd? {e : CommentEnd} (h : d.commentEnd? t = some e) :
    texts (e.pieces d) <+: t := by
  simpa [CommentEnd.pieces, TagEnd.pieces] using (commentEnd?_sound h).1

theorem texts_wordTag? {word : Text} {tag : VerbatimTag} (h : d.wordTag? word t = some tag) :
    texts (tag.pieces d) <+: t := by
  simpa [VerbatimTag.pieces] using (wordTag?_sound h).1

end Dialect

/-! ### In a usable dialect -/

section Usable

variable {d : Dialect} {t : Text}

theorem TagEnd.proper {kind : Token.Kind} (hk : kind ≠ .eof) {e : TagEnd} (he : e.delimiter ≠ []) :
    Proper (e.pieces d kind) := by
  simp [TagEnd.pieces, proper_ofTrim, hk, he, proper_nil]

theorem CommentEnd.proper (h : d.defect? = none) {e : CommentEnd} (he : d.commentEnd? t = some e) :
    Proper (e.pieces d) := by
  have hne : e.delimiter ≠ [] :=
    (Dialect.commentEnd?_sound he).2.ne_nil (Dialect.comment_closing_ne_nil h)
  simp [CommentEnd.pieces, proper_unlessEmpty, TagEnd.proper, hne]

theorem VerbatimTag.proper (h : d.defect? = none) {tag : VerbatimTag} (hw : tag.word ≠ []) :
    Proper (tag.pieces d) := by
  have hopen : d.block.opening ≠ [] := Dialect.opening_ne_nil h .block
  simp [VerbatimTag.pieces, proper_unlessEmpty, proper_ofTrim, proper_nil, hopen, hw,
    Dialect.block_closing_ne_nil h]

end Usable

end TemplateTokens
