import TemplateTokens.Proofs.Concatenation
import TemplateTokens.Proofs.Lexeme.Spelling
import TemplateTokens.Proofs.Lexer.Advance

/-!
# Verbatim blocks

The tag that opens a verbatim block is known by its word, and the block goes on to the first tag
with the other word. Each of the two may have trim markers and blanks in it. As no such tag has a
brace behind its first character, none begins in the body and ends behind it, so a body in which no
closing tag stands is one text up to the closing tag of the block, whatever else stands in it.

Results:

* `VerbatimTag.wordTag?_text`: a verbatim tag is found where it stands.
* `VerbatimTag.isPrefix_of_isPrefix_append`: one that begins in front of another ends there too.
* `VerbatimBlock.verbatimClose?_eq`: so the body of a block ends with its own closing tag.
* `VerbatimBlock.exists_leads`: one step reads all of the block.
* `tokenize_verbatim`: the tokens of a block, and behind them those of any other template.
-/

namespace TemplateTokens

open Piece

/-! ## Tags around a word -/

/-- What follows the leading blanks of a tag that holds `word`: the trailing blanks and the trim in
front of the end of the tag. -/
def Dialect.wordTagEnd? (d : Dialect) (word t : Text) : Option (Text × Option Trim) :=
  (word.isPrefixOf? t).bind fun rest =>
    (afterBlanks? (d.afterModifier? d.block.closing.isPrefixOf?) rest).map
      fun (trailing, m, _) => (trailing, m)

theorem Dialect.wordTag?_eq (d : Dialect) (word t : Text) :
    d.wordTag? word t = (d.block.opening.isPrefixOf? t).bind fun inside =>
      (d.afterModifier? (afterBlanks? (d.wordTagEnd? word)) inside).map
        fun (openModifier, leading, trailing, closeModifier) =>
          ⟨openModifier, leading, word, trailing, closeModifier⟩ := rfl

namespace VerbatimTag

/-- The text of a verbatim tag. -/
def text (d : Dialect) (tag : VerbatimTag) : Text :=
  d.block.opening ++ (d.modifierText tag.openModifier ++ (tag.leading ++ (tag.word ++
    (tag.trailing ++ (d.modifierText tag.closeModifier ++ d.block.closing)))))

@[simp] theorem texts_pieces (d : Dialect) (tag : VerbatimTag) :
    texts (tag.pieces d) = tag.text d := by
  simp [pieces, text]

/-- A verbatim tag holds a word and blanks around it. -/
structure Holds (tag : VerbatimTag) (word : Text) : Prop where
  word_eq : tag.word = word
  leading : tag.leading.all isBlank = true
  trailing : tag.trailing.all isBlank = true

theorem holds_of_wordTag? {d : Dialect} {word t : Text} {tag : VerbatimTag}
    (h : d.wordTag? word t = some tag) : tag.Holds word ∧ tag.text d <+: t := by
  obtain ⟨hbegins, hword⟩ := Dialect.wordTag?_sound h
  obtain ⟨hleading, htrailing⟩ := Dialect.wordTag?_blank h
  exact ⟨⟨hword, hleading, htrailing⟩, hbegins⟩

theorem isInfix_word (d : Dialect) (tag : VerbatimTag) : tag.word <:+: tag.text d := by
  refine ⟨d.block.opening ++ (d.modifierText tag.openModifier ++ tag.leading),
    tag.trailing ++ (d.modifierText tag.closeModifier ++ d.block.closing), ?_⟩
  simp only [text, List.append_assoc]

/-! ## In the standard dialect -/

theorem modifierAt_of_isBlank {c : Char} (hc : isBlank c = true) (t : Text) :
    Dialect.standard.modifierAt (c :: t) = none := by
  rw [Dialect.modifierAt, if_neg, if_neg]
  · rintro rfl
    exact absurd hc (by decide)
  · rintro rfl
    exact absurd hc (by decide)

variable {tag : VerbatimTag} {c : Char} {word : Text}

/-- The end of a tag stands behind the word. -/
theorem wordTagEnd?_eq (h : tag.trailing.all isBlank = true) (rest : Text) :
    Dialect.standard.wordTagEnd? tag.word (tag.word ++ (tag.trailing ++
        (Dialect.standard.modifierText tag.closeModifier ++
          (Dialect.standard.block.closing ++ rest)))) =
      some (tag.trailing, tag.closeModifier) := by
  have hclosing : Dialect.standard.block.closing.isPrefixOf?
      (Dialect.standard.block.closing ++ rest) = some rest := isPrefixOf?_eq_some_iff.2 rfl
  have hend := Dialect.afterModifier?_eq_some (m := tag.closeModifier) Dialect.defect?_standard
    hclosing fun _ => rfl
  obtain ⟨b, u, hb, hsplit⟩ : ∃ b u, isBlank b = false ∧
      Dialect.standard.modifierText tag.closeModifier ++
        (Dialect.standard.block.closing ++ rest) = b :: u := by
    rcases tag.closeModifier with _ | _ | _
    · exact ⟨'%', _, by decide, rfl⟩
    · exact ⟨'-', _, by decide, rfl⟩
    · exact ⟨'~', _, by decide, rfl⟩
  rw [hsplit] at hend ⊢
  rw [Dialect.wordTagEnd?, isPrefixOf?_eq_some_iff.2 rfl, Option.bind_some,
    afterBlanks?_eq_some h hb hend]
  rfl

/-- What follows the opening delimiter and its trim marker begins with no trim marker if the word
does not. -/
theorem Holds.modifierAt_eq_none (h : tag.Holds (c :: word))
    (hmarker : Dialect.standard.modifierAt [c] = none) (rest : Text) :
    Dialect.standard.modifierAt (tag.leading ++ (tag.word ++ rest)) = none := by
  rw [h.word_eq]
  cases hblanks : tag.leading with
  | nil => exact hmarker
  | cons b blanks =>
    have hall := h.leading
    rw [hblanks, List.all_cons, Bool.and_eq_true] at hall
    exact modifierAt_of_isBlank hall.1 _

/-- A tag around a word that begins neither with a blank nor with a trim marker is found where it
stands. -/
theorem wordTag?_text (h : tag.Holds (c :: word)) (hc : isBlank c = false)
    (hmarker : Dialect.standard.modifierAt [c] = none) (rest : Text) :
    Dialect.standard.wordTag? (c :: word) (tag.text Dialect.standard ++ rest) = some tag := by
  have hend := wordTagEnd?_eq h.trailing rest
  have hnone := h.modifierAt_eq_none hmarker
  rw [h.word_eq] at hend hnone
  have hleading := afterBlanks?_eq_some h.leading hc hend
  have hinside := Dialect.afterModifier?_eq_some (m := tag.openModifier) Dialect.defect?_standard
    hleading fun _ => hnone _
  rw [Dialect.wordTag?_eq, text, h.word_eq]
  simp only [List.append_assoc]
  rw [isPrefixOf?_eq_some_iff.2 rfl, Option.bind_some]
  refine (congrArg (Option.map _) hinside).trans ?_
  rw [Option.map_some, ← h.word_eq]

theorem verbatim_eq : "verbatim".toList = 'v' :: "erbatim".toList := by decide

/-- A tag that opens a verbatim block is found where it stands. -/
theorem verbatimOpen?_text (h : tag.Holds "verbatim".toList) (rest : Text) :
    Dialect.standard.verbatimOpen? (tag.text Dialect.standard ++ rest) = some tag := by
  rw [verbatim_eq] at h
  rw [Dialect.verbatimOpen?, verbatim_eq]
  exact wordTag?_text h (by decide) (by decide) rest

/-- A verbatim tag has a brace where it begins and none behind that. -/
theorem brace_not_mem_tail (h : tag.Holds word) (hword : '{' ∉ word) :
    '{' ∉ (tag.text Dialect.standard).tail := by
  have hblanks {blanks : Text} (hall : blanks.all isBlank = true) : '{' ∉ blanks := by
    intro hmem
    exact absurd (List.all_eq_true.1 hall '{' hmem) (by decide)
  have hmodifier (m : Option Trim) : '{' ∉ Dialect.standard.modifierText m := by
    rcases m with _ | _ | _ <;> decide
  rw [text, h.word_eq]
  show '{' ∉ '%' :: (_ ++ (_ ++ (_ ++ (_ ++ (_ ++ ['%', '}'])))))
  simp only [List.mem_cons, List.mem_append, not_or]
  exact ⟨by decide, hmodifier _, hblanks h.leading, hword, hblanks h.trailing, hmodifier _,
    by decide, by decide, List.not_mem_nil⟩

/-- A verbatim tag that begins in a text in front of another one ends in that text. -/
theorem isPrefix_of_isPrefix_append (h : tag.Holds word) (hword : '{' ∉ word) {other : VerbatimTag}
    {suf rest : Text} (hne : suf ≠ [])
    (hpre : tag.text Dialect.standard <+: suf ++ (other.text Dialect.standard ++ rest)) :
    tag.text Dialect.standard <+: suf := by
  obtain hin | ⟨beyond, hbeyond⟩ :=
    List.prefix_or_prefix_of_prefix hpre (List.prefix_append suf _)
  · exact hin
  · -- what reaches over begins like the other tag, with a brace
    rw [← hbeyond, List.prefix_append_right_inj] at hpre
    cases beyond with
    | nil => exact ⟨[], by rw [← hbeyond, List.append_nil, List.append_nil]⟩
    | cons b beyond =>
      obtain ⟨behind, hbehind⟩ := hpre
      obtain rfl : b = '{' := (List.cons.inj hbehind).1
      obtain ⟨c, suf, rfl⟩ := List.exists_cons_of_ne_nil hne
      refine absurd ?_ (brace_not_mem_tail h hword)
      rw [← hbeyond]
      exact List.mem_append_right suf List.mem_cons_self

end VerbatimTag

/-! ## Blocks -/

/-- A verbatim block in the standard dialect: its two tags, and a body in which no tag closes it. -/
structure VerbatimBlock where
  opening : VerbatimTag
  body : Text
  closing : VerbatimTag
  opening_holds : opening.Holds "verbatim".toList
  closing_holds : closing.Holds "endverbatim".toList
  body_opaque : ∀ tag : VerbatimTag, tag.Holds "endverbatim".toList →
    ¬ tag.text Dialect.standard <:+: body

namespace VerbatimBlock

variable (block : VerbatimBlock)

/-- The text of a block. -/
def text : Text :=
  block.opening.text Dialect.standard ++ (block.body ++ block.closing.text Dialect.standard)

/-- The pieces of a block: those of its tags, and between them the body, unless it is empty. -/
def pieces : List Piece :=
  block.opening.pieces Dialect.standard ++
    (unlessEmpty .text block.body ++ block.closing.pieces Dialect.standard)

@[simp] theorem texts_pieces : texts block.pieces = block.text := by
  simp [pieces, text]

/-- The first tag behind the opening one that closes the block is its closing tag. -/
theorem verbatimClose?_eq (tail : Text) : Dialect.standard.verbatimClose?
    (block.body ++ (block.closing.text Dialect.standard ++ tail)) =
      some (block.body, block.closing) := by
  have hword : "endverbatim".toList = 'e' :: "ndverbatim".toList := by decide
  have hbrace : '{' ∉ "endverbatim".toList := by decide
  have hholds := block.closing_holds
  rw [hword] at hholds
  rw [Dialect.verbatimClose?, hword]
  apply search?_eq_some
  · exact VerbatimTag.wordTag?_text hholds (by decide) (by decide) tail
  · intro pre suf hsplit hne
    apply Option.eq_none_iff_forall_ne_some.2
    intro tag htag
    rw [← hword] at htag
    obtain ⟨hheld, hbegins⟩ := VerbatimTag.holds_of_wordTag? htag
    have hinside := VerbatimTag.isPrefix_of_isPrefix_append hheld hbrace hne hbegins
    apply block.body_opaque tag hheld
    rw [hsplit]
    exact hinside.isInfix.trans (List.suffix_append pre suf).isInfix

/-- One step reads all of a block at the start of a template, and nothing is open behind it. -/
theorem exists_leads (tail : Text) :
    ∃ s, Lexicon.standard.Leads (.start Dialect.standard (block.text ++ tail)) block.pieces s ∧
      s.rest = tail ∧ s.toStacks = .start := by
  have hsource : block.text ++ tail = block.opening.text Dialect.standard ++
      (block.body ++ (block.closing.text Dialect.standard ++ tail)) := by
    simp only [text, List.append_assoc]
  obtain ⟨m, htag⟩ : ∃ m, Dialect.standard.tagAt? (block.text ++ tail) = some (.block, m) :=
    ⟨_, rfl⟩
  obtain ⟨after, hfind⟩ := State.exists_finds_start htag
  have hafter : block.text ++ tail = Lexicon.standard.startText ⟨.block, 0, m⟩ ++ after :=
    hfind.rest_eq
  have hopen : Lexicon.standard.verbatimOpen?
      (Lexicon.standard.startText ⟨.block, 0, m⟩ ++ after) = some block.opening := by
    rw [← hafter, hsource]
    exact VerbatimTag.verbatimOpen?_text block.opening_holds _
  have hrest : Lexicon.standard.startText ⟨.block, 0, m⟩ ++ after =
      texts (block.opening.pieces Dialect.standard) ++
        (block.body ++ (block.closing.text Dialect.standard ++ tail)) := by
    rw [VerbatimTag.texts_pieces, ← hafter, hsource]
  obtain ⟨s, hleads, hstacks⟩ := hfind.exists_leads_verbatim Dialect.defect?_standard rfl hopen
    hrest (block.verbatimClose?_eq tail)
  refine ⟨s, hleads, ?_, hstacks⟩
  exact hleads.reads.rest_of_eq (congrArg (· ++ tail) block.texts_pieces.symm)

end VerbatimBlock

/-- A verbatim block and any template behind it. The tokens of the two are those of the tags and the
body, which is one text whatever stands in it, and those of the template, and an error is that of
the template, both at the locations that they have behind the block. -/
theorem tokenize_verbatim (block : VerbatimBlock) (tail : Text) :
    (∀ st, tokenize tail = .ok st → ∃ s, tokenize (block.text ++ tail) = .ok s ∧
        s.tokens = (tokensFrom Location.start block.pieces).toArray ++
          st.tokens.map (Token.relocate (Location.start.walk block.text).shift) ∧
        s.cursor = st.cursor ∧ s.source = some (block.text ++ tail)) ∧
      ∀ e, tokenize tail = .error e →
        tokenize (block.text ++ tail) =
          .error (e.relocate (Location.start.walk block.text).shift) := by
  obtain ⟨s, hleads, hrest, hstacks⟩ := block.exists_leads tail
  have hread : s.tokens = (tokensFrom Location.start block.pieces).toArray := by
    apply Array.toList_inj.1
    rw [hleads.reads.tokens_eq]
    rfl
  obtain ⟨hok, herror⟩ := Lexicon.tokens_behind hleads hrest hstacks
  rw [← hread]
  constructor
  · intro st hst
    obtain ⟨htokens, hcursor, -⟩ := Lexer.tokenize_eq_ok_iff.1 hst
    obtain ⟨stream, hstream, hall⟩ := Lexer.exists_tokenize (l := .standard) (hok _ htokens)
    obtain ⟨-, hcursor', hsource⟩ := Lexer.tokenize_eq_ok_iff.1 hstream
    exact ⟨stream, hstream, hall, hcursor'.trans hcursor.symm, hsource⟩
  · intro e he
    exact Lexer.tokenize_eq_error_iff.2 (herror e (Lexer.tokenize_eq_error_iff.1 he))

/-- A block whose body opens a print tag, a string, a bracket and a comment, and ends none but a
block tag. -/
def VerbatimBlock.unbalanced : VerbatimBlock where
  opening := ⟨some .whole, [' '], "verbatim".toList, [], none⟩
  body := ['{', '{', ' ', '"', '(', ' ', '{', '#', ' ', '%', '}']
  closing := ⟨none, [], "endverbatim".toList, ['\n'], some .line⟩
  opening_holds := ⟨rfl, by decide, by decide⟩
  closing_holds := ⟨rfl, by decide, by decide⟩
  body_opaque := by
    intro tag htag hinfix
    have hword := (tag.isInfix_word Dialect.standard).trans hinfix
    rw [htag.word_eq] at hword
    exact absurd hword (by decide)

/-- That block in front of a text, and in front of a print tag that is not closed. -/
theorem tokenize_verbatim_unbalanced :
    (∃ st s, tokenize ['a'] = .ok st ∧
        tokenize (VerbatimBlock.unbalanced.text ++ ['a']) = .ok s ∧
        s.tokens = (tokensFrom Location.start VerbatimBlock.unbalanced.pieces).toArray ++
          #[⟨.text, some ['a'], ⟨2, 4⟩⟩, .eof ⟨2, 5⟩]) ∧
      tokenize ['{', '{'] = .error ⟨.unclosed .print ⟨1, 1⟩, ⟨1, 3⟩⟩ ∧
      tokenize (VerbatimBlock.unbalanced.text ++ ['{', '{']) =
        .error ⟨.unclosed .print ⟨2, 4⟩, ⟨2, 6⟩⟩ := by
  have hfail : tokenize ['{', '{'] = .error ⟨.unclosed .print ⟨1, 1⟩, ⟨1, 3⟩⟩ := rfl
  obtain ⟨st, hst, htokens⟩ : ∃ st, tokenize ['a'] = .ok st ∧
      st.tokens = #[⟨.text, some ['a'], ⟨1, 1⟩⟩, .eof ⟨1, 2⟩] := ⟨_, rfl, rfl⟩
  obtain ⟨s, hs, hall, -⟩ := (tokenize_verbatim .unbalanced ['a']).1 st hst
  rw [htokens, List.map_toArray] at hall
  exact ⟨⟨st, s, hst, hs, hall⟩, hfail, (tokenize_verbatim .unbalanced ['{', '{']).2 _ hfail⟩

end TemplateTokens
