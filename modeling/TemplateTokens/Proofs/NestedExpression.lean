import TemplateTokens.Proofs.Concatenation
import TemplateTokens.Proofs.Lexer.Advance

/-!
# Nested expressions

Names, numbers, groups in brackets and double-quoted strings can be nested in each other without a
bound, in strings by interpolations. A print tag around a row of them, with one space between each
two, has exactly the tokens that the row is written with.

Results:

* `Expression.Item.texts_pieces`: the pieces of an item are its text.
* `Expression.Item.exists_leads`, `Expression.Parts.exists_leads`: the steps over an item, in a tag
  or an interpolation, and over the content of a string read its pieces and leave nothing open.
* `tokenize_print`: the tokens of a print tag around items.
-/

namespace TemplateTokens

open Piece

namespace Expression

/-! ## Items -/

/-- A name that no operator begins with. -/
structure Name where
  text : Text
  letter : text.head?.any isLetter = true
  word : text.all isWordChar = true
  free : text ∉ operatorWords

/-- A number with the digits before and behind the point; without a point if there are none
behind. -/
structure Number where
  whole : Text
  fraction : Text
  nonempty : whole ≠ []
  digits : (whole ++ fraction).all Char.isDigit = true

def Number.text (number : Number) : Text := numeral number.whole number.fraction

/-- A pair of brackets. -/
inductive Bracket where
  | round
  | square
  | curly
deriving DecidableEq, Repr

namespace Bracket

def opening : Bracket → Char
  | round => '('
  | square => '['
  | curly => '{'

def closing : Bracket → Char
  | round => ')'
  | square => ']'
  | curly => '}'

theorem mem_brackets (b : Bracket) : ([b.opening], [b.closing]) ∈ brackets := by
  cases b <;> decide

theorem opening_ne (b : Bracket) : [b.opening] ≠ Lexicon.standard.interpolation.opening := by
  cases b <;> decide

theorem isBlank_closing (b : Bracket) : isBlank b.closing = false := by cases b <;> decide

end Bracket

/-- A piece of a string, empty where there is none. -/
structure Chunk where
  text : Text
  plain : Plain text

mutual

/-- A part of an expression that may have others inside. -/
inductive Item where
  | name (name : Name)
  | number (number : Number)
  | group (bracket : Bracket) (items : List Item)
  | string (parts : Parts)

/-- The content of a string: interpolations, each with at least one item inside, and the chunks
before, between and behind them. -/
inductive Parts where
  | last (chunk : Chunk)
  | interpolation (before : Chunk) (first : Item) (more : List Item) (rest : Parts)

end

/-! ## Spelling -/

mutual

/-- The text of an item. -/
def Item.text : Item → Text
  | .name name => name.text
  | .number number => number.text
  | .group bracket items => bracket.opening :: (Item.joined [] items ++ [bracket.closing])
  | .string parts => '"' :: (parts.text ++ ['"'])

/-- The text of items with a space before each but the first, and `gap` before that. -/
def Item.joined : Text → List Item → Text
  | _, [] => []
  | gap, item :: items => gap ++ (item.text ++ Item.joined [' '] items)

/-- The text of the content of a string. -/
def Parts.text : Parts → Text
  | .last chunk => chunk.text
  | .interpolation before first more rest =>
    before.text ++ (['#', '{', ' '] ++ (first.text ++ Item.joined [' '] more) ++ [' ', '}'] ++
      rest.text)

end

/-- A space. -/
def space : Piece := ⟨.whitespace, [' ']⟩

mutual

/-- The pieces of an item. -/
def Item.pieces : Item → List Piece
  | .name name => [⟨.name, name.text⟩]
  | .number number => [⟨.number, number.text⟩]
  | .group bracket items =>
    [⟨.punctuation, [bracket.opening]⟩] ++ Item.joinedPieces [] items ++
      [⟨.punctuation, [bracket.closing]⟩]
  | .string parts => [⟨.openingQuote, ['"']⟩] ++ parts.pieces ++ [⟨.closingQuote, ['"']⟩]

/-- The pieces of items with a space before each but the first, and `gap` before that. -/
def Item.joinedPieces : Text → List Item → List Piece
  | _, [] => []
  | gap, item :: items =>
    unlessEmpty .whitespace gap ++ (item.pieces ++ Item.joinedPieces [' '] items)

/-- The pieces of the content of a string. -/
def Parts.pieces : Parts → List Piece
  | .last chunk => unlessEmpty .string chunk.text
  | .interpolation before first more rest =>
    unlessEmpty .string before.text ++
      ([⟨.interpolationStart, ['#', '{']⟩, space] ++
        (first.pieces ++ Item.joinedPieces [' '] more) ++
        [space, ⟨.interpolationEnd, ['}']⟩] ++ rest.pieces)

end

mutual

/-- The pieces of an item are its text. -/
theorem Item.texts_pieces (item : Item) : texts item.pieces = item.text := by
  cases item with
  | name name => simp [Item.pieces, Item.text]
  | number number => simp [Item.pieces, Item.text]
  | group bracket items => simp [Item.pieces, Item.text, Item.texts_joinedPieces [] items]
  | string parts => simp [Item.pieces, Item.text, parts.texts_pieces]

theorem Item.texts_joinedPieces (gap : Text) (items : List Item) :
    texts (Item.joinedPieces gap items) = Item.joined gap items := by
  cases items with
  | nil => rfl
  | cons item items =>
    simp [Item.joinedPieces, Item.joined, item.texts_pieces, Item.texts_joinedPieces [' '] items]

theorem Parts.texts_pieces (parts : Parts) : texts parts.pieces = parts.text := by
  cases parts with
  | last chunk => simp [Parts.pieces, Parts.text]
  | interpolation before first more rest =>
    simp [Parts.pieces, Parts.text, space, first.texts_pieces, Item.texts_joinedPieces [' '] more,
      rest.texts_pieces]

end

/-! ## What an item begins with -/

theorem head_of_isWordChar {c : Char} (h : isWordChar c = true) :
    isBlank c = false ∧ c ∉ tagEndChars := by
  constructor
  · rw [Bool.eq_false_iff]
    intro hblank
    rw [isWordChar_of_isWhiteSpace (isWhiteSpace_of_isBlank hblank)] at h
    cases h
  · intro hmem
    have hnot : tagEndChars.any isWordChar = false := by decide
    exact List.any_eq_false.1 hnot c hmem h

theorem Name.exists_text_eq (name : Name) : ∃ c t, name.text = c :: t ∧ isWordChar c = true := by
  obtain ⟨c, hc, hletter⟩ := (Option.any_eq_true _ _).1 name.letter
  obtain ⟨t, ht⟩ := List.head?_eq_some_iff.1 hc
  exact ⟨c, t, ht, isWordChar_of_isLetter hletter⟩

theorem Number.exists_text_eq (number : Number) :
    ∃ c t, number.text = c :: t ∧ isWordChar c = true := by
  obtain ⟨c, t, ht⟩ := List.exists_cons_of_ne_nil number.nonempty
  refine ⟨c, t ++ _, by rw [Number.text, numeral, ht]; rfl, isWordChar_of_isDigit ?_⟩
  exact List.all_eq_true.1 number.digits c (by simp [ht])

/-- An item begins with a character that is neither blank nor ends anything. -/
theorem Item.exists_text_eq (item : Item) :
    ∃ c t, item.text = c :: t ∧ isBlank c = false ∧ c ∉ tagEndChars := by
  cases item with
  | name name =>
    obtain ⟨c, t, ht, hc⟩ := name.exists_text_eq
    exact ⟨c, t, by rw [Item.text, ht], head_of_isWordChar hc⟩
  | number number =>
    obtain ⟨c, t, ht, hc⟩ := number.exists_text_eq
    exact ⟨c, t, by rw [Item.text, ht], head_of_isWordChar hc⟩
  | group bracket items =>
    refine ⟨bracket.opening, _, by rw [Item.text], ?_⟩
    cases bracket <;> decide
  | string parts => exact ⟨'"', _, by rw [Item.text], by decide⟩

theorem Item.atBoundary_joined {items : List Item} {rest : Text} (h : AtBoundary rest) :
    AtBoundary (Item.joined [' '] items ++ rest) := by
  cases items with
  | nil => exact h
  | cons item items => exact ⟨' ', _, by rw [Item.joined]; rfl, by decide⟩

/-! ## Steps over an item -/

section

variable {s : State} {gap rest : Text}

/-- A word or a number is read with its text as it is. -/
theorem exists_leads_plain {kind : Token.Kind} {w : Text}
    (hw : ∃ c t, w = c :: t ∧ isWordChar c = true)
    (hl : ∀ c, Lexicon.standard.lexemeAt? c (w ++ rest) = some (.plain kind w))
    (hmode : s.mode.IsExpression) (hgap : gap.all isBlank = true)
    (hrest : s.rest = gap ++ (w ++ rest)) :
    ∃ s', Lexicon.standard.Leads s (unlessEmpty .whitespace gap ++ [⟨kind, w⟩]) s' ∧
      s'.toStacks = s.toStacks := by
  obtain ⟨c, t, rfl, hc⟩ := hw
  exact State.exists_leads_lexeme hmode hgap (head_of_isWordChar hc) hrest (hl c) .plain

/-- A bracket is closed where it is the last one that was opened. -/
theorem Bracket.exists_leads_closing (bracket : Bracket) {st : Stacks} {l : Location}
    (hst : s.toStacks = st.push ⟨[bracket.opening], [bracket.closing], l⟩)
    (hmode : st.mode.IsExpression) (hrest : s.rest = bracket.closing :: rest) :
    ∃ s', Lexicon.standard.Leads s [⟨.punctuation, [bracket.closing]⟩] s' ∧
      s'.toStacks = st := by
  have hscope : s.toStacks.scopes.head? = some ⟨[bracket.opening], [bracket.closing], l⟩ := by
    rw [hst]
    rfl
  have hnil : ([] : Text).all isBlank = true := rfl
  have hmode' : s.mode.IsExpression := by
    rw [show s.mode = st.mode from congrArg Stacks.mode hst]
    exact hmode
  obtain ⟨s', hleads, hstacks⟩ := (State.expects_of_opener hmode' hscope
    bracket.opening_ne).exists_leads hnil bracket.isBlank_closing hrest
    (Lexicon.lexemeAt?_closing bracket.mem_brackets rest) (.closing hscope rfl)
  exact ⟨s', hleads, hstacks.trans (congrArg Stacks.pop hst)⟩

end

/-- A string is recognised whole, or it has an interpolation in it. -/
theorem Parts.lexemeAt?_eq (parts : Parts) (rest : Text) :
    (∃ chunk, parts = .last chunk) ∨
      Lexicon.standard.lexemeAt? '"' ('"' :: (parts.text ++ '"' :: rest)) = some .quote := by
  cases parts with
  | last chunk => exact Or.inl ⟨chunk, rfl⟩
  | interpolation before first more parts =>
    refine Or.inr ?_
    rw [Parts.text, List.append_assoc]
    exact Lexicon.lexemeAt?_quote before.plain _

/-! ## Steps over items and strings -/

mutual

/-- The steps over an item read its pieces and leave nothing open. -/
theorem Item.exists_leads (item : Item) {s : State} {st : Stacks} {gap rest : Text}
    (hst : s.toStacks = st) (hmode : st.mode.IsExpression) (hgap : gap.all isBlank = true)
    (hrest : s.rest = gap ++ (item.text ++ rest)) (hstop : AtBoundary rest) :
    ∃ s', Lexicon.standard.Leads s (unlessEmpty .whitespace gap ++ item.pieces) s' ∧
      s'.toStacks = st := by
  subst hst
  cases item with
  | name name =>
    exact exists_leads_plain name.exists_text_eq
      (Lexicon.lexemeAt?_word name.letter name.word name.free hstop) hmode hgap hrest
  | number number =>
    have hdigits := number.digits
    rw [List.all_append, Bool.and_eq_true] at hdigits
    exact exists_leads_plain number.exists_text_eq
      (Lexicon.lexemeAt?_number number.nonempty hdigits.1 hdigits.2 hstop) hmode hgap hrest
  | group bracket items =>
    have hc : isBlank bracket.opening = false ∧ bracket.opening ∉ tagEndChars := by
      cases bracket <;> decide
    have hclosing : AtBoundary ([bracket.closing] ++ rest) :=
      ⟨bracket.closing, rest, rfl, by cases bracket <;> decide⟩
    rw [Item.text, List.cons_append, List.append_assoc] at hrest
    obtain ⟨s₁, hopen, hopened⟩ := State.exists_leads_lexeme hmode hgap hc hrest
      (Lexicon.lexemeAt?_opening bracket.mem_brackets _) .opening
    have hrest₁ := hopen.reads.rest_of_eq (by simpa [Lexeme.pieces] using hrest)
    obtain ⟨s₂, hitems, hinside⟩ :=
      Item.exists_leads_joined items hopened hmode rfl hrest₁ hclosing
    have hrest₂ := hitems.reads.rest_of_eq (by rw [Item.texts_joinedPieces, hrest₁])
    obtain ⟨s', hclose, hclosed⟩ := bracket.exists_leads_closing hinside hmode hrest₂
    refine ⟨s', ?_, hclosed⟩
    simpa [Item.pieces, Lexeme.pieces] using hopen.trans (hitems.trans hclose)
  | string parts =>
    have hc : isBlank '"' = false ∧ '"' ∉ tagEndChars := by decide
    rw [Item.text, List.cons_append, List.append_assoc] at hrest
    obtain ⟨chunk, rfl⟩ | hl := parts.lexemeAt?_eq rest
    · have hl := Lexicon.lexemeAt?_quoted chunk.plain rest
      obtain ⟨s', hleads, hstacks⟩ := State.exists_leads_lexeme hmode hgap hc hrest hl .quoted
      exact ⟨s', hleads, hstacks⟩
    · obtain ⟨s₁, hopen, hopened⟩ := State.exists_leads_lexeme hmode hgap hc hrest hl .quote
      have hrest₁ := hopen.reads.rest_of_eq (by simpa [Lexeme.pieces] using hrest)
      obtain ⟨s', hparts, hclosed⟩ := parts.exists_leads hopened hrest₁
      refine ⟨s', ?_, hclosed⟩
      simpa [Item.pieces, Lexeme.pieces] using hopen.trans hparts

/-- So do the steps over a row of items. -/
theorem Item.exists_leads_joined (items : List Item) {s : State} {st : Stacks} {gap rest : Text}
    (hst : s.toStacks = st) (hmode : st.mode.IsExpression) (hgap : gap.all isBlank = true)
    (hrest : s.rest = Item.joined gap items ++ rest) (hstop : AtBoundary rest) :
    ∃ s', Lexicon.standard.Leads s (Item.joinedPieces gap items) s' ∧ s'.toStacks = st := by
  cases items with
  | nil => exact ⟨s, .refl s, hst⟩
  | cons item items =>
    rw [Item.joined, List.append_assoc, List.append_assoc] at hrest
    obtain ⟨s₁, hitem, hstacks⟩ :=
      item.exists_leads hst hmode hgap hrest (Item.atBoundary_joined hstop)
    have hrest₁ := hitem.reads.rest_of_eq (by simpa [item.texts_pieces] using hrest)
    obtain ⟨s', hitems, hstacks'⟩ :=
      Item.exists_leads_joined items hstacks hmode rfl hrest₁ hstop
    refine ⟨s', ?_, hstacks'⟩
    rw [Item.joinedPieces, ← List.append_assoc]
    exact hitem.trans hitems

/-- The steps over the content of a string and the quote behind it read their pieces and close the
string. -/
theorem Parts.exists_leads (parts : Parts) {s : State} {st : Stacks} {l : Location} {rest : Text}
    (hst : s.toStacks = (st.push ⟨['"'], ['"'], l⟩).enter .string)
    (hrest : s.rest = parts.text ++ '"' :: rest) :
    ∃ s', Lexicon.standard.Leads s (parts.pieces ++ [⟨.closingQuote, ['"']⟩]) s' ∧
      s'.toStacks = st := by
  have hmode : s.mode = .string := congrArg Stacks.mode hst
  cases parts with
  | last chunk =>
    obtain ⟨s₁, hchunk, hstacks⟩ := State.exists_leads_piece hmode chunk.plain hrest rfl
    have hst₁ := hstacks.trans hst
    have hrest₁ := hchunk.reads.rest_of_eq (by rw [texts_unlessEmpty]; exact hrest)
    have hcloser : s₁.quoteCloser = ['"'] := by
      rw [State.quoteCloser, show s₁.scopes = _ from congrArg Stacks.scopes hst₁]
      rfl
    obtain ⟨s', hquote, hclosed⟩ :=
      State.exists_leads_closingQuote (congrArg Stacks.mode hst₁) hcloser hrest₁
    refine ⟨s', hchunk.trans hquote, ?_⟩
    rw [hclosed, hst₁]
    rfl
  | interpolation before first more parts =>
    have hsplit : s.rest = before.text ++ (['#', '{'] ++ ([' '] ++ (first.text ++
        (Item.joined [' '] more ++ ([' '] ++ (['}'] ++ (parts.text ++ '"' :: rest))))))) := by
      simpa [Parts.text] using hrest
    have hinside : Mode.interpolation.IsExpression := ⟨by decide, by decide⟩
    have hspace : [' '].all isBlank = true := rfl
    -- the chunk before the interpolation, and its beginning
    obtain ⟨s₁, hchunk, hst₁⟩ := State.exists_leads_piece hmode before.plain hsplit rfl
    have hrest₁ := hchunk.reads.rest_of_eq (by rw [texts_unlessEmpty]; exact hsplit)
    obtain ⟨c, t, ht, hc⟩ := first.exists_text_eq
    have hbegin : s₁.rest = Lexicon.standard.interpolation.opening ++ ([' '] ++ c :: (t ++
        (Item.joined [' '] more ++ ([' '] ++ (['}'] ++ (parts.text ++ '"' :: rest)))))) := by
      rw [hrest₁, ht]
      rfl
    obtain ⟨s₂, hopen, hst₂⟩ := State.exists_leads_interpolation
      ((congrArg Stacks.mode hst₁).trans hmode) rfl hc.1 hbegin
    have hrest₂ : s₂.rest = [] ++ (first.text ++
        (Item.joined [' '] more ++ ([' '] ++ (['}'] ++ (parts.text ++ '"' :: rest))))) := by
      rw [ht]
      exact hopen.reads.rest_of_eq hbegin
    -- its items
    have hbehind : AtBoundary ([' '] ++ (['}'] ++ (parts.text ++ '"' :: rest))) :=
      ⟨' ', _, rfl, by decide⟩
    obtain ⟨s₃, hfirst, hst₃⟩ := first.exists_leads hst₂ hinside rfl hrest₂
      (Item.atBoundary_joined hbehind)
    have hrest₃ := hfirst.reads.rest_of_eq (by simpa [first.texts_pieces] using hrest₂)
    obtain ⟨s₄, hmore, hst₄⟩ :=
      Item.exists_leads_joined more hst₃ hinside rfl hrest₃ hbehind
    have hrest₄ := hmore.reads.rest_of_eq (by rw [Item.texts_joinedPieces, hrest₃])
    -- its end, and the rest of the string
    have hscope := congrArg (fun st : Stacks => st.scopes.head?) hst₄
    obtain ⟨s₅, hclose, hst₅⟩ := State.exists_leads_interpolationEnd
      (congrArg Stacks.mode hst₄) hscope rfl hspace hrest₄
    have hrest₅ := hclose.reads.rest_of_eq (by rw [hrest₄]; rfl)
    have hst₅ : s₅.toStacks = (st.push ⟨['"'], ['"'], l⟩).enter .string := by
      rw [hst₅, hst₄, hst₁, hst]
      rfl
    obtain ⟨s', hparts, hclosed⟩ := parts.exists_leads hst₅ hrest₅
    refine ⟨s', ?_, hclosed⟩
    have hleads := hchunk.trans (hopen.trans (hfirst.trans (hmore.trans (hclose.trans hparts))))
    simpa [Parts.pieces, space, unlessEmpty, Lexicon.standard, Dialect.standard] using hleads

end

/-! ## Rows of items -/

theorem Item.joined_cons (gap : Text) (item : Item) (items : List Item) :
    Item.joined gap (item :: items) =
      gap ++ [' '].intercalate ((item :: items).map Item.text) := by
  induction items generalizing gap item with
  | nil => simp [Item.joined, List.intercalate]
  | cons item' items ih =>
    rw [Item.joined, ih]
    simp [List.intercalate]

theorem Item.joinedPieces_cons (gap : Text) (item : Item) (items : List Item) :
    Item.joinedPieces gap (item :: items) =
      unlessEmpty .whitespace gap ++ [space].intercalate ((item :: items).map Item.pieces) := by
  induction items generalizing gap item with
  | nil => simp [Item.joinedPieces, List.intercalate]
  | cons item' items ih =>
    rw [Item.joinedPieces, ih]
    simp [List.intercalate, unlessEmpty, space]

/-- The steps over a print tag around items. -/
theorem exists_leads_print {items : List Item} (hne : items ≠ []) {source : Text}
    (hsource : source = ['{', '{'] ++ (Item.joined [' '] items ++ ([' '] ++ ['}', '}']))) :
    ∃ s, Lexicon.standard.Leads (.start Dialect.standard source)
        ([⟨.printStart, ['{', '{']⟩] ++ (Item.joinedPieces [' '] items ++
          [space, ⟨.printEnd, ['}', '}']⟩])) s ∧
      s.rest = [] ∧ s.toStacks = .start := by
  obtain ⟨item, items, rfl⟩ := List.exists_cons_of_ne_nil hne
  have hbegin : source = ['{', '{'] ++
      ' ' :: ((item.text ++ Item.joined [' '] items) ++ ([' '] ++ ['}', '}'])) := by
    rw [hsource, Item.joined]
    rfl
  obtain ⟨s₁, hopen, -, hst₁⟩ := State.exists_leads_printStart hbegin
  have hrest₁ := hopen.reads.rest_of_eq hsource
  have hinside : Mode.print.IsExpression := ⟨by decide, by decide⟩
  obtain ⟨s₂, hitems, hst₂⟩ := Item.exists_leads_joined (item :: items) hst₁ hinside rfl hrest₁
    ⟨' ', _, rfl, by decide⟩
  have hrest₂ := hitems.reads.rest_of_eq (by rw [Item.texts_joinedPieces, hrest₁])
  obtain ⟨s₃, hclose, hst₃⟩ := State.exists_leads_printEnd (congrArg Stacks.mode hst₂)
    (congrArg Stacks.scopes hst₂) rfl hrest₂
  have hrest₃ := hclose.reads.rest_of_eq (by rw [hrest₂]; rfl)
  refine ⟨s₃, hopen.trans (hitems.trans hclose), hrest₃, ?_⟩
  rw [hst₃, hst₂]
  rfl

end Expression

theorem Piece.map_tokensFrom (l : Location) (ps : List Piece) :
    (tokensFrom l ps).map (fun t => (t.kind, t.value)) =
      ps.map fun p => (p.kind, some p.value) := by
  induction ps generalizing l with
  | nil => rfl
  | cons p ps ih => rw [tokensFrom, List.map_cons, ih, List.map_cons]

open Expression in
/-- The tokens of a print tag around items, with one space between each two and at both ends: those
of the items and of the spaces, between the two delimiters. -/
theorem tokenize_print {items : List Item} (hne : items ≠ []) :
    ∃ stream, tokenize (['{', '{', ' '] ++ [' '].intercalate (items.map Item.text) ++
        [' ', '}', '}']) = .ok stream ∧
      stream.tokens.toList.map (fun t => (t.kind, t.value)) =
        [(.printStart, some ['{', '{']), (.whitespace, some [' '])] ++
          ([space].intercalate (items.map Item.pieces)).map (fun p => (p.kind, some p.value)) ++
          [(.whitespace, some [' ']), (.printEnd, some ['}', '}']), (.eof, none)] := by
  obtain ⟨item, items, rfl⟩ := List.exists_cons_of_ne_nil hne
  have hsource : ['{', '{', ' '] ++ [' '].intercalate ((item :: items).map Item.text) ++
      [' ', '}', '}'] =
        ['{', '{'] ++ (Item.joined [' '] (item :: items) ++ ([' '] ++ ['}', '}'])) := by
    simp [Item.joined_cons]
  obtain ⟨s, hleads, hrest, hstacks⟩ := exists_leads_print hne hsource
  have htokens := Lexicon.tokens_of_leads Dialect.defect?_standard Lexicon.closerOf?_standard
    Lexicon.clean_standard.visible hleads hrest hstacks
  obtain ⟨stream, hstream, hall⟩ := Lexer.exists_tokenize (l := .standard) htokens
  refine ⟨stream, hstream, ?_⟩
  rw [hall, Array.toList_push, hleads.reads.tokens_eq, List.map_append, List.map_append,
    map_tokensFrom, Item.joinedPieces_cons]
  simp [State.start, unlessEmpty, space, Token.eof]

/-- A name, and a string in parentheses that has a number in braces inside. -/
theorem tokenize_print_nested : ∃ stream,
    tokenize ['{', '{', ' ', 'f', ' ', '(', '"', 'x', '#', '{', ' ', '{', '1', '.', '5', '}', ' ',
        '}', '"', ')', ' ', '}', '}'] = .ok stream ∧
      stream.tokens.toList.map (fun t => (t.kind, t.value)) =
        [(.printStart, some ['{', '{']), (.whitespace, some [' ']), (.name, some ['f']),
          (.whitespace, some [' ']), (.punctuation, some ['(']), (.openingQuote, some ['"']),
          (.string, some ['x']), (.interpolationStart, some ['#', '{']),
          (.whitespace, some [' ']), (.punctuation, some ['{']),
          (.number, some ['1', '.', '5']), (.punctuation, some ['}']),
          (.whitespace, some [' ']), (.interpolationEnd, some ['}']),
          (.closingQuote, some ['"']), (.punctuation, some [')']), (.whitespace, some [' ']),
          (.printEnd, some ['}', '}']), (.eof, none)] := by
  have hfree : ['f'] ∉ operatorWords := by decide
  exact tokenize_print (List.cons_ne_nil
    (Expression.Item.name ⟨['f'], rfl, rfl, hfree⟩)
    [.group .round [.string (.interpolation ⟨['x'], by decide⟩
      (.group .curly [.number ⟨['1'], ['5'], by decide, rfl⟩]) []
      (.last ⟨[], by decide⟩))]])

end TemplateTokens
