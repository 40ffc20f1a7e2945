import TemplateTokens.Proofs.Lexeme.Piece
import TemplateTokens.Proofs.Lexeme.TagStart
import TemplateTokens.Proofs.Position

/-!
# Where the matchers cut

A piece never ends between a carriage return and the line feed behind it. Runs of blanks are taken
whole, the end of a tag takes a line break whole, and every other piece ends with a character or in
front of a character that belongs to no line break, as long as the dialect uses none of these.

Results:

* `Piece.toLocation_stop`: behind pieces that cut no line break is the location behind their text.
* `Lexicon.Starts.cleanCuts`, `TagEnd.cleanCuts`, `CommentEnd.cleanCuts`, `VerbatimTag.cleanCuts`:
  what the matchers find cuts no line break.
-/

namespace TemplateTokens

open Piece

/-! ## Text without line breaks -/

/-- No character of a text is a line break or a half of one. -/
def Unbroken (t : Text) : Prop := ∀ c ∈ t, isLineBreak c = false

theorem all_iff_unbroken {t : Text} : (t.all fun c => !isLineBreak c) = true ↔ Unbroken t := by
  simp [Unbroken]

instance (t : Text) : Decidable (Unbroken t) := decidable_of_decidable_of_iff all_iff_unbroken

/-- No delimiter and neither trim marker has a line break in it. -/
def Dialect.Unbroken (d : Dialect) : Prop :=
  (∀ p ∈ d.delimiters, TemplateTokens.Unbroken p.2) ∧
    isLineBreak d.trim = false ∧ isLineBreak d.lineTrim = false

instance (d : Dialect) : Decidable d.Unbroken := inferInstanceAs (Decidable (_ ∧ _))

theorem Unbroken.cleanCut {s : Text} (h : Unbroken s) (t : Text) : CleanCut s t := by
  refine cleanCut_of_getLast? fun hlast => ?_
  have := h _ (List.mem_of_getLast? hlast)
  cases this

/-- A cut in front of something that has no line break is clean. -/
theorem Unbroken.cleanCut_left {t : Text} (h : Unbroken t) (hne : t ≠ []) (s u : Text) :
    CleanCut s (t ++ u) := by
  cases t with
  | nil => exact absurd rfl hne
  | cons c t =>
    refine cleanCut_of_head? fun hhead => ?_
    obtain rfl : c = '\n' := Option.some.inj hhead
    have := h _ (List.mem_cons_self ..)
    cases this

theorem Unbroken.append {s t : Text} (hs : Unbroken s) (ht : Unbroken t) : Unbroken (s ++ t) := by
  intro c hc
  rcases List.mem_append.1 hc with hc | hc
  · exact hs c hc
  · exact ht c hc

/-- The blanks at the beginning of a text are cut off where something else begins. -/
theorem cleanCut_blanks (s t : Text) : CleanCut s (t.dropWhile isBlank) := by
  refine cleanCut_of_head? fun hhead => ?_
  have := List.head?_dropWhile_not isBlank t
  rw [hhead] at this
  cases this

/-- A line break is taken whole. -/
theorem cleanCut_lineBreakAt {s t rest : Text} (hs : s.getLast? ≠ some '\r')
    (h : t = lineBreakAt t ++ rest) : CleanCut (s ++ lineBreakAt t) rest := by
  fun_cases lineBreakAt t with
  | case1 u => exact cleanCut_of_getLast? (by simp)
  | case2 u hne =>
    refine cleanCut_of_head? fun hhead => ?_
    obtain ⟨v, rfl⟩ := List.head?_eq_some_iff.1 hhead
    rw [lineBreakAt.eq_2 u hne] at h
    exact hne v (List.cons.inj h).2
  | case3 u => exact cleanCut_of_getLast? (by simp)
  | case4 =>
    rw [List.append_nil]
    exact cleanCut_of_getLast? hs

namespace Dialect.Unbroken

variable {d : Dialect}

theorem opening (h : d.Unbroken) (tag : Tag) : TemplateTokens.Unbroken (d.opening tag) := by
  cases tag with
  | print => exact h.1 ("print start", _) (by simp [delimiters])
  | block => exact h.1 ("block start", _) (by simp [delimiters])
  | comment => exact h.1 ("comment start", _) (by simp [delimiters])

theorem print_closing (h : d.Unbroken) : TemplateTokens.Unbroken d.print.closing :=
  h.1 ("print end", _) (by simp [delimiters])

theorem block_closing (h : d.Unbroken) : TemplateTokens.Unbroken d.block.closing :=
  h.1 ("block end", _) (by simp [delimiters])

theorem comment_closing (h : d.Unbroken) : TemplateTokens.Unbroken d.comment.closing :=
  h.1 ("comment end", _) (by simp [delimiters])

theorem interpolation_opening (h : d.Unbroken) : TemplateTokens.Unbroken d.interpolation.opening :=
  h.1 ("interpolation start", _) (by simp [delimiters])

theorem interpolation_closing (h : d.Unbroken) : TemplateTokens.Unbroken d.interpolation.closing :=
  h.1 ("interpolation end", _) (by simp [delimiters])

theorem modifierText (h : d.Unbroken) (m : Option Trim) :
    TemplateTokens.Unbroken (d.modifierText m) := by
  rcases m with _ | ⟨_ | _⟩
  · exact nofun
  · exact List.forall_mem_singleton.2 h.2.1
  · exact List.forall_mem_singleton.2 h.2.2

theorem startText (h : d.Unbroken) (t : TagStart) : TemplateTokens.Unbroken (d.startText t) :=
  (h.opening t.tag).append (h.modifierText t.modifier)

end Dialect.Unbroken

/-! ## Rows of pieces -/

namespace Piece

/-- No end of a piece in a row goes through a line break, where `rest` stands behind the row. -/
def CleanCuts : List Piece → Text → Prop
  | [], _ => True
  | p :: ps, rest => CleanCut p.value (texts ps ++ rest) ∧ CleanCuts ps rest

@[simp] theorem cleanCuts_nil (rest : Text) : CleanCuts [] rest := trivial

@[simp] theorem cleanCuts_cons {p : Piece} {ps : List Piece} {rest : Text} :
    CleanCuts (p :: ps) rest ↔ CleanCut p.value (texts ps ++ rest) ∧ CleanCuts ps rest := Iff.rfl

@[simp] theorem cleanCuts_append {ps qs : List Piece} {rest : Text} :
    CleanCuts (ps ++ qs) rest ↔ CleanCuts ps (texts qs ++ rest) ∧ CleanCuts qs rest := by
  induction ps with
  | nil => simp
  | cons p ps ih => simp [ih, and_assoc]

theorem cleanCuts_unlessEmpty {kind : Token.Kind} {value rest : Text} (h : CleanCut value rest) :
    CleanCuts (unlessEmpty kind value) rest := by
  unfold unlessEmpty
  split
  · trivial
  · exact ⟨h, trivial⟩

theorem cleanCuts_ofTrim {d : Dialect} (h : d.Unbroken) (m : Option Trim) (rest : Text) :
    CleanCuts (ofTrim d m) rest := by
  rcases m with _ | ⟨_ | _⟩
  · trivial
  · exact ⟨(h.modifierText (some .whole)).cleanCut _, trivial⟩
  · exact ⟨(h.modifierText (some .line)).cleanCut _, trivial⟩

/-- Reading on behind pieces that cut no line break. -/
theorem walk_stop {ps : List Piece} {rest : Text} (h : CleanCuts ps rest) (p : Position) :
    (stop p ps).toLocation.walk rest = p.toLocation.walk (texts ps ++ rest) := by
  induction ps generalizing p with
  | nil => rfl
  | cons q ps ih =>
    rw [show stop p (q :: ps) = stop (p.advance q.value) ps from rfl, ih h.2, texts_cons,
      List.append_assoc, Location.walk_append _ h.1, Position.toLocation_advance,
      Location.advance_eq_walk]

theorem CleanCuts.nil_right {ps : List Piece} {rest : Text} (h : CleanCuts ps rest) :
    CleanCuts ps [] := by
  induction ps with
  | nil => trivial
  | cons p ps ih =>
    refine ⟨?_, ih h.2⟩
    rw [List.append_nil]
    exact h.1.of_append

/-- Behind pieces that cut no line break is the location behind their text. -/
theorem toLocation_stop {ps : List Piece} {rest : Text} (h : CleanCuts ps rest) (p : Position) :
    (stop p ps).toLocation = p.toLocation.walk (texts ps) := by
  have hwalk := walk_stop h.nil_right p
  rwa [List.append_nil, Location.walk_nil] at hwalk

end Piece

/-! ## Operators -/

/-- No word of an operator has white space in it. -/
def Lexicon.Solid (lx : Lexicon) : Prop :=
  ∀ o ∈ lx.ranked, ∀ w ∈ o.words, ∀ c ∈ w, isWhiteSpace c = false

theorem isWhiteSpace_of_mem_splitWords {t w : Text} (hw : w ∈ splitWords t) {c : Char}
    (hc : c ∈ w) : isWhiteSpace c = false := by
  have hmem : c ∈ (splitWords t).flatten := List.mem_flatten.2 ⟨w, hw, hc⟩
  rw [flatten_splitWords] at hmem
  simpa using (List.mem_filter.1 hmem).2

theorem Lexicon.solid_ofDialect (d : Dialect) : (Lexicon.ofDialect d).Solid := by
  intro o ho w hw c hc
  obtain ⟨t, -, rfl⟩ := List.mem_map.1 (show o ∈ vocabulary d.operators from ho)
  exact isWhiteSpace_of_mem_splitWords hw hc

/-- An operator ends with the end of one of its words. -/
theorem Operator.exists_word_of_getLast? {ws : List Text} {t v : Text} (hw : ∀ w ∈ ws, w ≠ [])
    (h : wordsAt? ws t = some v) {c : Char} (hc : v.getLast? = some c) : ∃ w ∈ ws, c ∈ w := by
  fun_induction wordsAt? ws t generalizing v with
  | case1 t =>
    cases h
    cases hc
  | case2 t w _ =>
    cases h
    exact ⟨_, List.mem_singleton_self _, List.mem_of_getLast? hc⟩
  | case3 => cases h
  | case4 w ws t hws ih =>
    simp only [Option.bind_eq_some_iff] at h
    obtain ⟨rest, -, h⟩ := h
    split at h
    · cases h
    · obtain ⟨later, hlater, rfl⟩ := Option.map_eq_some_iff.1 h
      have hlast : later ≠ [] :=
        wordsAt?_ne_nil hws (fun w hmem => hw w (List.mem_cons_of_mem _ hmem)) hlater
      rw [List.getLast?_append, Option.or_of_isSome (by simpa using hlast)] at hc
      obtain ⟨w', hw', hcw'⟩ := ih rest (fun w hmem => hw w (List.mem_cons_of_mem _ hmem)) hlater hc
      exact ⟨w', List.mem_cons_of_mem _ hw', hcw'⟩

theorem getLast?_ne_of_operatorAt? {lx : Lexicon} (hv : lx.Visible) (hs : lx.Solid) {t v : Text}
    (h : operatorAt? lx.ranked t = some v) : v.getLast? ≠ some '\r' := by
  intro hlast
  obtain ⟨o, hmem, ho⟩ := List.exists_of_findSome?_eq_some h
  obtain ⟨found, hfound, ho⟩ := Option.bind_eq_some_iff.1 ho
  split at ho
  · cases ho
  · cases ho
    obtain ⟨w, hw, hc⟩ := Operator.exists_word_of_getLast? (hv o hmem).2 hfound hlast
    cases hs o hmem w hw _ hc

/-! ## Names and numbers -/

theorem isLineBreak_of_isNameRest {c : Char} (h : isNameRest c = true) : isLineBreak c = false := by
  cases hb : isLineBreak c with
  | false => rfl
  | true =>
    simp only [isLineBreak, Bool.or_eq_true, decide_eq_true_eq] at hb
    rcases hb with rfl | rfl
    · cases h
    · cases h

theorem isLineBreak_of_isDigit {c : Char} (h : c.isDigit = true) : isLineBreak c = false :=
  isLineBreak_of_isNameRest (by rw [isNameRest, h, Bool.or_true])

theorem unbroken_of_name? {t v : Text} (h : name? t = some v) : Unbroken v := by
  cases t with
  | nil => cases h
  | cons c t =>
    simp only [name?] at h
    split at h
    · rename_i hc
      cases h
      refine List.forall_mem_cons.2 ⟨isLineBreak_of_isNameRest (by rw [isNameRest, hc]; rfl), ?_⟩
      intro b hb
      exact isLineBreak_of_isNameRest (List.all_eq_true.1 List.all_takeWhile b hb)
    · cases h

theorem unbroken_fractionAt (t : Text) : Unbroken (fractionAt t) := by
  have hdigits (u : Text) : Unbroken (u.takeWhile Char.isDigit) := fun c hc =>
    isLineBreak_of_isDigit (List.all_eq_true.1 List.all_takeWhile c hc)
  unfold fractionAt
  split
  · dsimp only
    split
    · exact nofun
    · exact List.forall_mem_cons.2 ⟨rfl, hdigits _⟩
  · exact nofun

theorem unbroken_of_number? {t v : Text} (h : number? t = some v) : Unbroken v := by
  simp only [number?] at h
  split at h
  · cases h
  · cases h
    refine Unbroken.append (fun c hc => ?_) (unbroken_fractionAt _)
    exact isLineBreak_of_isDigit (List.all_eq_true.1 List.all_takeWhile c hc)

/-! ## What the matchers find -/

theorem unbroken_of_closerOf? {opener closer : Text} (h : closerOf? opener = some closer) :
    Unbroken opener := by
  obtain ⟨p, hfind, -⟩ := Option.map_eq_some_iff.1 h
  have heq : p.1 = opener := by simpa using List.find?_some hfind
  have hall : ∀ p ∈ brackets, Unbroken p.1 := by decide
  rw [← heq]
  exact hall p (List.mem_of_find?_eq_some hfind)

theorem unbroken_of_isClosingBracket {t : Text} (h : isClosingBracket t = true) : Unbroken t := by
  obtain ⟨p, hp, heq⟩ := List.any_eq_true.1 h
  have hall : ∀ p ∈ brackets, Unbroken p.2 := by decide
  rw [← beq_iff_eq.1 heq]
  exact hall p hp

theorem isLineBreak_of_isSeparator {c : Char} (h : isSeparator c = true) :
    isLineBreak c = false := by
  simp only [isSeparator, Bool.or_eq_true, decide_eq_true_eq] at h
  rcases h with (((rfl | rfl) | rfl) | rfl) | rfl <;> rfl

/-- The pieces of an expression cut no line break. -/
theorem Lexicon.Starts.cleanCuts {lx : Lexicon} (hv : lx.Visible) (hs : lx.Solid) {t : Text}
    {l : Lexeme} (h : lx.Starts t l) (rest : Text) : CleanCuts l.pieces rest := by
  cases h with
  | operator h => exact ⟨cleanCut_of_getLast? (getLast?_ne_of_operatorAt? hv hs h), trivial⟩
  | name _ h => exact ⟨(unbroken_of_name? h).cleanCut _, trivial⟩
  | number _ _ h => exact ⟨(unbroken_of_number? h).cleanCut _, trivial⟩
  | opening h => exact ⟨(unbroken_of_closerOf? h).cleanCut _, trivial⟩
  | closing h => exact ⟨(unbroken_of_isClosingBracket h).cleanCut _, trivial⟩
  | separator h =>
    exact ⟨Unbroken.cleanCut (List.forall_mem_singleton.2 (isLineBreak_of_isSeparator h)) _,
      trivial⟩
  | @quoted _ string h =>
    have hquote : Unbroken [string.quote] := by
      refine List.forall_mem_singleton.2 ?_
      rcases (Dialect.quotedString?_sound h).1 with hq | hq <;> rw [hq] <;> rfl
    rw [Lexeme.pieces, cleanCuts_append, cleanCuts_append]
    refine ⟨⟨hquote.cleanCut _, trivial⟩, cleanCuts_unlessEmpty ?_, hquote.cleanCut _, trivial⟩
    rw [texts_cons, List.append_assoc]
    exact hquote.cleanCut_left (List.cons_ne_nil _ _) _ _
  | quote => exact ⟨Unbroken.cleanCut (by decide) _, trivial⟩

/-- A delimiter with the line break behind it is cut off clean. -/
theorem cleanCut_of_closingLine? {delimiter t v rest : Text} (hu : Unbroken delimiter)
    (h : closingLine? delimiter t = some v) (e : t = v ++ rest) : CleanCut v rest := by
  obtain ⟨behind, hbehind, rfl⟩ := Option.map_eq_some_iff.1 h
  rw [← isPrefixOf?_eq_some_iff.1 hbehind, List.append_assoc, List.append_cancel_left_eq] at e
  refine cleanCut_lineBreakAt (fun hlast => ?_) e
  cases hu _ (List.mem_of_getLast? hlast)

section Usable

variable {d : Dialect} {t rest : Text}

theorem TagEnd.cleanCuts (hu : d.Unbroken) {kind : Token.Kind} {e : TagEnd}
    (he : CleanCut e.delimiter rest) : CleanCuts (e.pieces d kind) rest := by
  rw [TagEnd.pieces, cleanCuts_append]
  exact ⟨cleanCuts_ofTrim hu _ _, he, trivial⟩

theorem Dialect.cleanCut_of_blockEnd? (hu : d.Unbroken) {e : TagEnd} (h : d.blockEnd? t = some e)
    (ht : t = d.modifierText e.modifier ++ (e.delimiter ++ rest)) : CleanCut e.delimiter rest := by
  simp only [blockEnd?, Option.map_eq_some_iff, Prod.exists] at h
  obtain ⟨m, v, h, rfl⟩ := h
  obtain ⟨behind, rfl, hv⟩ := afterModifier?_sound h
  exact cleanCut_of_closingLine? hu.block_closing hv (List.append_cancel_left ht)

/-- The text of a comment ends in front of the blanks before its end, and these in front of its
end. -/
theorem CommentEnd.cleanCuts (hd : d.defect? = none) (hu : d.Unbroken) {e : CommentEnd}
    (h : d.commentEnd? t = some e) (ht : t = texts (e.pieces d) ++ rest) :
    CleanCuts (e.pieces d) rest := by
  simp only [Dialect.commentEnd?, Option.map_eq_some_iff, Prod.exists] at h
  obtain ⟨before, blank, m, v, h, rfl⟩ := h
  obtain ⟨after, rfl, hafter⟩ := search?_sound h
  obtain ⟨behind, rfl, hall, hbehind⟩ := afterBlanks?_sound hafter
  obtain ⟨last, rfl, hv⟩ := Dialect.afterModifier?_sound hbehind
  have hv' := prefix_of_closingLine? hv
  have hlast : last = v ++ rest := by
    simpa [CommentEnd.pieces, TagEnd.pieces] using ht
  have hcut := cleanCut_of_closingLine? hu.comment_closing hv hlast
  have hend (s : Text) : CleanCut s (d.modifierText m ++ (v ++ rest)) := by
    obtain ⟨more, rfl⟩ := hv'
    have hclosing := Dialect.comment_closing_ne_nil hd
    rw [List.append_assoc, ← List.append_assoc]
    exact ((hu.modifierText m).append hu.comment_closing).cleanCut_left
      (List.append_ne_nil_of_right_ne_nil _ hclosing) _ _
  -- a comment that ended with a blank would have its end earlier
  have hbefore : before.getLast? ≠ some '\r' := by
    intro hlast'
    obtain ⟨pre, rfl⟩ := List.getLast?_eq_some_iff.1 hlast'
    have hnone := search?_first h rfl rfl (List.cons_ne_nil '\r' [])
    have hall' : ('\r' :: blank).all isBlank = true := by simpa [isBlank] using hall
    have hfound : (d.afterModifier? (closingLine? d.comment.closing)
        (d.modifierText m ++ last)).isSome := by
      rw [hbehind]
      rfl
    have hsome := afterBlanks?_isSome hall' hfound
    rw [List.cons_append] at hsome
    rw [List.singleton_append] at hnone
    rw [hnone] at hsome
    cases hsome
  rw [CommentEnd.pieces, cleanCuts_append, cleanCuts_append]
  refine ⟨cleanCuts_unlessEmpty (cleanCut_of_getLast? hbefore), cleanCuts_unlessEmpty ?_,
    TagEnd.cleanCuts hu hcut⟩
  simpa [TagEnd.pieces] using hend blank

theorem VerbatimTag.cleanCuts (hd : d.defect? = none) (hu : d.Unbroken) {tag : VerbatimTag}
    (hne : tag.word ≠ []) (hword : Unbroken tag.word) : CleanCuts (tag.pieces d) rest := by
  have hclosing (s : Text) : CleanCut s (d.modifierText tag.closeModifier ++
      (d.block.closing ++ rest)) := by
    rw [← List.append_assoc]
    exact ((hu.modifierText _).append hu.block_closing).cleanCut_left
      (List.append_ne_nil_of_right_ne_nil _ (Dialect.block_closing_ne_nil hd)) _ _
  have hleading (u : Text) : CleanCut tag.leading (tag.word ++ u) :=
    hword.cleanCut_left hne _ _
  simp only [VerbatimTag.pieces, cleanCuts_append, cleanCuts_cons, cleanCuts_nil, and_true]
  refine ⟨(hu.opening .block).cleanCut _, cleanCuts_ofTrim hu _ _, cleanCuts_unlessEmpty ?_,
    hword.cleanCut _, cleanCuts_unlessEmpty ?_, cleanCuts_ofTrim hu _ _,
    hu.block_closing.cleanCut _⟩
  · simpa using hleading _
  · simpa using hclosing _

end Usable

end TemplateTokens
