import Mathlib.Data.List.Infix
import TemplateTokens.Proofs.Lexer.Standard

/-!
# Text that nothing goes on into

What stands behind the content of a tag is a trim marker and the end of the tag, or the end alone.
No piece of an expression goes on from the content into any of these, although the markers are
operators and parts of operators themselves: such a text is *severed* from whatever stands in front
of it. A matcher that finds its piece in the content finds the same one in front of every severed
text, and in front of none at all.

Results:

* `Lexicon.Severs.operatorAt?_append`, `Lexicon.Severs.lexemeAt?_append`: the piece of an expression
  in front of a severed text does not depend on it.
* `Lexicon.Severs.interpolationOpen?_append`, `Lexicon.Severs.stringPiece_ne`: nor does the start
  of an interpolation in a string, nor a piece of the string that ends before it.
* `Lexicon.severs_tagTail`: what may stand behind the content of a tag in the standard dialect is
  severed from the content.
* `Dialect.exists_tagTail_isPrefix`: the end of a tag does not begin in its content and go on behind
  it because of a trim marker there.
-/

namespace TemplateTokens

variable {t more : Text}

/-! ## Ways of matching -/

theorem takeWhile_append_of_head {p : Char → Bool} (h : ∀ c ∈ more.head?, p c = false) (t : Text) :
    (t ++ more).takeWhile p = t.takeWhile p := by
  induction t with
  | nil =>
    cases more with
    | nil => rfl
    | cons c more => exact List.takeWhile_cons_of_neg (by simp [h c rfl])
  | cons c t ih =>
    rw [List.cons_append, List.takeWhile_cons, List.takeWhile_cons, ih]

theorem dropWhile_append_of_head {p : Char → Bool} (h : ∀ c ∈ more.head?, p c = false) (t : Text) :
    (t ++ more).dropWhile p = t.dropWhile p ++ more :=
  dropWhile_append_of_takeWhile (takeWhile_append_of_head h t)

/-- A text ends in no way in which `more` begins. -/
def Apart (w more : Text) : Prop := ∀ b ∈ w.tails, b <+: more → b = []

instance (w more : Text) : Decidable (Apart w more) :=
  inferInstanceAs (Decidable (∀ b ∈ w.tails, b <+: more → b = []))

theorem Apart.eq_nil {w b : Text} (h : Apart w more) (hb : b <:+ w) (hmore : b <+: more) : b = [] :=
  h b ((List.mem_tails b w).2 hb) hmore

theorem Apart.overlap {w : Text} (h : Apart w more) (t : Text) :
    ∀ b, w = t ++ b → b <+: more → b = [] := by
  rintro b rfl
  exact h.eq_nil (List.suffix_append t b)

/-- If all but the first character of a text stays apart, none of its characters are taken from
`more` where it begins earlier. -/
theorem Apart.overlap_of_tail {w : Text} (h : Apart w.tail more) (ht : t ≠ []) :
    ∀ b, w = t ++ b → b <+: more → b = [] := by
  rintro b rfl
  obtain ⟨c, t, rfl⟩ := List.exists_cons_of_ne_nil ht
  exact h.eq_nil (List.suffix_append t b)

/-! ## Severed texts -/

/-- Nothing in the text before `more` goes on into it: it begins with no character that goes on a
name, a number or white space, or lets an operator end that needs white space, no operator and no
interpolation has its later part there, and no string ends in it. -/
structure Lexicon.Severs (lx : Lexicon) (more : Text) : Prop where
  ne_nil : more ≠ []
  head : ∀ c ∈ more.head?,
    isWhiteSpace c = false ∧ isNameRest c = false ∧ c.isDigit = false ∧ c ≠ '.' ∧ c ≠ '('
  words : ∀ o ∈ lx.ranked,
    (∀ w ∈ o.words.head?, Apart w.tail more) ∧ ∀ w ∈ o.words.tail, Apart w more
  interpolation : Apart lx.interpolation.opening more
  quote_not_mem : '"' ∉ more
  apostrophe_not_mem : '\'' ∉ more

/-! ## Operators -/

namespace Operator

theorem wordsAt?_append_of_overlap {ws : List Text}
    (hspace : ∀ c ∈ more.head?, isWhiteSpace c = false)
    (hfirst : ∀ w ∈ ws.head?, ∀ b, w = t ++ b → b <+: more → b = [])
    (hlater : ∀ w ∈ ws.tail, Apart w more) : wordsAt? ws (t ++ more) = wordsAt? ws t := by
  fun_induction wordsAt? ws t with
  | case1 => rfl
  | case2 w t hpre =>
    rw [wordsAt?, if_pos]
    rw [List.isPrefixOf_iff_prefix] at hpre ⊢
    exact List.prefix_append_of_prefix hpre
  | case3 w t hpre =>
    rw [wordsAt?, if_neg]
    rw [List.isPrefixOf_iff_prefix] at hpre ⊢
    exact fun hmore => hpre (isPrefix_left_of_append (hfirst w rfl) hmore)
  | case4 w ws t hne ih =>
    rw [wordsAt?.eq_3 _ w ws hne, isPrefixOf?_append_of_overlap (hfirst w rfl), Option.bind_map]
    cases w.isPrefixOf? t with
    | none => rfl
    | some rest =>
      have hnext := ih rest (fun w' hw' => (hlater w' (List.mem_of_mem_head? hw')).overlap _)
        fun w' hw' => hlater w' (List.mem_of_mem_tail hw')
      simp only [Option.bind_some, Function.comp_apply, takeWhile_append_of_head hspace,
        dropWhile_append_of_head hspace, hnext]

end Operator

namespace Lexicon.Severs

variable {lx : Lexicon} {c : Char} (h : lx.Severs more)

include h

theorem mayEndBefore_append (t : Text) :
    Operator.mayEndBefore (t ++ more) = Operator.mayEndBefore t := by
  cases t with
  | cons c t => rfl
  | nil =>
    cases hmore : more with
    | nil => rfl
    | cons c u =>
      obtain ⟨hspace, -, -, -, hparen⟩ := h.head c (by rw [hmore]; rfl)
      show (isWhiteSpace c || decide (c = '(')) = false
      rw [hspace, decide_eq_false hparen]
      rfl

/-- An operator is found in front of a severed text as it is without that. -/
theorem operatorAt?_append (ht : t ≠ []) :
    operatorAt? lx.ranked (t ++ more) = operatorAt? lx.ranked t := by
  refine findSome?_congr fun o ho => ?_
  obtain ⟨hfirst, hlater⟩ := h.words o ho
  rw [Operator.at?, Operator.at?, Operator.wordsAt?_append_of_overlap (fun c hc => (h.head c hc).1)
    (fun w hw => (hfirst w hw).overlap_of_tail ht) hlater]
  refine Option.bind_congr fun found hfound => ?_
  obtain ⟨rest, rfl⟩ := Operator.wordsAt?_sound hfound
  rw [List.append_assoc, List.drop_left, List.drop_left, h.mayEndBefore_append]

/-! ## Names, numbers and strings -/

theorem name?_append (c : Char) (t : Text) : name? (c :: (t ++ more)) = name? (c :: t) := by
  rw [name?, name?, takeWhile_append_of_head fun c hc => (h.head c hc).2.1]

theorem fractionAt_append (t : Text) : fractionAt (t ++ more) = fractionAt t := by
  have hdigits := takeWhile_append_of_head fun c hc => (h.head c hc).2.2.1
  cases t with
  | nil =>
    obtain ⟨c, u, rfl⟩ := List.exists_cons_of_ne_nil h.ne_nil
    obtain ⟨-, -, -, hpoint, -⟩ := h.head c rfl
    rw [List.nil_append, fractionAt.eq_2 _ fun u' heq => hpoint (List.cons.inj heq).1]
    rfl
  | cons c t =>
    by_cases hpoint : c = '.'
    · rw [hpoint, List.cons_append, fractionAt, fractionAt, hdigits]
    · rw [List.cons_append, fractionAt.eq_2 _ fun u heq => hpoint (List.cons.inj heq).1,
        fractionAt.eq_2 _ fun u heq => hpoint (List.cons.inj heq).1]

theorem number?_append (t : Text) : number? (t ++ more) = number? t := by
  have hdigits : ∀ c ∈ more.head?, c.isDigit = false := fun c hc => (h.head c hc).2.2.1
  rw [number?, number?, takeWhile_append_of_head hdigits, dropWhile_append_of_head hdigits,
    h.fractionAt_append]

end Lexicon.Severs

/-- A string does not end in a text that does not have its quote. -/
theorem quotedBody?_append_of_not_mem {quote : Char} {barred : Char → Bool} (hq : quote ≠ '\\')
    (hmore : quote ∉ more) (t : Text) :
    quotedBody? quote barred (t ++ more) = quotedBody? quote barred t := by
  have hnone {u : Text} (hu : u <:+ more) : quotedBody? quote barred u = none := by
    refine Option.eq_none_iff_forall_ne_some.2 fun body hbody => hmore (hu.subset ?_)
    exact (quotedBody?_sound hbody).subset (List.mem_append_right body (List.mem_singleton_self _))
  fun_induction quotedBody? quote barred t with
  | case1 => exact hnone List.suffix_rfl
  | case2 c t ih => rw [List.cons_append, List.cons_append, quotedBody?, ih]
  | case3 t =>
    rw [List.cons_append, quotedBody?, if_pos rfl]
    exact fun _ _ hb _ => hq hb
  | case4 c t hne hc hbarred =>
    by_cases hescape : c = '\\' ∧ t = [] ∧ more ≠ []
    · obtain ⟨rfl, rfl, hsome⟩ := hescape
      obtain ⟨b, u, rfl⟩ := List.exists_cons_of_ne_nil hsome
      rw [List.cons_append, List.nil_append, quotedBody?, hnone (List.suffix_cons b u)]
      rfl
    · rw [List.cons_append, quotedBody?, if_neg hc, if_pos hbarred]
      intro b u hb htail
      cases t with
      | nil => exact hescape ⟨hb, rfl, fun hnil => by rw [hnil] at htail; cases htail⟩
      | cons b' t => exact hne b' t hb rfl
  | case5 c t hne hc hbarred ih =>
    have hescape : c ≠ '\\' := fun hb => hbarred (by rw [hb]; rfl)
    rw [List.cons_append, quotedBody?, if_neg hc, if_neg hbarred, ih]
    exact fun _ _ hb _ => hescape hb

/-- Where all of a text is a piece of a string, a piece goes at least up to its end. -/
theorem isPrefix_stringPiece_append {opening : Text} (hopening : Apart opening.tail more)
    (h : stringPiece opening t = t) : t <+: stringPiece opening (t ++ more) := by
  fun_induction stringPiece opening t with
  | case1 => exact List.nil_prefix
  | case2 => cases h
  | case3 c t ih =>
    rw [List.cons_append, List.cons_append, stringPiece]
    exact (List.prefix_cons_inj _).2 ((List.prefix_cons_inj _).2
      (ih (List.cons.inj (List.cons.inj h).2).2))
  | case4 => cases h
  | case5 c t hquote hescape hnot ih =>
    have hih := ih (List.cons.inj h).2
    by_cases hlast : c = '\\' ∧ t = [] ∧ more ≠ []
    · obtain ⟨rfl, rfl, hsome⟩ := hlast
      obtain ⟨b, u, rfl⟩ := List.exists_cons_of_ne_nil hsome
      rw [List.cons_append, List.nil_append, stringPiece]
      exact (List.prefix_cons_inj _).2 List.nil_prefix
    · rw [List.cons_append, stringPiece, if_neg]
      · exact (List.prefix_cons_inj _).2 hih
      · rw [Bool.and_eq_true, List.isPrefixOf_iff_prefix] at hnot ⊢
        refine fun hpre => hnot ⟨hpre.1, ?_⟩
        exact isPrefix_left_of_append (hopening.overlap_of_tail (List.cons_ne_nil c t)) hpre.2
      · exact hquote
      · intro b u hb htail
        cases t with
        | nil => exact hlast ⟨hb, rfl, fun hnil => by rw [hnil] at htail; cases htail⟩
        | cons b' t => exact hescape b' t hb rfl

namespace Lexicon.Severs

variable {lx : Lexicon} {c : Char} (h : lx.Severs more)

include h

theorem quotedString?_append (c : Char) (t : Text) :
    lx.quotedString? (c :: (t ++ more)) = lx.quotedString? (c :: t) := by
  by_cases hquote : c = '"'
  · rw [hquote, Dialect.quotedString?, Dialect.quotedString?,
      quotedBody?_append_of_not_mem (by decide) h.quote_not_mem]
  by_cases hapostrophe : c = '\''
  · rw [hapostrophe, Dialect.quotedString?, Dialect.quotedString?,
      quotedBody?_append_of_not_mem (by decide) h.apostrophe_not_mem]
  · have hnone (u : Text) : lx.quotedString? (c :: u) = none :=
      Dialect.quotedString?.eq_3 _ _ (fun _ heq => hquote (List.cons.inj heq).1)
        fun _ heq => hapostrophe (List.cons.inj heq).1
    rw [hnone, hnone]

/-! ## Pieces of an expression -/

/-- A piece of an expression is found in front of a severed text as it is without that. -/
theorem lexemeAt?_append (c : Char) (t : Text) :
    lx.lexemeAt? c (c :: (t ++ more)) = lx.lexemeAt? c (c :: t) := by
  have hoperator : operatorAt? lx.ranked (c :: (t ++ more)) = operatorAt? lx.ranked (c :: t) :=
    h.operatorAt?_append (List.cons_ne_nil c t)
  have hnumber : number? (c :: (t ++ more)) = number? (c :: t) := h.number?_append (c :: t)
  rw [Lexicon.lexemeAt?, Lexicon.lexemeAt?, hoperator, h.name?_append, hnumber,
    h.quotedString?_append]

theorem not_isBlank : ∀ c ∈ more.head?, isBlank c = false := by
  intro c hc
  rw [Bool.eq_false_iff]
  intro hblank
  have hspace := (h.head c hc).1
  rw [isWhiteSpace_of_isBlank hblank] at hspace
  cases hspace

/-! ## Pieces of a string -/

theorem interpolationOpen?_append (t : Text) :
    lx.interpolationOpen? (t ++ more) = lx.interpolationOpen? t := by
  rw [Dialect.interpolationOpen?, Dialect.interpolationOpen?,
    isPrefixOf?_append_of_overlap (h.interpolation.overlap t), Option.map_map]
  exact Option.map_congr fun rest _ => takeWhile_append_of_head h.not_isBlank rest

/-- A piece of a string that ends before a severed text ends there without that text too. -/
theorem stringPiece_ne (hopening : lx.interpolation.opening ≠ [])
    (hpiece : stringPiece lx.interpolation.opening (t ++ more) <+: t) :
    stringPiece lx.interpolation.opening t ≠ t := by
  intro hall
  have hapart : Apart lx.interpolation.opening.tail more := fun b hb =>
    h.interpolation.eq_nil (((List.mem_tails _ _).1 hb).trans (List.tail_suffix _))
  have hwhole := (isPrefix_stringPiece_append hapart hall).eq_of_length_le hpiece.length_le
  have hstops : t ++ more = stringPiece lx.interpolation.opening (t ++ more) ++ more := by
    rw [← hwhole]
  obtain hnil | ⟨u, hquote⟩ | hopen := stringPiece_stops hstops
  · exact h.ne_nil hnil
  · exact h.quote_not_mem (hquote ▸ List.mem_cons_self)
  · exact hopening (h.interpolation.eq_nil List.suffix_rfl hopen)

end Lexicon.Severs

/-! ## Behind the content of a tag -/

namespace Dialect

/-- The delimiter that closes a tag. -/
def closing (d : Dialect) : Tag → Text
  | .print => d.print.closing
  | .block => d.block.closing
  | .comment => d.comment.closing

/-- What stands behind the content of a tag: a trim marker or none, and the closing delimiter. -/
def tagTail (d : Dialect) (m : Option Trim) (tag : Tag) : Text := d.modifierText m ++ d.closing tag

variable {d : Dialect} {tag : Tag}

theorem mem_modifiers (m : Option Trim) : m ∈ modifiers := by
  rcases m with _ | _ | _ <;> decide

theorem afterModifier?_isSome_iff {α : Type} {find : Text → Option α} :
    (d.afterModifier? find t).isSome ↔
      ∃ m rest, t = d.modifierText m ++ rest ∧ (find rest).isSome := by
  constructor
  · intro h
    obtain ⟨⟨m, found⟩, hfound⟩ := Option.isSome_iff_exists.1 h
    obtain ⟨rest, hrest, hfind⟩ := afterModifier?_sound hfound
    exact ⟨m, rest, hrest, by rw [hfind, Option.isSome_some]⟩
  · rintro ⟨m, rest, rfl, hfind⟩
    refine List.findSome?_isSome_iff.2 ⟨m, mem_modifiers m, ?_⟩
    rw [isPrefixOf?_eq_some_iff.2 rfl, Option.bind_some, Option.isSome_map]
    exact hfind

theorem isSome_isPrefixOf? {s : Text} : (s.isPrefixOf? t).isSome ↔ s <+: t := by
  rw [Option.isSome_iff_exists]
  exact exists_congr fun _ => isPrefixOf?_eq_some_iff

/-- A tag ends where its closing delimiter stands, or a trim marker and the delimiter. -/
theorem tagEnd?_isSome_iff (htag : tag ≠ .comment) :
    (d.tagEnd? tag t).isSome ↔ ∃ m, d.tagTail m tag <+: t := by
  have hends {find : Text → Option Text}
      (hfind : ∀ rest, (find rest).isSome ↔ d.closing tag <+: rest) :
      (d.afterModifier? find t).isSome ↔ ∃ m, d.tagTail m tag <+: t := by
    rw [afterModifier?_isSome_iff]
    refine exists_congr fun m => ?_
    constructor
    · rintro ⟨rest, rfl, hrest⟩
      exact (List.prefix_append_right_inj _).2 ((hfind rest).1 hrest)
    · rintro ⟨behind, rfl⟩
      exact ⟨d.closing tag ++ behind, List.append_assoc .., (hfind _).2 (List.prefix_append _ _)⟩
  cases tag with
  | comment => exact absurd rfl htag
  | print =>
    rw [tagEnd?, printEnd?, Option.isSome_map]
    exact hends fun rest => isSome_isPrefixOf?
  | block =>
    rw [tagEnd?, blockEnd?, Option.isSome_map]
    refine hends fun rest => ?_
    rw [closingLine?, Option.isSome_map]
    exact isSome_isPrefixOf?

theorem tagEnd?_eq_none_iff (htag : tag ≠ .comment) :
    d.tagEnd? tag t = none ↔ ∀ m, ¬ d.tagTail m tag <+: t := by
  rw [← Option.not_isSome_iff_eq_none, tagEnd?_isSome_iff htag, not_exists]

/-- A tag that does not end on a longer text does not end on a shorter one. -/
theorem tagEnd?_of_append (htag : tag ≠ .comment) (h : d.tagEnd? tag (t ++ more) = none) :
    d.tagEnd? tag t = none := by
  rw [tagEnd?_eq_none_iff htag] at h ⊢
  exact fun m hm => h m (List.prefix_append_of_prefix hm)

end Dialect

/-! ## In the standard dialect -/

theorem Lexicon.severs_tagTail {tag : Tag} (htag : tag ≠ .comment) (m : Option Trim) :
    standard.Severs (Dialect.standard.tagTail m tag) := by
  have hhead : ∀ c ∈ (Dialect.standard.tagTail m tag).head?, isWhiteSpace c = false ∧
      isNameRest c = false ∧ c.isDigit = false ∧ c ≠ '.' ∧ c ≠ '(' := by
    cases tag <;> rcases m with _ | _ | _ <;> rintro c ⟨⟩ <;> decide
  cases tag with
  | comment => exact absurd rfl htag
  | print =>
    rcases m with _ | _ | _ <;>
      exact ⟨by decide, hhead, by decide, by decide, by decide, by decide⟩
  | block =>
    rcases m with _ | _ | _ <;>
      exact ⟨by decide, hhead, by decide, by decide, by decide, by decide⟩

theorem Dialect.tagEnd?_tagTail {tag : Tag} (htag : tag ≠ .comment) (m : Option Trim) :
    standard.tagEnd? tag (standard.tagTail m tag) = some ⟨m, standard.closing tag⟩ := by
  cases tag with
  | comment => exact absurd rfl htag
  | print => rcases m with _ | _ | _ <;> rfl
  | block => rcases m with _ | _ | _ <;> rfl

/-- No end of a tag stands behind text and goes on there because of a trim marker: without the
marker there is one as well. -/
theorem Dialect.exists_tagTail_isPrefix {tag : Tag} (htag : tag ≠ .comment) {m n : Option Trim}
    (h : standard.tagTail n tag <+: t ++ standard.tagTail m tag) :
    ∃ n', standard.tagTail n' tag <+: t ++ standard.tagTail none tag := by
  obtain hin | hin := List.prefix_or_prefix_of_prefix h (List.prefix_append t _)
  · exact ⟨n, hin.trans (List.prefix_append t _)⟩
  · -- the end begins in the text, which has room for a part of it only
    have hshort : ∀ tag ∈ [Tag.print, Tag.block], ∀ m ∈ modifiers, ∀ n ∈ modifiers,
        ∀ t ∈ (standard.tagTail n tag).inits,
          standard.tagTail n tag <+: t ++ standard.tagTail m tag →
            ∃ n' ∈ modifiers, standard.tagTail n' tag <+: t ++ standard.tagTail none tag := by decide
    have hmem : tag ∈ [Tag.print, Tag.block] := by
      cases tag with
      | comment => exact absurd rfl htag
      | print => decide
      | block => decide
    obtain ⟨n', -, hn'⟩ := hshort tag hmem m (mem_modifiers m) n (mem_modifiers n) t
      ((List.mem_inits _ _).2 hin) h
    exact ⟨n', hn'⟩

/-- Where no tag ends in front of its closing delimiter, none ends in front of a trim marker and the
delimiter. -/
theorem Dialect.tagEnd?_append_tagTail {tag : Tag} (htag : tag ≠ .comment)
    (h : standard.tagEnd? tag (t ++ standard.tagTail none tag) = none) (m : Option Trim) :
    standard.tagEnd? tag (t ++ standard.tagTail m tag) = none := by
  rw [tagEnd?_eq_none_iff htag] at h ⊢
  intro n hn
  obtain ⟨n', hn'⟩ := exists_tagTail_isPrefix htag hn
  exact h n' hn'

end TemplateTokens
