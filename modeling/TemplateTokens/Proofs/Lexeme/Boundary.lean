import TemplateTokens.Proofs.Lexer.Standard

/-!
# Pieces in front of a boundary

In the standard dialect a space or a closing bracket ends every word and every number. No operator
begins with a digit, a bracket or a quote, and one that begins like a word is not found in front of
any other word. So what is spelled like a word, a number, a bracket or a string is recognised as
that.

Results:

* `operatorAt?_of_word`, `operatorAt?_of_head`: no operator is found where a word, a number, a
  bracket or a string begins.
* `Lexicon.lexemeAt?_word`, `Lexicon.lexemeAt?_number`, `Lexicon.lexemeAt?_opening`,
  `Lexicon.lexemeAt?_closing`, `Lexicon.lexemeAt?_quoted`, `Lexicon.lexemeAt?_quote`: what is found
  there instead.
* `stringPiece_append_of_plain`: what is neither a quote nor an escape nor begins an interpolation
  belongs to a piece of a string.
-/

namespace TemplateTokens

/-! ## Words -/

/-- A character that a word begins with: an ASCII letter or an underscore. -/
def isLetter (c : Char) : Bool := c.isAlpha || c = '_'

/-- A character of a word. -/
def isWordChar (c : Char) : Bool := isLetter c || c.isDigit

/-- The words that operators of the standard dialect begin with. -/
def operatorWords : List Text :=
  ["or", "and", "is", "not", "in", "matches", "starts", "ends"].map String.toList

theorem isDigit_iff {c : Char} : c.isDigit = true ↔ 48 ≤ c.toNat ∧ c.toNat ≤ 57 := by
  simp only [Char.isDigit, Bool.and_eq_true, decide_eq_true_eq, UInt32.le_iff_toNat_le, ge_iff_le]
  exact Iff.rfl

theorem isLetter_iff {c : Char} : isLetter c = true ↔
    65 ≤ c.toNat ∧ c.toNat ≤ 90 ∨ 97 ≤ c.toNat ∧ c.toNat ≤ 122 ∨ c.toNat = 95 := by
  have hranges : isLetter c = (decide ('A'.val ≤ c.val ∧ c.val ≤ 'Z'.val) ||
      decide ('a'.val ≤ c.val) && decide (c.val ≤ 'z'.val) || decide (c = '_')) := rfl
  simp only [hranges, Bool.or_eq_true, Bool.and_eq_true, decide_eq_true_eq,
    UInt32.le_iff_toNat_le, ← Char.toNat_inj, or_assoc]
  exact Iff.rfl

theorem isWordChar_iff {c : Char} : isWordChar c = true ↔ 48 ≤ c.toNat ∧ c.toNat ≤ 57 ∨
    65 ≤ c.toNat ∧ c.toNat ≤ 90 ∨ 97 ≤ c.toNat ∧ c.toNat ≤ 122 ∨ c.toNat = 95 := by
  rw [isWordChar, Bool.or_eq_true, isLetter_iff, isDigit_iff, or_comm]

theorem isWordChar_of_isLetter {c : Char} (h : isLetter c = true) : isWordChar c = true := by
  rw [isWordChar, h, Bool.true_or]

theorem isWordChar_of_isDigit {c : Char} (h : c.isDigit = true) : isWordChar c = true := by
  rw [isWordChar, h, Bool.or_true]

theorem isNameStart_of_isLetter {c : Char} (h : isLetter c = true) : isNameStart c = true := by
  rw [isNameStart, show (c.isAlpha || decide (c = '_')) = true from h, Bool.true_or]

theorem isNameRest_of_isWordChar {c : Char} (h : isWordChar c = true) : isNameRest c = true := by
  rw [isWordChar, Bool.or_eq_true] at h
  rw [isNameRest, Bool.or_eq_true]
  exact h.imp_left isNameStart_of_isLetter

theorem isNameStart_of_isDigit {c : Char} (h : c.isDigit = true) : isNameStart c = false := by
  rw [isDigit_iff] at h
  have hletter : isLetter c = false := by
    rw [Bool.eq_false_iff, ne_eq, isLetter_iff]
    omega
  rw [isNameStart, show (c.isAlpha || decide (c = '_')) = false from hletter, Bool.false_or,
    decide_eq_false_iff_not]
  omega

/-- White space is not part of a word. -/
theorem isWordChar_of_isWhiteSpace {c : Char} (h : isWhiteSpace c = true) :
    isWordChar c = false := by
  simp only [isWhiteSpace, Bool.or_eq_true, Bool.and_eq_true, decide_eq_true_eq] at h
  rw [Bool.eq_false_iff, ne_eq, isWordChar_iff]
  omega

/-! ## Boundaries -/

/-- The characters of a boundary. -/
def boundaries : List Char := [' ', ')', ']', '}']

/-- A text that begins with a space or a closing bracket. -/
def AtBoundary (t : Text) : Prop := ∃ c u, t = c :: u ∧ c ∈ boundaries

section

variable {s t : Text} {p : Char → Bool}

theorem AtBoundary.takeWhile_append (h : AtBoundary t) (hs : s.all p = true)
    (hp : boundaries.any p = false) : (s ++ t).takeWhile p = s := by
  obtain ⟨c, u, rfl, hc⟩ := h
  rw [List.takeWhile_append_of_pos (List.all_eq_true.1 hs),
    List.takeWhile_cons_of_neg (List.any_eq_false.1 hp c hc), List.append_nil]

theorem AtBoundary.dropWhile_append (h : AtBoundary t) (hs : s.all p = true)
    (hp : boundaries.any p = false) : (s ++ t).dropWhile p = t := by
  obtain ⟨c, u, rfl, hc⟩ := h
  rw [List.dropWhile_append_of_pos (List.all_eq_true.1 hs),
    List.dropWhile_cons_of_neg (List.any_eq_false.1 hp c hc)]

end

/-! ## Operators -/

/-- An operator is found only behind its first word. If that is not all of the operator, or the
operator is guarded, white space or a parenthesis follows the word. -/
theorem Operator.exists_of_at? {o : Operator} {u t v : Text} {us : List Text}
    (hwords : o.words = u :: us) (h : o.at? t = some v) :
    ∃ rest, t = u ++ rest ∧ (o.guarded = true ∨ us ≠ [] → mayEndBefore rest = true) := by
  rw [at?, hwords] at h
  obtain ⟨found, hfound, h⟩ := Option.bind_eq_some_iff.1 h
  cases us with
  | nil =>
    rw [wordsAt?] at hfound
    split at hfound
    · rename_i hpre
      cases hfound
      obtain ⟨rest, rfl⟩ := List.isPrefixOf_iff_prefix.1 hpre
      refine ⟨rest, rfl, fun hmore => ?_⟩
      have hguarded := hmore.resolve_right fun hne => hne rfl
      rw [List.drop_left, hguarded, Bool.true_and] at h
      split at h
      · cases h
      · rename_i hend
        simpa using hend
    · cases hfound
  | cons u' us =>
    rw [wordsAt?.eq_3 _ _ _ (List.cons_ne_nil u' us)] at hfound
    obtain ⟨rest, hrest, hlater⟩ := Option.bind_eq_some_iff.1 hfound
    refine ⟨rest, (isPrefixOf?_eq_some_iff.1 hrest).symm, fun _ => ?_⟩
    cases rest with
    | nil => cases hlater
    | cons c rest =>
      cases hc : isWhiteSpace c with
      | true => rw [mayEndBefore, hc, Bool.true_or]
      | false =>
        rw [List.takeWhile_cons_of_neg (by simp [hc])] at hlater
        cases hlater

/-- How the first words of the operators begin: with a sign, with a letter in front of a sign, or
they are words. In the last case something must follow them. -/
theorem first_word_standard : ∀ o ∈ Lexicon.standard.ranked, ∀ u ∈ o.words.head?,
    u.head?.any (fun c => !isWordChar c) = true ∨ (u.dropWhile isWordChar).head? = some '-' ∨
      (u.all isWordChar = true ∧ u ∈ operatorWords ∧
        (o.guarded = true ∨ o.words.tail ≠ [])) := by decide

theorem exists_first_word : ∀ o ∈ Lexicon.standard.ranked, ∃ u us, o.words = u :: us := by
  intro o ho
  have hne : ∀ o ∈ Lexicon.standard.ranked, o.words ≠ [] := by decide
  exact List.exists_cons_of_ne_nil (hne o ho)

theorem mayEndBefore_of_isWordChar {c : Char} {t : Text} (h : isWordChar c = true) :
    Operator.mayEndBefore (c :: t) = false := by
  have hspace : isWhiteSpace c = false := by
    rw [Bool.eq_false_iff]
    intro hc
    rw [isWordChar_of_isWhiteSpace hc] at h
    cases h
  have hparen : c ≠ '(' := by
    rintro rfl
    cases h
  rw [Operator.mayEndBefore, hspace, Bool.false_or, decide_eq_false hparen]

/-- No operator is found where a word begins that is not the first word of one. -/
theorem operatorAt?_of_word {w rest : Text} (hw : w.all isWordChar = true) (hne : w ≠ [])
    (hfree : w ∉ operatorWords) (hrest : AtBoundary rest) :
    operatorAt? Lexicon.standard.ranked (w ++ rest) = none := by
  refine List.findSome?_eq_none_iff.2 fun o ho => ?_
  refine Option.eq_none_iff_forall_ne_some.2 fun v hv => ?_
  obtain ⟨u, us, hwords⟩ := exists_first_word o ho
  obtain ⟨behind, hsplit, hend⟩ := Operator.exists_of_at? hwords hv
  have hfirst := first_word_standard o ho u (by rw [hwords]; rfl)
  rw [hwords] at hfirst
  have hword : boundaries.any isWordChar = false := by decide
  obtain hsign | hsign | ⟨hall, hmem, hmore⟩ := hfirst
  · obtain ⟨c, hc, hother⟩ := (Option.any_eq_true _ _).1 hsign
    obtain ⟨u', rfl⟩ := List.head?_eq_some_iff.1 hc
    obtain ⟨c', w', rfl⟩ := List.exists_cons_of_ne_nil hne
    obtain rfl : c' = c := (List.cons.inj hsplit).1
    rw [List.all_eq_true.1 hw c' List.mem_cons_self] at hother
    cases hother
  · obtain ⟨u', hu'⟩ := List.head?_eq_some_iff.1 hsign
    have hdrop := congrArg (List.dropWhile isWordChar) hsplit
    rw [hrest.dropWhile_append hw hword, List.dropWhile_append, hu'] at hdrop
    obtain ⟨c, t, rfl, hc⟩ := hrest
    obtain rfl : c = '-' := (List.cons.inj hdrop).1
    revert hc
    decide
  · have htake := congrArg (List.takeWhile isWordChar) hsplit
    rw [hrest.takeWhile_append hw hword,
      List.takeWhile_append_of_pos (List.all_eq_true.1 hall)] at htake
    have hnil : behind.takeWhile isWordChar = [] := by
      cases behind with
      | nil => rfl
      | cons c t =>
        cases hc : isWordChar c with
        | false => rw [List.takeWhile_cons_of_neg (by simp [hc])]
        | true =>
          have hend := hend hmore
          rw [mayEndBefore_of_isWordChar hc] at hend
          cases hend
    rw [hnil, List.append_nil] at htake
    exact hfree (htake ▸ hmem)

/-- The brackets and the quote before a string. -/
def openers : List Char := ['(', '[', '{', ')', ']', '}', '"']

/-- No operator begins with a digit, a bracket or a quote. -/
theorem operatorAt?_of_head {c : Char} {t : Text} (hc : c.isDigit = true ∨ c ∈ openers) :
    operatorAt? Lexicon.standard.ranked (c :: t) = none := by
  refine List.findSome?_eq_none_iff.2 fun o ho => ?_
  refine Option.eq_none_iff_forall_ne_some.2 fun v hv => ?_
  have hfirst : ∀ o ∈ Lexicon.standard.ranked, ∀ u ∈ o.words.head?,
      u.head?.any (fun c => !c.isDigit && !openers.contains c) = true := by decide
  obtain ⟨u, us, hwords⟩ := exists_first_word o ho
  obtain ⟨behind, hsplit, -⟩ := Operator.exists_of_at? hwords hv
  obtain ⟨c', hc', happart⟩ := (Option.any_eq_true _ _).1 (hfirst o ho u (by rw [hwords]; rfl))
  obtain ⟨u', rfl⟩ := List.head?_eq_some_iff.1 hc'
  obtain rfl : c = c' := (List.cons.inj hsplit).1
  rcases hc with hc | hc
  · rw [hc] at happart
    cases happart
  · rw [List.contains_iff_mem.2 hc, Bool.not_true, Bool.and_false] at happart
    cases happart

/-! ## Words and numbers -/

theorem name?_of_word {w rest : Text} (hfirst : w.head?.any isLetter = true)
    (hw : w.all isWordChar = true) (hrest : AtBoundary rest) :
    name? (w ++ rest) = some w := by
  obtain ⟨c, hc, hletter⟩ := (Option.any_eq_true _ _).1 hfirst
  obtain ⟨w, rfl⟩ := List.head?_eq_some_iff.1 hc
  have hall : w.all isNameRest = true := List.all_eq_true.2 fun b hb =>
    isNameRest_of_isWordChar (List.all_eq_true.1 hw b (List.mem_cons_of_mem c hb))
  rw [List.cons_append, name?, if_pos (isNameStart_of_isLetter hletter),
    hrest.takeWhile_append hall (by decide)]

/-- The spelling of a number with the given digits before and behind the point. -/
def numeral (whole fraction : Text) : Text :=
  whole ++ if fraction.isEmpty then [] else '.' :: fraction

theorem number?_of_numeral {whole fraction rest : Text} (hne : whole ≠ [])
    (hwhole : whole.all Char.isDigit = true) (hfraction : fraction.all Char.isDigit = true)
    (hrest : AtBoundary rest) : number? (numeral whole fraction ++ rest) =
      some (numeral whole fraction) := by
  have hdigit : boundaries.any Char.isDigit = false := by decide
  have hempty : whole.isEmpty = false := List.isEmpty_eq_false_iff.2 hne
  cases fraction with
  | nil =>
    have hpoint : fractionAt rest = [] := by
      obtain ⟨c, t, rfl, hc⟩ := hrest
      rw [fractionAt]
      rintro _ heq
      obtain rfl : c = '.' := (List.cons.inj heq).1
      revert hc
      decide
    rw [numeral, List.isEmpty_nil, if_pos rfl, List.append_nil, number?,
      hrest.takeWhile_append hwhole hdigit, hrest.dropWhile_append hwhole hdigit, hempty, hpoint,
      List.append_nil]
    rfl
  | cons c fraction =>
    have hpoint : fractionAt ('.' :: (c :: fraction ++ rest)) = '.' :: (c :: fraction) := by
      rw [fractionAt, hrest.takeWhile_append hfraction hdigit]
      rfl
    rw [numeral, List.isEmpty_cons, if_neg Bool.false_ne_true, List.append_assoc, number?,
      List.takeWhile_append_of_pos (List.all_eq_true.1 hwhole),
      List.dropWhile_append_of_pos (List.all_eq_true.1 hwhole), List.cons_append,
      List.takeWhile_cons_of_neg (by decide), List.dropWhile_cons_of_neg (by decide),
      List.append_nil, hempty, hpoint]
    rfl

/-! ## Strings -/

/-- A text without quotes, escapes and beginnings of interpolations. -/
def Plain (t : Text) : Prop := t.all (fun c => !(['"', '\\', '#'].contains c)) = true

instance (t : Text) : Decidable (Plain t) := inferInstanceAs (Decidable (_ = true))

theorem quotedBody?_append_of_plain {quote : Char} {barred : Char → Bool} {s : Text}
    (hs : ∀ c ∈ s, c ≠ quote ∧ c ≠ '\\' ∧ barred c = false) (t : Text) :
    quotedBody? quote barred (s ++ t) = (quotedBody? quote barred t).map (s ++ ·) := by
  induction s with
  | nil => simp
  | cons c s ih =>
    obtain ⟨hquote, hescape, hbarred⟩ := hs c List.mem_cons_self
    have hrest := ih fun b hb => hs b (List.mem_cons_of_mem c hb)
    rw [List.cons_append, quotedBody?, if_neg hquote, if_neg (by simp [hescape, hbarred]), hrest,
      Option.map_map]
    · rfl
    · exact fun _ _ h _ => hescape h

/-- A piece of a string goes on over characters that could not end it. -/
theorem stringPiece_append_of_plain {opening s : Text} (hopening : opening ≠ [])
    (hs : ∀ c ∈ s, c ≠ '"' ∧ c ≠ '\\' ∧ opening.head? ≠ some c) (t : Text) :
    stringPiece opening (s ++ t) = s ++ stringPiece opening t := by
  induction s with
  | nil => rfl
  | cons c s ih =>
    obtain ⟨hquote, hescape, hhead⟩ := hs c List.mem_cons_self
    have hnot : opening.isPrefixOf (c :: (s ++ t)) = false := by
      rw [Bool.eq_false_iff]
      intro hpre
      obtain ⟨o, opening, rfl⟩ := List.exists_cons_of_ne_nil hopening
      obtain ⟨_, hr⟩ := List.isPrefixOf_iff_prefix.1 hpre
      exact hhead (congrArg some (List.cons.inj hr).1)
    rw [List.cons_append, stringPiece, hnot, Bool.and_false, if_neg Bool.false_ne_true,
      ih fun b hb => hs b (List.mem_cons_of_mem c hb), List.cons_append]
    · exact hquote
    · exact fun _ _ h _ => hescape h

theorem Plain.ne {t : Text} (h : Plain t) : ∀ c ∈ t, c ≠ '"' ∧ c ≠ '\\' ∧ c ≠ '#' := by
  intro c hc
  simpa using List.all_eq_true.1 h c hc

theorem Plain.quotedBody?_append {t : Text} (h : Plain t) (rest : Text) :
    quotedBody? '"' (fun c => Lexicon.standard.interpolation.opening.head? == some c) (t ++ rest) =
      (quotedBody? '"' (fun c => Lexicon.standard.interpolation.opening.head? == some c) rest).map
        (t ++ ·) := by
  refine quotedBody?_append_of_plain (fun c hc => ?_) rest
  obtain ⟨hquote, hescape, hsign⟩ := h.ne c hc
  exact ⟨hquote, hescape, beq_eq_false_iff_ne.2 fun heq => hsign (Option.some.inj heq).symm⟩

theorem Plain.stringPiece_append {t : Text} (h : Plain t) (rest : Text) :
    stringPiece Lexicon.standard.interpolation.opening (t ++ rest) =
      t ++ stringPiece Lexicon.standard.interpolation.opening rest := by
  refine stringPiece_append_of_plain (by decide) (fun c hc => ?_) rest
  obtain ⟨hquote, hescape, hsign⟩ := h.ne c hc
  exact ⟨hquote, hescape, fun heq => hsign (Option.some.inj heq).symm⟩

/-! ## Pieces of an expression -/

namespace Lexicon

theorem lexemeAt?_word {w rest : Text} (hfirst : w.head?.any isLetter = true)
    (hw : w.all isWordChar = true) (hfree : w ∉ operatorWords) (hrest : AtBoundary rest)
    (c : Char) : standard.lexemeAt? c (w ++ rest) = some (.plain .name w) := by
  have hne : w ≠ [] := by
    rintro rfl
    cases hfirst
  rw [lexemeAt?, operatorAt?_of_word hw hne hfree hrest, name?_of_word hfirst hw hrest]

theorem lexemeAt?_number {whole fraction rest : Text} (hne : whole ≠ [])
    (hwhole : whole.all Char.isDigit = true) (hfraction : fraction.all Char.isDigit = true)
    (hrest : AtBoundary rest) (c : Char) :
    standard.lexemeAt? c (numeral whole fraction ++ rest) =
      some (.plain .number (numeral whole fraction)) := by
  have hnumber := number?_of_numeral hne hwhole hfraction hrest
  obtain ⟨d, whole, rfl⟩ := List.exists_cons_of_ne_nil hne
  have hd := List.all_eq_true.1 hwhole d List.mem_cons_self
  rw [lexemeAt?, hnumber]
  rw [numeral, List.cons_append, List.cons_append, operatorAt?_of_head (Or.inl hd), name?,
    isNameStart_of_isDigit hd]
  rfl

theorem lexemeAt?_opening {c : Char} {closer : Text} (hc : ([c], closer) ∈ brackets) (t : Text) :
    standard.lexemeAt? c (c :: t) = some (.opening [c] closer) := by
  simp only [brackets, List.mem_cons, Prod.mk.injEq, List.cons.injEq, and_true, List.not_mem_nil,
    or_false] at hc
  rcases hc with ⟨rfl, rfl⟩ | ⟨rfl, rfl⟩ | ⟨rfl, rfl⟩
  all_goals
    rw [lexemeAt?, operatorAt?_of_head (Or.inr (by decide))]
    rfl

theorem lexemeAt?_closing {opener : Text} {c : Char} (hc : (opener, [c]) ∈ brackets) (t : Text) :
    standard.lexemeAt? c (c :: t) = some (.closing c) := by
  simp only [brackets, List.mem_cons, Prod.mk.injEq, List.cons.injEq, and_true, List.not_mem_nil,
    or_false] at hc
  rcases hc with ⟨-, rfl⟩ | ⟨-, rfl⟩ | ⟨-, rfl⟩
  all_goals
    rw [lexemeAt?, operatorAt?_of_head (Or.inr (by decide))]
    rfl

theorem lexemeAt?_quoted {body : Text} (hbody : Plain body) (rest : Text) :
    standard.lexemeAt? '"' ('"' :: (body ++ '"' :: rest)) = some (.quoted ⟨'"', body⟩) := by
  have hstring : standard.quotedString? ('"' :: (body ++ '"' :: rest)) = some ⟨'"', body⟩ := by
    rw [Dialect.quotedString?, hbody.quotedBody?_append]
    simp [quotedBody?]
  rw [lexemeAt?, operatorAt?_of_head (Or.inr (by decide)), hstring]
  rfl

/-- A string with an interpolation in it is not recognised whole. -/
theorem lexemeAt?_quote {before : Text} (hbefore : Plain before) (rest : Text) :
    standard.lexemeAt? '"' ('"' :: (before ++ '#' :: rest)) = some .quote := by
  have hstring : standard.quotedString? ('"' :: (before ++ '#' :: rest)) = none := by
    rw [Dialect.quotedString?, hbefore.quotedBody?_append]
    rfl
  rw [lexemeAt?, operatorAt?_of_head (Or.inr (by decide)), hstring]
  rfl

end Lexicon

end TemplateTokens
