import TemplateTokens.Proofs.Lexeme.Piece

/-!
# How lexemes are spelled

What the matchers find is told here without the matchers: which texts are names, numbers and
operators, which quotes a string may hold, and what may stand behind each of them, where a matcher
takes as much as it can.

Results:

* `name?_spec`, `number?_spec`: names and numbers, and where they end.
* `operatorAt?_spec`: an operator spells the words of one of the vocabulary.
* `Dialect.not_hasUnescaped_of_quotedString?`, `not_hasUnescaped_stringPiece`: every quote in a
  string is escaped.
* `Dialect.blockEnd?_spec`, `Dialect.commentEnd?_spec`: the ends of block tags and comments leave no
  line break behind.
* `Dialect.wordTag?_blank`, `Dialect.interpolationClose?_blank`: what is skipped inside of tags is
  blank.
-/

namespace TemplateTokens

open Piece

/-- What is taken while a condition holds ends where it does not. -/
theorem head_of_eq_takeWhile_append {p : Char → Bool} {t rest : Text}
    (h : t = t.takeWhile p ++ rest) : ∀ c ∈ rest.head?, p c = false := by
  obtain rfl : t.dropWhile p = rest :=
    List.append_cancel_left (List.takeWhile_append_dropWhile.trans h)
  intro c hc
  have hnot := List.head?_dropWhile_not p t
  rw [Option.mem_def.1 hc] at hnot
  simpa using hnot

/-! ## Names and numbers -/

/-- A character that a name may start with, and any that may continue it. -/
def isName : Text → Bool
  | [] => false
  | c :: t => isNameStart c && t.all isNameRest

/-- A digit and any more. -/
def IsDigits (t : Text) : Prop := t ≠ [] ∧ ∀ c ∈ t, c.isDigit = true

/-- Digits, and behind a point digits again, or nothing. -/
def IsNumber (t : Text) : Prop :=
  IsDigits t ∨ ∃ whole fraction, IsDigits whole ∧ IsDigits fraction ∧ t = whole ++ '.' :: fraction

theorem isDigits_takeWhile {t : Text} (h : t.takeWhile Char.isDigit ≠ []) :
    IsDigits (t.takeWhile Char.isDigit) := ⟨h, List.all_eq_true.1 List.all_takeWhile⟩

/-- A name goes as far as it can. -/
theorem name?_spec {t v rest : Text} (h : name? t = some v) (e : t = v ++ rest) :
    isName v = true ∧ ∀ c ∈ rest.head?, isNameRest c = false := by
  cases t with
  | nil => cases h
  | cons c t =>
    rw [name?] at h
    split at h
    · rename_i hc
      cases h
      refine ⟨?_, head_of_eq_takeWhile_append (List.cons.inj e).2⟩
      rw [isName, hc, List.all_takeWhile]
      rfl
    · cases h

/-- The point of a fraction and its digits, which go as far as they can. -/
theorem fractionAt_spec {t rest : Text} (e : t = fractionAt t ++ rest) :
    fractionAt t = [] ∧ (∀ c u, rest = '.' :: c :: u → c.isDigit = false) ∨
      ∃ fraction, fractionAt t = '.' :: fraction ∧ IsDigits fraction ∧
        ∀ c ∈ rest.head?, c.isDigit = false := by
  fun_cases fractionAt t with
  | case1 t digits hnil =>
    rw [fractionAt, if_pos hnil] at e
    refine Or.inl ⟨rfl, ?_⟩
    rintro c u rfl
    obtain rfl := (List.cons.inj e).2
    cases hc : c.isDigit with
    | false => rfl
    | true => simp [digits, hc] at hnil
  | case2 t digits hne =>
    rw [fractionAt, if_neg hne] at e
    exact Or.inr ⟨digits, rfl, isDigits_takeWhile (mt List.isEmpty_iff.2 hne),
      head_of_eq_takeWhile_append (List.cons.inj e).2⟩
  | case3 t hpoint =>
    refine Or.inl ⟨rfl, ?_⟩
    rintro c u rfl
    rw [fractionAt.eq_2 t hpoint] at e
    exact absurd e (hpoint _)

/-- A number goes as far as it can, and only without a fraction may a point follow it. -/
theorem number?_spec {t v rest : Text} (h : number? t = some v) (e : t = v ++ rest) :
    IsNumber v ∧ (∀ c ∈ rest.head?, c.isDigit = false) ∧
      ('.' ∉ v → ∀ c u, rest = '.' :: c :: u → c.isDigit = false) := by
  rw [number?] at h
  split at h
  · cases h
  rename_i hne
  cases h
  have hwhole : IsDigits (t.takeWhile Char.isDigit) :=
    isDigits_takeWhile (mt List.isEmpty_iff.2 hne)
  have hdrop : t.dropWhile Char.isDigit = fractionAt (t.dropWhile Char.isDigit) ++ rest := by
    rw [List.append_assoc] at e
    exact List.append_cancel_left (List.takeWhile_append_dropWhile.trans e)
  obtain ⟨hnil, hpoint⟩ | ⟨fraction, heq, hfraction, hrest⟩ := fractionAt_spec hdrop
  · rw [hnil, List.nil_append] at hdrop
    rw [hnil, List.append_nil] at e ⊢
    exact ⟨Or.inl hwhole, head_of_eq_takeWhile_append e, fun _ => hpoint⟩
  · rw [heq]
    refine ⟨Or.inr ⟨_, _, hwhole, hfraction, rfl⟩, hrest, fun hnot => ?_⟩
    exact absurd (List.mem_append_right _ List.mem_cons_self) hnot

/-! ## Operators -/

/-- Words one behind the other with white space between each two. -/
inductive Spells : List Text → Text → Prop
  | one (w : Text) : Spells [w] w
  | cons (w : Text) {gap v : Text} {ws : List Text} : gap ≠ [] → gap.all isWhiteSpace = true →
      Spells ws v → Spells (w :: ws) (w ++ gap ++ v)

theorem Operator.spells_of_wordsAt? {ws : List Text} {t v : Text} (hws : ws ≠ [])
    (h : wordsAt? ws t = some v) : Spells ws v := by
  fun_induction wordsAt? ws t generalizing v with
  | case1 => exact absurd rfl hws
  | case2 =>
    cases h
    exact .one _
  | case3 => cases h
  | case4 w ws t hne ih =>
    obtain ⟨rest, -, h⟩ := Option.bind_eq_some_iff.1 h
    dsimp only at h
    split at h
    · cases h
    · rename_i hgap
      obtain ⟨later, hlater, rfl⟩ := Option.map_eq_some_iff.1 h
      exact .cons w (mt List.isEmpty_iff.2 hgap) List.all_takeWhile (ih rest hne hlater)

/-- A text spells an operator of a dialect, or assignment, in front of another text; one that is
written with a letter at its end has white space or a parenthesis behind it. -/
def Dialect.IsOperator (d : Dialect) (t following : Text) : Prop :=
  ∃ o, (o ∈ d.operators ∨ o = assignment) ∧ Spells (splitWords o) t ∧
    (o.getLast?.any Char.isAlpha = true →
      ∃ c u, following = c :: u ∧ (isWhiteSpace c = true ∨ c = '('))

theorem mem_withAssignment {operators : List Text} {o : Text} (h : o ∈ withAssignment operators) :
    o ∈ operators ∨ o = assignment := by
  unfold withAssignment at h
  split at h
  · exact Or.inl h
  · simpa using h

theorem operatorAt?_spec {lx : Lexicon} (hr : lx.ranked = vocabulary lx.operators)
    (hv : lx.Visible) {t v rest : Text} (h : operatorAt? lx.ranked t = some v) (e : t = v ++ rest) :
    lx.IsOperator v rest := by
  obtain ⟨operator, hmem, hat⟩ := List.exists_of_findSome?_eq_some h
  have hwords := (hv operator hmem).1
  rw [hr] at hmem
  obtain ⟨o, ho, rfl⟩ := List.mem_map.1 hmem
  obtain ⟨found, hfound, hat⟩ := Option.bind_eq_some_iff.1 hat
  split at hat
  · cases hat
  rename_i hguard
  cases hat
  refine ⟨o, mem_withAssignment (mem_largestFirst.1 ho),
    Operator.spells_of_wordsAt? hwords hfound, fun hletter => ?_⟩
  rw [e, List.drop_left, show (Operator.ofText o).guarded = true from hletter] at hguard
  have hend : Operator.mayEndBefore rest = true := by simpa using hguard
  cases rest with
  | nil => cases hend
  | cons c u => exact ⟨c, u, rfl, by simpa [Operator.mayEndBefore] using hend⟩

/-! ## Strings -/

/-- Whether a character stands in a text without a backslash that takes its meaning from it. -/
def hasUnescaped (quote : Char) : Text → Bool
  | [] => false
  | '\\' :: _ :: t => hasUnescaped quote t
  | c :: t => c = quote || hasUnescaped quote t

theorem hasUnescaped_cons {quote c : Char} {t : Text} (hc : c ≠ '\\') :
    hasUnescaped quote (c :: t) = (decide (c = quote) || hasUnescaped quote t) := by
  rw [hasUnescaped]
  exact fun _ _ h _ => hc h

theorem not_hasUnescaped_of_quotedBody? {quote : Char} {barred : Char → Bool} {t body : Text}
    (h : quotedBody? quote barred t = some body) : hasUnescaped quote body = false := by
  fun_induction quotedBody? quote barred t generalizing body with
  | case1 => cases h
  | case2 c t ih =>
    obtain ⟨body', h', rfl⟩ := Option.map_eq_some_iff.1 h
    rw [hasUnescaped]
    exact ih h'
  | case3 =>
    cases h
    rfl
  | case4 => cases h
  | case5 c t hne hquote hbarred ih =>
    obtain ⟨body', h', rfl⟩ := Option.map_eq_some_iff.1 h
    have hc : c ≠ '\\' := fun hc => hbarred (by simp [hc])
    rw [hasUnescaped_cons hc, ih h', decide_eq_false hquote]
    rfl

theorem not_hasUnescaped_stringPiece (opening t : Text) :
    hasUnescaped '"' (stringPiece opening t) = false := by
  fun_induction stringPiece opening t with
  | case1 => rfl
  | case2 => rfl
  | case3 c t ih =>
    rw [hasUnescaped]
    exact ih
  | case4 => rfl
  | case5 c t hquote hescape hnot ih =>
    by_cases hc : c = '\\'
    · subst hc
      cases t with
      | nil => rfl
      | cons b t => exact absurd rfl (hescape b t rfl)
    · rw [hasUnescaped_cons hc, ih, decide_eq_false fun h => hquote h]
      rfl

theorem Dialect.not_hasUnescaped_of_quotedString? {d : Dialect} {t : Text} {string : QuotedString}
    (h : d.quotedString? t = some string) : hasUnescaped string.quote string.body = false := by
  unfold quotedString? at h
  split at h
  · obtain ⟨body, hbody, rfl⟩ := Option.map_eq_some_iff.1 h
    exact not_hasUnescaped_of_quotedBody? hbody
  · obtain ⟨body, hbody, rfl⟩ := Option.map_eq_some_iff.1 h
    exact not_hasUnescaped_of_quotedBody? hbody
  · cases h

/-! ## Tag ends -/

/-- A delimiter with the line break behind it, if there is one, of which nothing is left to the
text that follows. -/
def IsClosingLine (closing t following : Text) : Prop :=
  ∃ newline, t = closing ++ newline ∧ newline = lineBreakAt (newline ++ following)

theorem closingLine?_spec {closing t v rest : Text} (h : closingLine? closing t = some v)
    (e : t = v ++ rest) : IsClosingLine closing v rest := by
  obtain ⟨behind, hbehind, rfl⟩ := Option.map_eq_some_iff.1 h
  rw [← isPrefixOf?_eq_some_iff.1 hbehind, List.append_assoc, List.append_cancel_left_eq] at e
  exact ⟨_, rfl, congrArg lineBreakAt e⟩

namespace Dialect

variable {d : Dialect} {t rest : Text}

theorem blockEnd?_spec {e : TagEnd} (h : d.blockEnd? t = some e)
    (ht : t = d.modifierText e.modifier ++ (e.delimiter ++ rest)) :
    IsClosingLine d.block.closing e.delimiter rest := by
  simp only [blockEnd?, Option.map_eq_some_iff, Prod.exists] at h
  obtain ⟨m, v, h, rfl⟩ := h
  obtain ⟨behind, rfl, hv⟩ := afterModifier?_sound h
  exact closingLine?_spec hv (List.append_cancel_left ht)

theorem commentEnd?_spec {e : CommentEnd} (h : d.commentEnd? t = some e)
    (ht : t = texts (e.pieces d) ++ rest) :
    e.blank.all isBlank = true ∧ IsClosingLine d.comment.closing e.delimiter rest := by
  simp only [commentEnd?, Option.map_eq_some_iff, Prod.exists] at h
  obtain ⟨before, blank, m, v, h, rfl⟩ := h
  obtain ⟨after, rfl, hafter⟩ := search?_sound h
  obtain ⟨behind, rfl, hblank, hbehind⟩ := afterBlanks?_sound hafter
  obtain ⟨last, rfl, hv⟩ := afterModifier?_sound hbehind
  have hlast : last = v ++ rest := by simpa [CommentEnd.pieces, TagEnd.pieces] using ht
  exact ⟨hblank, closingLine?_spec hv hlast⟩

/-- What stands beside the word of a verbatim tag is blank. -/
theorem wordTag?_blank {word : Text} {tag : VerbatimTag} (h : d.wordTag? word t = some tag) :
    tag.leading.all isBlank = true ∧ tag.trailing.all isBlank = true := by
  simp only [wordTag?, Option.bind_eq_some_iff, Option.map_eq_some_iff, Prod.exists] at h
  obtain ⟨inside, -, m, leading, trailing, m', hinside, rfl⟩ := h
  obtain ⟨t₁, -, h₁⟩ := afterModifier?_sound hinside
  obtain ⟨t₂, -, hleading, h₂⟩ := afterBlanks?_sound h₁
  simp only [Option.bind_eq_some_iff, Option.map_eq_some_iff, Prod.exists, Prod.mk.injEq] at h₂
  obtain ⟨t₃, -, _, _, _, h₃, rfl, -⟩ := h₂
  obtain ⟨t₄, -, htrailing, -⟩ := afterBlanks?_sound h₃
  exact ⟨hleading, htrailing⟩

/-- What stands before the end of an interpolation is blank. -/
theorem interpolationClose?_blank {blank : Text} (h : d.interpolationClose? t = some blank) :
    blank.all isBlank = true := by
  obtain ⟨⟨run, found⟩, hfound, rfl⟩ := Option.map_eq_some_iff.1 h
  obtain ⟨-, -, hrun, -⟩ := afterBlanks?_sound hfound
  exact hrun

end Dialect

end TemplateTokens
