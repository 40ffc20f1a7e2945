import TemplateTokens.Text.Search
import TemplateTokens.Dialect.Basic

/-!
# Strings and interpolations

A string stands between single or double quotes, and a backslash takes the special meaning from
the character behind it. A double-quoted string may hold interpolations; one that holds no
character with which an interpolation could begin is recognised whole, and any other is read in
pieces between its interpolations.

Results:

* `Dialect.interpolationOpen?_eq_some`, `Dialect.interpolationClose?_eq_some`: the two ends of an
  interpolation found are the beginning of the text.
* `Dialect.interpolationClose?_isSome`: an end behind blanks is not missed.
* `quotedBody?_sound`: a body found is followed by its closing quote.
* `stringPiece_prefix`: a piece of a string is the beginning of the text.
* `eq_nil_of_stringPiece_eq_nil`: no piece is left only in front of a quote or an interpolation.
* `stringPiece_stops`: a piece ends with the text, or in front of a quote or an interpolation.
-/

namespace TemplateTokens

/-! ## Whole strings -/

/-- A string recognised whole. -/
structure QuotedString where
  quote : Char
  body : Text
deriving DecidableEq, Repr

/-- The text up to the first unescaped `quote`, if no unescaped `barred` character comes before
it. -/
def quotedBody? (quote : Char) (barred : Char → Bool) : Text → Option Text
  | [] => none
  | '\\' :: c :: t => (quotedBody? quote barred t).map fun body => '\\' :: c :: body
  | c :: t =>
    if c = quote then some []
    else if c = '\\' || barred c then none
    else (quotedBody? quote barred t).map (c :: ·)

theorem quotedBody?_sound {quote : Char} {barred : Char → Bool} {t body : Text}
    (h : quotedBody? quote barred t = some body) : body ++ [quote] <+: t := by
  fun_induction quotedBody? quote barred t generalizing body with
  | case1 => simp at h
  | case2 c t ih =>
    simp only [Option.map_eq_some_iff] at h
    obtain ⟨body', h', rfl⟩ := h
    simpa using ih h'
  | case3 => simp at h; subst h; simp
  | case4 => simp at h
  | case5 c t hne hq hb ih =>
    simp only [Option.map_eq_some_iff] at h
    obtain ⟨body', h', rfl⟩ := h
    simpa using ih h'

/-- The whole string at the start of a text. -/
def Dialect.quotedString? (d : Dialect) : Text → Option QuotedString
  | '"' :: t =>
    (quotedBody? '"' (fun c => d.interpolation.opening.head? == some c) t).map (⟨'"', ·⟩)
  | '\'' :: t => (quotedBody? '\'' (fun _ => false) t).map (⟨'\'', ·⟩)
  | _ => none

/-! ## Strings in pieces -/

/-- The text up to the first unescaped double quote or beginning of an interpolation. -/
def stringPiece (opening : Text) : Text → Text
  | [] => []
  | '"' :: _ => []
  | '\\' :: c :: t => '\\' :: c :: stringPiece opening t
  | c :: t =>
    if c ≠ '\\' && opening.isPrefixOf (c :: t) then [] else c :: stringPiece opening t

theorem stringPiece_prefix (opening t : Text) : stringPiece opening t <+: t := by
  fun_induction stringPiece opening t with
  | case1 => exact List.nil_prefix
  | case2 => exact List.nil_prefix
  | case3 c t ih => simpa using ih
  | case4 => exact List.nil_prefix
  | case5 c t _ _ _ ih => simpa using ih

theorem eq_nil_of_stringPiece_eq_nil {opening t : Text} (h : stringPiece opening t = []) :
    t = [] ∨ (∃ rest, t = '"' :: rest) ∨ opening <+: t := by
  fun_cases stringPiece opening t with
  | case1 => exact .inl rfl
  | case2 rest => exact .inr (.inl ⟨rest, rfl⟩)
  | case3 c rest => simp [stringPiece] at h
  | case4 c rest _ _ hc =>
    simp only [Bool.and_eq_true] at hc
    exact .inr (.inr (List.isPrefixOf_iff_prefix.1 hc.2))
  | case5 c rest _ _ _ =>
    simp [stringPiece] at h
    exact .inr (.inr h.2)

theorem stringPiece_stops {opening t rest : Text} (h : t = stringPiece opening t ++ rest) :
    rest = [] ∨ (∃ u, rest = '"' :: u) ∨ opening <+: rest := by
  fun_induction stringPiece opening t with
  | case1 => exact .inl h.symm
  | case2 t => exact .inr (.inl ⟨t, h.symm⟩)
  | case3 c t ih =>
    simp only [List.cons_append, List.cons.injEq, true_and] at h
    exact ih h
  | case4 c t _ _ hc =>
    simp only [Bool.and_eq_true] at hc
    obtain rfl : c :: t = rest := h
    exact .inr (.inr (List.isPrefixOf_iff_prefix.1 hc.2))
  | case5 c t _ _ hc ih => exact ih (List.cons.inj h).2

/-! ## Interpolations -/

/-- The blanks behind the beginning of an interpolation, if a text starts with one. -/
def Dialect.interpolationOpen? (d : Dialect) (t : Text) : Option Text :=
  (d.interpolation.opening.isPrefixOf? t).map blanks

/-- The blanks before the end of an interpolation, if a text starts with them and it. -/
def Dialect.interpolationClose? (d : Dialect) (t : Text) : Option Text :=
  (afterBlanks? d.interpolation.closing.isPrefixOf? t).map Prod.fst

theorem Dialect.interpolationOpen?_eq_some {d : Dialect} {t blank : Text}
    (h : d.interpolationOpen? t = some blank) : d.interpolation.opening ++ blank <+: t := by
  simp only [interpolationOpen?, Option.map_eq_some_iff] at h
  obtain ⟨rest, hrest, rfl⟩ := h
  rw [← isPrefixOf?_eq_some_iff.1 hrest, List.prefix_append_right_inj]
  exact List.takeWhile_prefix _

theorem Dialect.interpolationOpen?_eq_none {d : Dialect} {t : Text}
    (h : d.interpolationOpen? t = none) : ¬ d.interpolation.opening <+: t := by
  rintro ⟨rest, hrest⟩
  simp [interpolationOpen?, isPrefixOf?_eq_some_iff.2 hrest] at h

theorem Dialect.interpolationClose?_eq_some {d : Dialect} {t blank : Text}
    (h : d.interpolationClose? t = some blank) : blank ++ d.interpolation.closing <+: t := by
  simp only [interpolationClose?, Option.map_eq_some_iff, Prod.exists, exists_and_right,
    exists_eq_right] at h
  obtain ⟨found, h⟩ := h
  obtain ⟨after, rfl, -, hafter⟩ := afterBlanks?_sound h
  rw [List.prefix_append_right_inj]
  exact ⟨found, isPrefixOf?_eq_some_iff.1 hafter⟩

/-- An end that stands behind the blanks of a text is not missed. -/
theorem Dialect.interpolationClose?_isSome {d : Dialect} {t : Text}
    (h : d.interpolation.closing <+: t.dropWhile isBlank) : (d.interpolationClose? t).isSome := by
  obtain ⟨rest, hrest⟩ := h
  have hfind : (d.interpolation.closing.isPrefixOf? (t.dropWhile isBlank)).isSome := by
    rw [isPrefixOf?_eq_some_iff.2 hrest, Option.isSome_some]
  have := afterBlanks?_isSome (List.all_takeWhile (p := isBlank) (l := t)) hfind
  rw [List.takeWhile_append_dropWhile] at this
  rw [interpolationClose?, Option.isSome_map]
  exact this

end TemplateTokens
