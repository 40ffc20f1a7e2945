import TemplateTokens.Proofs.Lexer.Cut

/-!
# Locations of tokens

A run moves its location over one piece after the other. No piece ends inside a line break, so this
comes to the same as one scan of the template, character by character.

Results:

* `Piece.location_of_getElem?`: the location of a token in a row that cuts no line break.
* `Lexer.location_eq_walk`: each token has the location that a scan of the template before it comes
  to, locations increase from token to token, and the last is that of the end of the template.
-/

namespace TemplateTokens

open Piece

/-- The text of the tokens of a stream before a given one. -/
def TokenStream.textBefore (stream : TokenStream) (k : Nat) : Text :=
  (stream.tokens.toList.take k).flatMap Token.text

namespace Piece

/-- The tokens of a row of pieces that begins at a location, and the end of the template behind
them. -/
def closedRow (l : Location) (ps : List Piece) : List Token :=
  tokensFrom l ps ++ [.eof (l.walk (texts ps))]

theorem closedRow_cons {p : Piece} {ps : List Piece} (h : CleanCuts (p :: ps) []) (l : Location) :
    closedRow l (p :: ps) = ⟨p.kind, some p.value, l⟩ :: closedRow (l.walk p.value) ps := by
  rw [closedRow, closedRow, texts_cons, Location.walk_append l h.1.of_append, tokensFrom,
    Location.advance_eq_walk, List.cons_append]

/-- A token of such a row stands behind the text of those before it, and there is its location. -/
theorem location_of_getElem? {ps : List Piece} (h : CleanCuts ps []) {l : Location} {k : Nat}
    {t : Token} (hk : (closedRow l ps)[k]? = some t) :
    (∃ after, texts ps = ((closedRow l ps).take k).flatMap Token.text ++ (t.text ++ after)) ∧
      t.location = l.walk (((closedRow l ps).take k).flatMap Token.text) := by
  induction ps generalizing l k with
  | nil =>
    cases k with
    | zero =>
      cases hk
      exact ⟨⟨[], rfl⟩, rfl⟩
    | succ k => cases hk
  | cons p ps ih =>
    rw [closedRow_cons h] at hk ⊢
    cases k with
    | zero =>
      cases hk
      exact ⟨⟨texts ps, texts_cons p ps⟩, rfl⟩
    | succ k =>
      obtain ⟨⟨after, hafter⟩, hlocation⟩ := ih h.2 hk
      have hcut := h.1
      rw [List.append_nil, hafter] at hcut
      rw [List.take_succ_cons, List.flatMap_cons]
      refine ⟨⟨after, ?_⟩, ?_⟩
      · rw [texts_cons, hafter]
        exact (List.append_assoc p.value _ _).symm
      · rw [hlocation]
        exact (Location.walk_append l hcut.of_append).symm

/-- Locations increase along the row where no piece is empty. -/
theorem pairwise_location {ps : List Piece} (h : CleanCuts ps []) (hp : Proper ps) (l : Location) :
    (closedRow l ps).Pairwise fun t u => compare t.location u.location = .lt := by
  induction ps generalizing l with
  | nil => exact List.pairwise_singleton _ _
  | cons p ps ih =>
    obtain ⟨⟨hne, -⟩, hp'⟩ := proper_cons.1 hp
    have hrow := closedRow_cons h l
    rw [hrow]
    refine List.pairwise_cons.2 ⟨fun u hu => ?_, ih h.2 hp' _⟩
    obtain ⟨k, hk⟩ := List.mem_iff_getElem?.1 hu
    have hk' : (closedRow l (p :: ps))[k + 1]? = some u := by rw [hrow, List.getElem?_cons_succ, hk]
    rw [(location_of_getElem? h hk').2, hrow, List.take_succ_cons, List.flatMap_cons]
    exact Location.compare_walk l (List.append_ne_nil_of_left_ne_nil hne _)

end Piece

theorem Lexer.exists_closedRow {l : Lexer} (hv : l.dialect.Visible) (hu : l.dialect.Unbroken)
    {source : Text} {stream : TokenStream} (h : l.tokenize source = .ok stream) :
    ∃ ps, CleanCuts ps [] ∧ Proper ps ∧ texts ps = source ∧
      stream.tokens.toList = closedRow Location.start ps := by
  obtain ⟨s, ps, hpath, hsource, hproper, htokens⟩ := exists_path_of_tokenize hv h
  have hrest : s.rest = [] := by
    have hall := hpath.source_eq
    rwa [hsource, List.self_eq_append_right] at hall
  have hcuts := hpath.cleanCuts (clean hv hu)
  rw [hrest] at hcuts
  refine ⟨ps, hcuts, hproper, hsource, ?_⟩
  rw [htokens, hpath.location_eq (clean hv hu)]
  rfl

/-- In a dialect whose operators can be seen and whose delimiters have no line break in them, each
token of a template has the location that one scan of the template before it comes to. Locations
increase from token to token, and the last is that of the end of the template. -/
theorem Lexer.location_eq_walk {l : Lexer} (hv : l.dialect.Visible) (hu : l.dialect.Unbroken)
    {source : Text} {stream : TokenStream} (h : l.tokenize source = .ok stream) :
    (∀ k t, stream.tokens[k]? = some t →
        (∃ after, source = stream.textBefore k ++ (t.text ++ after)) ∧
          t.location = Location.start.walk (stream.textBefore k)) ∧
      (stream.tokens.toList.Pairwise fun t u => compare t.location u.location = .lt) ∧
      stream.tokens.back? = some (.eof (Location.start.walk source)) := by
  obtain ⟨ps, hcuts, hproper, rfl, htokens⟩ := exists_closedRow hv hu h
  refine ⟨fun k t hk => ?_, ?_, ?_⟩
  · rw [← Array.getElem?_toList, htokens] at hk
    rw [TokenStream.textBefore, htokens]
    exact location_of_getElem? hcuts hk
  · rw [htokens]
    exact pairwise_location hcuts hproper _
  · rw [← Array.getLast?_toList, htokens, closedRow, List.getLast?_concat]

/-- A template of four lines, which end in both ways. -/
theorem Lexer.location_fourLines : Dialect.standard.Visible ∧ Dialect.standard.Unbroken ∧
    ∃ stream, standard.tokenize ['a', '\r', '\n', '{', '%', 'b', '\n', '%', '}', '\r', '\n', 'é'] =
        .ok stream ∧
      stream.tokens.back? = some (.eof ⟨4, 2⟩) := by
  obtain ⟨stream, h⟩ : ∃ stream, standard.tokenize
      ['a', '\r', '\n', '{', '%', 'b', '\n', '%', '}', '\r', '\n', 'é'] = .ok stream := ⟨_, rfl⟩
  exact ⟨by decide, by decide, stream, h, (location_eq_walk (by decide) (by decide) h).2.2⟩

end TemplateTokens
