import TemplateTokens.Proofs.Lexer.Run

/-!
# The token at the end

Two places put the end of the template behind a row of tokens. A run over a template adds it at the
position that all of its steps have led to; a stream that is made from a row of tokens adds it
behind the last of them, wherever the others stand. Both come to the same, since each token of a run
stands where the one before it stops.

Results:

* `Piece.terminated_tokensFrom`: the end that a row of pieces is given stands where the row stops.
* `TokenStream.terminated_terminated`: a row that ends with the end of the template keeps it.
* `TokenStream.ofTokens_agrees`: the tokens of a template are those of a stream made from all but
  the last of them, and the tokens of any stream are those of a stream made from them.
-/

namespace TemplateTokens

open Piece

/-- The end that is missing behind the tokens of a row of pieces is added where the row stops, which
is where its last piece stops. -/
theorem Piece.terminated_tokensFrom {ps : List Piece} (h : ∀ p ∈ ps, p.kind ≠ .eof)
    {tokens : Array Token} (htokens : tokens.toList = tokensFrom Location.start ps) :
    TokenStream.terminated tokens = tokens.push (.eof (stop Position.start ps).toLocation) := by
  rw [TokenStream.terminated, ← Array.getLast?_toList, htokens]
  obtain rfl | ⟨qs, p, rfl⟩ := List.eq_nil_or_concat ps
  · rw [Array.toList_eq_nil_iff.1 htokens]
    rfl
  · have hkind : p.kind ≠ .eof := h p (by simp)
    have hrow : tokensFrom Location.start (qs ++ [p]) = tokensFrom Location.start qs ++
        [⟨p.kind, some p.value, (stop Position.start qs).toLocation⟩] :=
      tokensFrom_append Position.start qs [p]
    have hstop : (stop Position.start (qs ++ [p])).toLocation =
        (stop Position.start qs).toLocation.advance p.value := by
      rw [stop_append]
      rfl
    rw [List.concat_eq_append, hrow, List.getLast?_concat, hstop]
    exact if_neg hkind

/-- A row that ends with the end of the template is not given another end. -/
theorem TokenStream.terminated_terminated (tokens : Array Token) :
    terminated (terminated tokens) = terminated tokens := by
  cases hlast : tokens.back? with
  | none =>
    rw [show terminated tokens = #[.eof Location.start] by rw [terminated, hlast]]
    rfl
  | some last =>
    by_cases hkind : last.kind = .eof
    · have hsame : terminated tokens = tokens := by
        rw [terminated, hlast]
        exact if_pos hkind
      rw [hsame, hsame]
    · have hpush : terminated tokens = tokens.push (.eof last.stop) := by
        rw [terminated, hlast]
        exact if_neg hkind
      rw [hpush, terminated_push_eof]

/-- The end of the template that a run adds is the one that a stream adds: taken off the tokens of a
template and put back by a stream made from the others, it is the same token at the same place. And
a stream adds nothing to the tokens of a stream. -/
theorem TokenStream.ofTokens_agrees :
    (∀ (l : Lexer) (source : Text) (tokens : Array Token), l.dialect.Visible →
        l.tokens source = .ok tokens →
          (∃ stop, tokens.back? = some (.eof stop)) ∧
            ∀ origin, (ofTokens tokens.pop origin).tokens = tokens) ∧
      ∀ (tokens : Array Token) (origin origin' : Option Text),
        (ofTokens (ofTokens tokens origin).tokens origin').tokens =
          (ofTokens tokens origin).tokens := by
  refine ⟨fun l source tokens hv htokens => ?_, fun tokens _ _ => terminated_terminated tokens⟩
  obtain ⟨s, ps, hpath, -, rfl⟩ := Lexicon.exists_path_of_tokens l.usable hv.lexicon htokens
  have hproper := hpath.proper l.usable hv.lexicon
  have hrow : s.tokens.toList = tokensFrom Location.start ps := hpath.reads.tokens_eq
  refine ⟨⟨_, Array.back?_push⟩, fun origin => ?_⟩
  show terminated (s.tokens.push _).pop = _
  rw [Array.pop_push, terminated_tokensFrom (fun p hp => (hproper p hp).2) hrow,
    hpath.reads.position_eq]
  rfl

/-- A tag on the second line: the end is in its sixth column. -/
theorem TokenStream.ofTokens_agrees_twoLines : Dialect.standard.Visible ∧
    ∃ tokens, Lexer.standard.tokens ['a', '\n', '{', '{', 'b', '}', '}'] = .ok tokens ∧
      tokens.back? = some (.eof ⟨2, 6⟩) ∧ (ofTokens tokens.pop none).tokens = tokens := by
  obtain ⟨tokens, h⟩ : ∃ tokens,
      Lexer.standard.tokens ['a', '\n', '{', '{', 'b', '}', '}'] = .ok tokens := ⟨_, rfl⟩
  refine ⟨by decide, tokens, h, ?_, ?_⟩
  · cases h
    rfl
  · exact (ofTokens_agrees.1 Lexer.standard _ tokens (by decide) h).2 none

end TemplateTokens
