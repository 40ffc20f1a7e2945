import TemplateTokens.Proofs.Lexer.Run

/-!
# Tokens make up the template

The tokens of a template are its pieces from left to right: nothing is lost between them, nothing
is read twice, and only the end of the template stands for nothing.

Results:

* `Lexer.serialize_eq_source`: the texts of the tokens, one behind the other, are the template, and
  each token stands at the sum of the sizes of those before it.
-/

namespace TemplateTokens

open Piece

/-- The offset at which a token of a stream should stand: the sizes of those before it, added up. -/
def TokenStream.offsetAt (stream : TokenStream) (k : Nat) : Nat :=
  (stream.tokens.toList.take k).foldl (fun size t => size + byteSize t.text) 0

namespace Piece

theorem length_tokensFrom (l : Location) (ps : List Piece) :
    (tokensFrom l ps).length = ps.length := by
  conv => rhs; rw [← map_piece_tokensFrom l ps, List.length_map]

theorem flatMap_text_tokensFrom (l : Location) (ps : List Piece) :
    (tokensFrom l ps).flatMap Token.text = texts ps := by
  conv => rhs; rw [← map_piece_tokensFrom l ps]
  rw [texts, List.flatMap_map]
  rfl

theorem foldl_byteSize_eq (ts : List Token) (size : Nat) :
    ts.foldl (fun size t => size + byteSize t.text) size =
      size + byteSize (ts.flatMap Token.text) := by
  induction ts generalizing size with
  | nil => rfl
  | cons t ts ih =>
    rw [List.foldl_cons, ih, List.flatMap_cons, byteSize_append, Nat.add_assoc]

/-- A token stands in the text that a row of tokens makes up, behind the tokens before it. -/
theorem sliceAt_getElem {ts : List Token} {k : Nat} (hk : k < ts.length) :
    SliceAt (ts.flatMap Token.text)
      ((ts.take k).foldl (fun size t => size + byteSize t.text) 0) ts[k].text := by
  refine ⟨(ts.take k).flatMap Token.text, (ts.drop (k + 1)).flatMap Token.text, ?_, ?_⟩
  · rw [← List.flatMap_cons, List.getElem_cons_drop, ← List.flatMap_append, List.take_append_drop]
  · rw [foldl_byteSize_eq, Nat.zero_add]

end Piece

/-- The texts of the tokens make up the template. Each but the last has a text, which is what the
template has at the sum of the sizes of the texts before it; the last stands for the end of the
template and has none. -/
theorem Lexer.serialize_eq_source {l : Lexer} (hv : l.dialect.Visible) {source : Text}
    {stream : TokenStream} (h : l.tokenize source = .ok stream) :
    stream.serialize = source ∧
      ∀ k t, stream.tokens[k]? = some t →
        SliceAt source (stream.offsetAt k) t.text ∧
          (k + 1 < stream.tokens.size → t.kind ≠ .eof ∧ ∃ v, t.value = some v ∧ v ≠ []) ∧
          (k + 1 = stream.tokens.size → t.kind = .eof ∧ t.value = none) := by
  obtain ⟨s, ps, -, hsource, hproper, htokens⟩ := exists_path_of_tokenize hv h
  have hall : stream.tokens.toList.flatMap Token.text = source := by
    rw [htokens, List.flatMap_append, flatMap_text_tokensFrom, hsource, List.flatMap_singleton,
      Token.text_eof, List.append_nil]
  have hsize : stream.tokens.size = ps.length + 1 := by
    rw [← Array.length_toList, htokens, List.length_append, length_tokensFrom,
      List.length_singleton]
  refine ⟨hall, fun k t ht => ⟨?_, ?_, ?_⟩⟩
  · rw [← Array.getElem?_toList] at ht
    obtain ⟨hk, rfl⟩ := List.getElem?_eq_some_iff.1 ht
    rw [← hall]
    exact sliceAt_getElem hk
  · intro hk
    have hlt : k < (tokensFrom Location.start ps).length := by
      rw [length_tokensFrom]
      omega
    rw [← Array.getElem?_toList, htokens, List.getElem?_append_left hlt] at ht
    have hmem := List.mem_of_getElem? ht
    have hp : t.piece ∈ ps := by
      rw [← map_piece_tokensFrom Location.start ps]
      exact List.mem_map_of_mem hmem
    exact ⟨(hproper _ hp).2, t.text, value_of_mem_tokensFrom hmem, (hproper _ hp).1⟩
  · intro hk
    have hk : k = (tokensFrom Location.start ps).length := by
      rw [length_tokensFrom]
      omega
    rw [← Array.getElem?_toList, htokens, List.getElem?_append_right (Nat.le_of_eq hk.symm), hk,
      Nat.sub_self] at ht
    cases ht
    exact ⟨rfl, rfl⟩

/-- An interpolation that begins and ends like a group. -/
theorem Lexer.serialize_parenthesized : Dialect.parenthesized.Visible ∧
    ∃ stream, parenthesized.tokenize ['{', '{', '"', '(', 'a', ')', '"', '}', '}'] = .ok stream ∧
      stream.serialize = ['{', '{', '"', '(', 'a', ')', '"', '}', '}'] := by
  obtain ⟨stream, h⟩ : ∃ stream, parenthesized.tokenize
      ['{', '{', '"', '(', 'a', ')', '"', '}', '}'] = .ok stream := ⟨_, rfl⟩
  exact ⟨by decide, stream, h, (serialize_eq_source (by decide) h).1⟩

end TemplateTokens
