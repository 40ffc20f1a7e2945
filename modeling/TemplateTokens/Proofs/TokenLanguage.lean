import TemplateTokens.Proofs.Lexer.Fitting

/-!
# The languages of the tokens

The value of each token is a word of the language of its kind. For most kinds the dialect alone says
what the value is; names, numbers, operators, strings and the ends of tags also say what may stand
around them in the template.

Results:

* `Lexer.admits_of_tokenize`: each token is admitted where it stands in the template.
-/

namespace TemplateTokens

open Piece

/-- In a dialect whose operators can be seen, the value of each token of a template is in the
language of its kind, and what stands before and behind it is what its kind allows there: the row of
the tokens may be cut at any of them, and the texts of the two parts are the template before and
behind the token. -/
theorem Lexer.admits_of_tokenize {l : Lexer} (hv : l.dialect.Visible) {source : Text}
    {stream : TokenStream} (h : l.tokenize source = .ok stream) {before after : List Piece}
    {p : Piece} (hsplit : stream.tokens.toList.map Token.piece = before ++ p :: after) :
    source = texts before ++ (p.value ++ texts after) ∧
      l.dialect.Admits (InVerbatimTag before p after) before p (texts after) := by
  obtain ⟨hsource, hfitting⟩ := fitting_of_tokenize hv h
  have hadmits := hfitting before p after hsplit
  rw [List.nil_append, List.append_nil] at hadmits
  rw [hsplit, texts_append, texts_cons] at hsource
  exact ⟨hsource.symm, hadmits⟩

/-- An operator of two words stands in front of a space, and the end of a block tag takes a line
break of two characters along, but not the next one. -/
theorem Lexer.admits_operator_blockEnd : Dialect.standard.Visible ∧
    ∃ stream before after before' after', standard.tokenize
        ['{', '%', 'i', 's', ' ', '\t', 'n', 'o', 't', ' ', '%', '}', '\r', '\n', '\n'] =
          .ok stream ∧
      stream.tokens.toList.map Token.piece =
        before ++ ⟨.operator, ['i', 's', ' ', '\t', 'n', 'o', 't']⟩ :: after ∧
      Dialect.standard.IsOperator ['i', 's', ' ', '\t', 'n', 'o', 't'] (texts after) ∧
      stream.tokens.toList.map Token.piece =
        before' ++ ⟨.blockEnd, ['%', '}', '\r', '\n']⟩ :: after' ∧
      Dialect.standard.Admits (InVerbatimTag before' ⟨.blockEnd, ['%', '}', '\r', '\n']⟩ after')
        before' ⟨.blockEnd, ['%', '}', '\r', '\n']⟩ (texts after') := by
  obtain ⟨stream, h, hoperator, hend⟩ : ∃ stream, standard.tokenize
        ['{', '%', 'i', 's', ' ', '\t', 'n', 'o', 't', ' ', '%', '}', '\r', '\n', '\n'] =
          .ok stream ∧
      stream.tokens.toList.map Token.piece = [⟨.blockStart, ['{', '%']⟩] ++
        ⟨.operator, ['i', 's', ' ', '\t', 'n', 'o', 't']⟩ :: [⟨.whitespace, [' ']⟩,
          ⟨.blockEnd, ['%', '}', '\r', '\n']⟩, ⟨.text, ['\n']⟩, ⟨.eof, []⟩] ∧
      stream.tokens.toList.map Token.piece = [⟨.blockStart, ['{', '%']⟩,
        ⟨.operator, ['i', 's', ' ', '\t', 'n', 'o', 't']⟩, ⟨.whitespace, [' ']⟩] ++
          ⟨.blockEnd, ['%', '}', '\r', '\n']⟩ :: [⟨.text, ['\n']⟩, ⟨.eof, []⟩] :=
    ⟨_, rfl, rfl, rfl⟩
  exact ⟨by decide, stream, _, _, _, _, h, hoperator,
    (admits_of_tokenize (by decide) h hoperator).2, hend,
    (admits_of_tokenize (by decide) h hend).2⟩

end TemplateTokens
