import TemplateTokens.Command
import TemplateTokens.Decimal.Numeral
import TemplateTokens.Decimal.Positional
import TemplateTokens.Decimal.Shortest
import TemplateTokens.Dialect.Basic
import TemplateTokens.Dialect.Defect
import TemplateTokens.Directory
import TemplateTokens.Lexeme.Basic
import TemplateTokens.Lexeme.Bracket
import TemplateTokens.Lexeme.Operator
import TemplateTokens.Lexeme.Quoted
import TemplateTokens.Lexeme.TagEnd
import TemplateTokens.Lexeme.TagStart
import TemplateTokens.Lexeme.Verbatim
import TemplateTokens.Lexeme.Word
import TemplateTokens.Lexer.Basic
import TemplateTokens.Lexer.State
import TemplateTokens.Lexer.Step
import TemplateTokens.Lexer.Turn
import TemplateTokens.Main
import TemplateTokens.Position
import TemplateTokens.Ranking
import TemplateTokens.SyntaxError
import TemplateTokens.Text.Basic
import TemplateTokens.Text.Blank
import TemplateTokens.Text.LineBreak
import TemplateTokens.Text.Search
import TemplateTokens.Token.Basic
import TemplateTokens.Token.Constraint
import TemplateTokens.Token.Kind
import TemplateTokens.TokenStream
import TemplateTokens.Proofs.BracketError
import TemplateTokens.Proofs.BracketMatching
import TemplateTokens.Proofs.Command
import TemplateTokens.Proofs.CommentEnd
import TemplateTokens.Proofs.Concatenation
import TemplateTokens.Proofs.EndToken
import TemplateTokens.Proofs.ErrorLocation
import TemplateTokens.Proofs.Expectation
import TemplateTokens.Proofs.Grammar
import TemplateTokens.Proofs.Lexeme.Boundary
import TemplateTokens.Proofs.Lexeme.Cut
import TemplateTokens.Proofs.Lexeme.Extension
import TemplateTokens.Proofs.Lexeme.LongestOperator
import TemplateTokens.Proofs.Lexeme.Piece
import TemplateTokens.Proofs.Lexeme.Severed
import TemplateTokens.Proofs.Lexeme.Spelling
import TemplateTokens.Proofs.Lexeme.StringUnit
import TemplateTokens.Proofs.Lexeme.TagStart
import TemplateTokens.Proofs.Lexer.Advance
import TemplateTokens.Proofs.Lexer.Carry
import TemplateTokens.Proofs.Lexer.Closing
import TemplateTokens.Proofs.Lexer.Content
import TemplateTokens.Proofs.Lexer.Cut
import TemplateTokens.Proofs.Lexer.Fitting
import TemplateTokens.Proofs.Lexer.Layer
import TemplateTokens.Proofs.Lexer.Leads
import TemplateTokens.Proofs.Lexer.Move
import TemplateTokens.Proofs.Lexer.Opened
import TemplateTokens.Proofs.Lexer.Path
import TemplateTokens.Proofs.Lexer.Piece
import TemplateTokens.Proofs.Lexer.Refusal
import TemplateTokens.Proofs.Lexer.Run
import TemplateTokens.Proofs.Lexer.Slip
import TemplateTokens.Proofs.Lexer.Stacks
import TemplateTokens.Proofs.Lexer.Standard
import TemplateTokens.Proofs.Lexer.Step
import TemplateTokens.Proofs.Lexer.Stopped
import TemplateTokens.Proofs.NestedExpression
import TemplateTokens.Proofs.NextTagStart
import TemplateTokens.Proofs.Position
import TemplateTokens.Proofs.Progress
import TemplateTokens.Proofs.QuotedString
import TemplateTokens.Proofs.RoundTrip
import TemplateTokens.Proofs.Scopes
import TemplateTokens.Proofs.Segmentation
import TemplateTokens.Proofs.StringPiece
import TemplateTokens.Proofs.TagScan
import TemplateTokens.Proofs.TokenLanguage
import TemplateTokens.Proofs.TokenLocation
import TemplateTokens.Proofs.TrimMarker
import TemplateTokens.Proofs.VerbatimBlock
import TemplateTokens.Proofs.Zipper
