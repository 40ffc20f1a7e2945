/-!
# Kinds of token

Results:

* `Token.Kind.mem_all`: the list of kinds is complete.
* `Token.Kind.ofLabel?_label`: a kind is known by its label.
-/

namespace TemplateTokens

/-- What a token is. -/
inductive Token.Kind where
  /-- The end of the template. -/
  | eof
  /-- Text outside of tags, or the body of a comment or of a verbatim block. -/
  | text
  | blockStart
  /-- The end of a block tag with the line break it absorbs. -/
  | blockEnd
  | printStart
  | printEnd
  | commentStart
  /-- The end of a comment with the line break it absorbs. -/
  | commentEnd
  | name
  | number
  /-- A piece of a string between its quotes and interpolations, escapes as written. -/
  | string
  | operator
  | punctuation
  | openingQuote
  | closingQuote
  | interpolationStart
  | interpolationEnd
  | whitespace
  /-- The marker beside a delimiter that asks for the white space next to the tag to go. -/
  | trimming
  /-- The marker beside a delimiter that asks for the same within the line. -/
  | lineTrimming
deriving DecidableEq, Repr, Inhabited

namespace Token.Kind

/-- Every kind. -/
def all : List Kind :=
  [.eof, .text, .blockStart, .blockEnd, .printStart, .printEnd, .commentStart, .commentEnd,
    .name, .number, .string, .operator, .punctuation, .openingQuote, .closingQuote,
    .interpolationStart, .interpolationEnd, .whitespace, .trimming, .lineTrimming]

theorem mem_all (k : Kind) : k ∈ all := by cases k <;> decide

/-- The label of a kind. -/
def label : Kind → String
  | .eof => "EOF"
  | .text => "TEXT"
  | .blockStart => "BLOCK_START"
  | .blockEnd => "BLOCK_END"
  | .printStart => "VARIABLE_START"
  | .printEnd => "VARIABLE_END"
  | .commentStart => "COMMENT_START"
  | .commentEnd => "COMMENT_END"
  | .name => "NAME"
  | .number => "NUMBER"
  | .string => "STRING"
  | .operator => "OPERATOR"
  | .punctuation => "PUNCTUATION"
  | .openingQuote => "OPENING_QUOTE"
  | .closingQuote => "CLOSING_QUOTE"
  | .interpolationStart => "INTERPOLATION_START"
  | .interpolationEnd => "INTERPOLATION_END"
  | .whitespace => "WHITESPACE"
  | .trimming => "WHITESPACE_CONTROL_MODIFIER_TRIMMING"
  | .lineTrimming => "WHITESPACE_CONTROL_MODIFIER_LINE_TRIMMING"

/-- The kind with a given label. -/
def ofLabel? (s : String) : Option Kind := all.find? fun k => k.label == s

theorem ofLabel?_label (k : Kind) : ofLabel? k.label = some k := by cases k <;> decide

/-- The label of a kind behind the name of the enumeration. -/
def qualifiedLabel (k : Kind) : String := "TokenKind::" ++ k.label

/-- The words for a kind in an error message. -/
def description : Kind → String
  | .eof => "end of template"
  | .text => "text"
  | .blockStart => "begin of statement block"
  | .blockEnd => "end of statement block"
  | .printStart => "begin of print statement"
  | .printEnd => "end of print statement"
  | .commentStart => "begin of comment statement"
  | .commentEnd => "end of comment statement"
  | .name => "name"
  | .number => "number"
  | .string => "string"
  | .operator => "operator"
  | .punctuation => "punctuation"
  | .openingQuote => "opening quote"
  | .closingQuote => "closing quote"
  | .interpolationStart => "begin of string interpolation"
  | .interpolationEnd => "end of string interpolation"
  | .whitespace => "whitespace"
  | .trimming => "trimming whitespace control modifier"
  | .lineTrimming => "line trimming whitespace control modifier"

instance : ToString Kind := ⟨description⟩

end Token.Kind

end TemplateTokens
