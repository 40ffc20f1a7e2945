import TemplateTokens.Dialect.Basic

/-!
# Defects of a dialect

A dialect cannot be used if one of its delimiters or operators is empty, if two tags open alike,
or if its trim markers are the same character. Of several defects the first in this order is
reported: delimiters, tags, markers, operators.

Results:

* `Dialect.defect?_standard`: the standard dialect has no defect.
* `Dialect.delimiter_ne_nil`, `Dialect.opening_ne_nil`, `Dialect.trim_ne_lineTrim`,
  `Dialect.opening_injective`: what a dialect without defect promises.
-/

namespace TemplateTokens

/-- A reason why a dialect cannot be used. -/
inductive Dialect.Defect where
  /-- The delimiter with this name is empty. -/
  | emptyDelimiter (name : String)
  /-- Two tags open with this delimiter. -/
  | duplicateTagStart (opening : Text)
  /-- Both trim markers are this character. -/
  | duplicateTrimMarker (marker : Char)
  /-- One of the operators is empty. -/
  | emptyOperator
deriving DecidableEq, Repr

namespace Dialect

/-- The message for a defect. -/
def Defect.message : Defect → String
  | .emptyDelimiter name => s!"{name} delimiter must not be empty"
  | .duplicateTagStart opening =>
    s!"tag start delimiter '{String.ofList opening}' is used more than once"
  | .duplicateTrimMarker marker => s!"whitespace trim markers must differ, got '{marker}' twice"
  | .emptyOperator => "operators must not be empty"

instance : ToString Defect := ⟨Defect.message⟩

/-- The delimiters of a dialect with their names. -/
def delimiters (d : Dialect) : List (String × Text) :=
  [("print start", d.print.opening), ("print end", d.print.closing),
    ("block start", d.block.opening), ("block end", d.block.closing),
    ("comment start", d.comment.opening), ("comment end", d.comment.closing),
    ("interpolation start", d.interpolation.opening),
    ("interpolation end", d.interpolation.closing)]

/-- The first delimiter that opens two tags. -/
def duplicateOpening? (d : Dialect) : Option Text :=
  if d.print.opening = d.block.opening || d.print.opening = d.comment.opening then
    some d.print.opening
  else if d.block.opening = d.comment.opening then some d.block.opening
  else none

/-- The first defect of a dialect. -/
def defect? (d : Dialect) : Option Defect :=
  match d.delimiters.find? fun p => p.2.isEmpty with
  | some (name, _) => some (.emptyDelimiter name)
  | none =>
    match d.duplicateOpening? with
    | some opening => some (.duplicateTagStart opening)
    | none =>
      if d.trim = d.lineTrim then some (.duplicateTrimMarker d.trim)
      else if d.operators.any List.isEmpty then some .emptyOperator
      else none

theorem defect?_standard : standard.defect? = none := by decide

/-! ## What a dialect without defect promises -/

variable {d : Dialect}

theorem delimiter_ne_nil (h : d.defect? = none) : ∀ p ∈ d.delimiters, p.2 ≠ [] := by
  unfold defect? at h
  split at h
  · simp at h
  · rename_i hf
    intro p hp he
    have := List.find?_eq_none.1 hf p hp
    simp [he] at this

theorem opening_ne_nil (h : d.defect? = none) (t : Tag) : d.opening t ≠ [] := by
  cases t with
  | print => exact delimiter_ne_nil h ("print start", _) (by simp [delimiters])
  | block => exact delimiter_ne_nil h ("block start", _) (by simp [delimiters])
  | comment => exact delimiter_ne_nil h ("comment start", _) (by simp [delimiters])

theorem print_closing_ne_nil (h : d.defect? = none) : d.print.closing ≠ [] :=
  delimiter_ne_nil h ("print end", _) (by simp [delimiters])

theorem block_closing_ne_nil (h : d.defect? = none) : d.block.closing ≠ [] :=
  delimiter_ne_nil h ("block end", _) (by simp [delimiters])

theorem comment_closing_ne_nil (h : d.defect? = none) : d.comment.closing ≠ [] :=
  delimiter_ne_nil h ("comment end", _) (by simp [delimiters])

theorem interpolation_opening_ne_nil (h : d.defect? = none) : d.interpolation.opening ≠ [] :=
  delimiter_ne_nil h ("interpolation start", _) (by simp [delimiters])

theorem interpolation_closing_ne_nil (h : d.defect? = none) : d.interpolation.closing ≠ [] :=
  delimiter_ne_nil h ("interpolation end", _) (by simp [delimiters])

theorem trim_ne_lineTrim (h : d.defect? = none) : d.trim ≠ d.lineTrim := by
  unfold defect? at h
  split at h
  · simp at h
  · split at h
    · simp at h
    · split at h
      · simp at h
      · assumption

theorem opening_injective (h : d.defect? = none) {s t : Tag} (e : d.opening s = d.opening t) :
    s = t := by
  unfold defect? at h
  split at h
  · simp at h
  · split at h
    · simp at h
    · rename_i hd
      simp only [duplicateOpening?, Bool.or_eq_true, decide_eq_true_eq] at hd
      split at hd
      · simp at hd
      · rename_i hp
        split at hd
        · simp at hd
        · rename_i hb
          cases s <;> cases t <;> simp only [opening] at e <;> simp [e] at hp hb ⊢

end Dialect

end TemplateTokens
