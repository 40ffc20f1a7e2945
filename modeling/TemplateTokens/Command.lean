import TemplateTokens.Directory
import TemplateTokens.TokenStream

/-!
# The command

The command reads template files in the standard dialect. It checks them, prints their tokens, or
checks that the tokens give the template back. Each file is reported on its own; one that fails
only changes the exit code.

Results:

* `Command.summary_append`: the reports of a row of files are put together in order.
-/

namespace TemplateTokens

/-! ## Reports -/

/-- What is written for a file, and whether it failed. -/
structure Report where
  out : String
  err : String
  failed : Bool
deriving DecidableEq, Repr

namespace Report

/-- A line on the error channel. -/
def line (failed : Bool) (path text : String) : Report := ⟨"", s!"{path}: {text}\n", failed⟩

end Report

/-- What a run of the command leaves behind. -/
structure Outcome where
  exit : Nat
  out : String
  err : String
deriving DecidableEq, Repr

/-! ## Commands -/

/-- What is done with each file. -/
inductive Command where
  | check
  | tokens
  | roundTrip
deriving DecidableEq, Repr

namespace Command

/-- The command with a given name. -/
def ofName? : String → Option Command
  | "check" => some .check
  | "tokens" => some .tokens
  | "roundtrip" => some .roundTrip
  | _ => none

/-- The report on a template with the given text. -/
def reportText (c : Command) (path : String) (source : Text) : Report :=
  match tokenize source with
  | .error e => .line true path (toString e)
  | .ok stream =>
    match c with
    | .check => .line false path s!"valid ({stream.tokens.size} token(s))"
    | .tokens => ⟨s!"{stream}\n", "", false⟩
    | .roundTrip =>
      if stream.serialize = source then .line false path "round-trips"
      else .line true path "serialized tokens differ from source"

/-- The report on a file. -/
def report (c : Command) (path : String) : Except ReadError Text → Report
  | .error e => .line true path (toString e)
  | .ok source => c.reportText path source

/-- The reports on a row of files, put together. -/
def summary (reports : List Report) : Outcome where
  exit := if reports.any Report.failed then 1 else 0
  out := String.join (reports.map Report.out)
  err := String.join (reports.map Report.err)

theorem summary_append (r s : List Report) :
    summary (r ++ s) =
      ⟨if (summary r).exit = 1 then 1 else (summary s).exit,
        (summary r).out ++ (summary s).out, (summary r).err ++ (summary s).err⟩ := by
  cases h : r.any Report.failed <;> simp [summary, h, List.any_append, String.join_append]

end Command

/-! ## Arguments -/

/-- What the arguments of the command ask for. -/
inductive Request where
  | usage
  | unknown (name : String)
  | noFiles
  | files (command : Command) (paths : List String)
deriving DecidableEq, Repr

namespace Request

/-- The request made by arguments. -/
def ofArgs : List String → Request
  | [] => .usage
  | name :: paths =>
    if name = "--help" || name = "-h" then .usage
    else
      match Command.ofName? name with
      | none => .unknown name
      | some command => if paths.isEmpty then .noFiles else .files command paths

/-- How the command is used. -/
def usageText : String :=
  "Usage: twig-lex <command> [files...]\n" ++
  "\n" ++
  "Commands:\n" ++
  "  check      Check if template(s) lex without errors\n" ++
  "  tokens     Print the token stream of template(s)\n" ++
  "  roundtrip  Check that tokens serialize back to the source\n" ++
  "\n" ++
  "Examples:\n" ++
  "  twig-lex check index.html.twig\n" ++
  "  twig-lex tokens index.html.twig\n" ++
  "  twig-lex roundtrip templates/*.twig\n"

/-- The files that a request reads. -/
def paths : Request → List String
  | .files _ paths => paths
  | _ => []

/-- The answer to a request, where `read` gives the text of a file. -/
def answer (read : String → Except ReadError Text) : Request → Outcome
  | .usage => ⟨2, "", usageText⟩
  | .unknown name => ⟨2, "", s!"Unknown command: {name}\n"⟩
  | .noFiles => ⟨2, "", "Error: no files specified\n"⟩
  | .files command paths => Command.summary (paths.map fun p => command.report p (read p))

end Request

end TemplateTokens
