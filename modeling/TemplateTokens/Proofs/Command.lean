import TemplateTokens.Command
import TemplateTokens.Proofs.RoundTrip

/-!
# What the command leaves behind

The command looks at each of its files alone. Which of its three tasks it is given makes no
difference to whether a file fails: a file that can be read and turned into tokens fails in none,
since its tokens always give the template back.

Results:

* `tokenize_serialize`: the tokens of a template in the standard dialect give it back.
* `Command.failed_report`: a file fails in every task or in none.
* `Command.out_summary`, `Command.err_summary`: what is written for a row of files is what is
  written for each of them alone, in order.
* `Command.exit_summary`: the exit code of a row tells whether one of its files fails.
* `Request.answer_files`: the exit code, what is written, and that the last task finds no
  difference.
-/

namespace TemplateTokens

open Piece

/-- The tokens of a template in the standard dialect make up the template. -/
theorem tokenize_serialize {source : Text} {stream : TokenStream}
    (h : tokenize source = .ok stream) : stream.serialize = source := by
  obtain ⟨s, ps, -, hsource, -, htokens⟩ :=
    Lexer.exists_path_of_tokenize (l := .standard) (by decide) h
  rw [TokenStream.serialize, htokens, List.flatMap_append, flatMap_text_tokensFrom, hsource]
  exact List.append_nil source

namespace Command

/-- Whether a path has no template in the standard dialect: it cannot be read, or it has no
tokens. -/
def fails (read : String → Except ReadError Text) (path : String) : Bool :=
  match read path with
  | .error _ => true
  | .ok source => !(tokenize source).isOk

theorem reportText_roundTrip (path : String) {source : Text} {stream : TokenStream}
    (h : tokenize source = .ok stream) :
    roundTrip.reportText path source = .line false path "round-trips" := by
  rw [reportText, h]
  exact if_pos (tokenize_serialize h)

theorem failed_reportText (c : Command) (path : String) (source : Text) :
    (c.reportText path source).failed = !(tokenize source).isOk := by
  cases h : tokenize source with
  | error e =>
    rw [reportText, h]
    rfl
  | ok stream =>
    cases c with
    | check =>
      rw [reportText, h]
      rfl
    | tokens =>
      rw [reportText, h]
      rfl
    | roundTrip =>
      rw [reportText_roundTrip path h]
      rfl

/-- What the last task says of a path: why it fails, or that its tokens give it back. -/
def remark (read : String → Except ReadError Text) (path : String) : String :=
  match read path with
  | .error e => toString e
  | .ok source =>
    match tokenize source with
    | .error e => toString e
    | .ok _ => "round-trips"

/-- The last task never finds a difference between a template and its tokens. -/
theorem report_roundTrip (read : String → Except ReadError Text) (path : String) :
    roundTrip.report path (read path) = .line (fails read path) path (remark read path) := by
  unfold fails remark
  cases read path with
  | error e => rfl
  | ok source =>
    dsimp only
    cases h : tokenize source with
    | error e =>
      rw [report, reportText, h]
      rfl
    | ok stream => exact reportText_roundTrip path h

/-- A file fails in every task or in none. -/
theorem failed_report (c : Command) (read : String → Except ReadError Text) (path : String) :
    (c.report path (read path)).failed = fails read path := by
  unfold fails
  cases read path with
  | error e => rfl
  | ok source => exact c.failed_reportText path source

theorem summary_singleton (r : Report) :
    summary [r] = ⟨if r.failed then 1 else 0, r.out, r.err⟩ := by
  simp [summary, String.join]

/-- What is written for a row of files is what is written for each of them alone, in order. -/
theorem out_summary (f : String → Report) (paths : List String) :
    (summary (paths.map f)).out = String.join (paths.map fun p => (summary [f p]).out) := by
  simp only [summary_singleton]
  show String.join ((paths.map f).map Report.out) = _
  rw [List.map_map]
  rfl

theorem err_summary (f : String → Report) (paths : List String) :
    (summary (paths.map f)).err = String.join (paths.map fun p => (summary [f p]).err) := by
  simp only [summary_singleton]
  show String.join ((paths.map f).map Report.err) = _
  rw [List.map_map]
  rfl

/-- The exit code tells whether one of the files fails. -/
theorem exit_summary (c : Command) (read : String → Except ReadError Text) (paths : List String) :
    (summary (paths.map fun p => c.report p (read p))).exit =
      if paths.any (fails read) then 1 else 0 := by
  have hfailed : (paths.map fun p => c.report p (read p)).any Report.failed =
      paths.any (fails read) := by
    rw [List.any_map]
    exact congrArg paths.any (funext fun p => c.failed_report read p)
  rw [summary, hfailed]

end Command

namespace Request

/-- The names of the three tasks. -/
def taskNames : List String := ["check", "tokens", "roundtrip"]

theorem exists_ofName? {name : String} (h : name ∈ taskNames) :
    ∃ c, Command.ofName? name = some c := by
  simp only [taskNames, List.mem_cons, List.not_mem_nil, or_false] at h
  rcases h with rfl | rfl | rfl
  · exact ⟨.check, rfl⟩
  · exact ⟨.tokens, rfl⟩
  · exact ⟨.roundTrip, rfl⟩

theorem answer_ofArgs (read : String → Except ReadError Text) {name : String} {c : Command}
    (hname : Command.ofName? name = some c) {paths : List String} (hpaths : paths ≠ []) :
    (ofArgs (name :: paths)).answer read =
      Command.summary (paths.map fun p => c.report p (read p)) := by
  have hhelp : ¬(name = "--help" || name = "-h") = true := by
    intro h
    simp only [Bool.or_eq_true, decide_eq_true_eq] at h
    rcases h with rfl | rfl
    · cases hname
    · cases hname
  rw [ofArgs, if_neg hhelp, hname]
  dsimp only
  rw [if_neg (by simpa using hpaths)]
  rfl

/-- Reads a file of a file system as text. -/
def readFrom (files : String → Except ReadError ByteArray) (path : String) :
    Except ReadError Text := (files path).bind decodeFile

/-- Whatever the file system holds, the exit code tells whether one of the files fails and is the
same for every task, what is written is what is written for each file alone, in order, and the last
task says of each file why it fails or that its tokens give it back. -/
theorem answer_files (files : String → Except ReadError ByteArray) {name : String}
    (hname : name ∈ taskNames) {paths : List String} (hpaths : paths ≠ []) :
    let read := readFrom files
    let outcome (name : String) (paths : List String) := (ofArgs (name :: paths)).answer read
    (outcome name paths).exit = (if paths.any (Command.fails read) then 1 else 0) ∧
      (outcome name paths).out = String.join (paths.map fun p => (outcome name [p]).out) ∧
      (outcome name paths).err = String.join (paths.map fun p => (outcome name [p]).err) ∧
      ∀ p, (outcome "roundtrip" [p]).err = s!"{p}: {Command.remark read p}\n" := by
  intro read outcome
  obtain ⟨c, hc⟩ := exists_ofName? hname
  have hone : ∀ p, outcome name [p] = Command.summary [c.report p (read p)] := by
    intro p
    exact answer_ofArgs read hc (List.cons_ne_nil p [])
  have hall : outcome name paths = Command.summary (paths.map fun p => c.report p (read p)) :=
    answer_ofArgs read hc hpaths
  refine ⟨?_, ?_, ?_, ?_⟩
  · rw [hall, Command.exit_summary]
  · rw [hall, Command.out_summary]
    exact congrArg String.join (List.map_congr_left fun p _ => by rw [hone])
  · rw [hall, Command.err_summary]
    exact congrArg String.join (List.map_congr_left fun p _ => by rw [hone])
  · intro p
    have hround : outcome "roundtrip" [p] =
        Command.summary [Command.roundTrip.report p (read p)] :=
      answer_ofArgs read rfl (List.cons_ne_nil p [])
    rw [hround, Command.summary_singleton, Command.report_roundTrip]
    rfl

/-- A path without a file, a file that is not text, and one with a template. -/
theorem answer_files_missing : "roundtrip" ∈ taskNames ∧ ["missing", "picture", "page"] ≠ [] ∧
    ∃ outcome, (ofArgs ["roundtrip", "missing", "picture", "page"]).answer
        (readFrom fun p =>
          if p = "page" then .ok "\x7b\x7bx\x7d\x7d".toUTF8
          else if p = "picture" then .ok ⟨#[0xff]⟩ else .error .missing) = outcome ∧
      outcome.exit = 1 ∧
      outcome.err = "missing: No such file or directory (os error 2)\n" ++
        "picture: stream did not contain valid UTF-8\n" ++ "page: round-trips\n" := by
  have hname : "roundtrip" ∈ taskNames := by decide
  have hpaths : ["missing", "picture", "page"] ≠ [] := by decide
  obtain ⟨hexit, -, herr, hround⟩ := answer_files
    (fun p =>
      if p = "page" then .ok "\x7b\x7bx\x7d\x7d".toUTF8
      else if p = "picture" then .ok ⟨#[0xff]⟩ else .error .missing) hname hpaths
  refine ⟨hname, hpaths, _, rfl, hexit, ?_⟩
  rw [herr]
  simp only [List.map_cons, hround]
  rfl

end Request

end TemplateTokens
