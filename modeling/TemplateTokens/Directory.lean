import TemplateTokens.Text.Basic

/-!
# Reading files

Reading a file gives its text or the reason why there is none, in the words of the system. A
`Directory` is a tree of files held in memory that is read by path as the working directory of a
command is.

Results:

* `Directory.read_empty_path`: there is no file without a name.
-/

namespace TemplateTokens

/-- Why a file could not be read as text. -/
inductive ReadError where
  /-- The system refused, with its number and its words for the reason. -/
  | system (code : Nat) (reason : String)
  /-- The file is not in UTF-8. -/
  | notText
deriving DecidableEq, Repr

namespace ReadError

/-- The words for the reasons that reading a file commonly fails for. -/
def reasons : List (Nat × String) :=
  [(2, "No such file or directory"), (5, "Input/output error"), (13, "Permission denied"),
    (20, "Not a directory"), (21, "Is a directory"), (36, "File name too long"),
    (40, "Too many levels of symbolic links")]

/-- The error with a system number, which may come with its sign reversed in 32 bits. Where the
number has no words of its own here, `reason` gives them. -/
def ofCode (code : Nat) (reason : String) : ReadError :=
  let number := if Nat.pow 2 31 ≤ code then Nat.pow 2 32 - code else code
  .system number ((reasons.lookup number).getD reason)

def missing : ReadError := ofCode 2 ""

def notDirectory : ReadError := ofCode 20 ""

def isDirectory : ReadError := ofCode 21 ""

def nameTooLong : ReadError := ofCode 36 ""

/-- The message for a failed read. -/
def message : ReadError → String
  | .system code reason => s!"{reason} (os error {code})"
  | .notText => "stream did not contain valid UTF-8"

instance : ToString ReadError := ⟨message⟩

end ReadError

/-- The text of a file with the given bytes. -/
def decodeFile (bytes : ByteArray) : Except ReadError Text :=
  match String.fromUTF8? bytes with
  | some s => .ok s.toList
  | none => .error .notText

/-- The files of a directory and of those inside it, by their paths; a later entry replaces an
earlier one with its path. -/
structure Directory where
  files : List (String × ByteArray)

namespace Directory

/-- The names on a path. -/
def components (path : String) : List String :=
  (path.toList.splitOnP (· = '/')).map String.ofList

/-- A place in the tree of files. -/
inductive Place where
  /-- The file with these bytes. -/
  | file (bytes : ByteArray)
  /-- The directory reached by these names. -/
  | inside (names : List String)
  /-- A directory around the one that holds the files. -/
  | outside

/-- The place reached from a directory by a name that is not a dot or two. -/
def child (d : Directory) (names : List String) (name : String) : Except ReadError Place :=
  let reached := names ++ [name]
  match d.files.reverse.find? fun f => components f.1 == reached with
  | some f => .ok (.file f.2)
  | none =>
    if d.files.any fun f => reached.isPrefixOf (components f.1) then .ok (.inside reached)
    else .error .missing

/-- The place reached by one name of a path. An empty name and a dot stay, two dots go up. -/
def enter (d : Directory) (place : Place) (name : String) : Except ReadError Place :=
  match place with
  | .file _ => .error .notDirectory
  | .inside names =>
    if 255 < name.utf8ByteSize then .error .nameTooLong
    else if name = "" || name = "." then .ok place
    else if name = ".." then .ok (if names.isEmpty then .outside else .inside names.dropLast)
    else d.child names name
  | .outside =>
    if 255 < name.utf8ByteSize then .error .nameTooLong
    else if name = "" || name = "." || name = ".." then .ok place
    else .error .missing

/-- The text of the file at a path. -/
def read (d : Directory) (path : String) : Except ReadError Text :=
  if path = "" then .error .missing
  else if 4096 ≤ path.utf8ByteSize then .error .nameTooLong
  else
    match components path with
    | "" :: names =>
      (names.foldlM d.enter .outside).bind fun _ => .error .isDirectory
    | names =>
      (names.foldlM d.enter (.inside [])).bind fun place =>
        match place with
        | .file bytes => decodeFile bytes
        | _ => .error .isDirectory

theorem read_empty_path (d : Directory) : d.read "" = .error .missing := rfl

end Directory

end TemplateTokens
