import TemplateTokens.Command

/-!
# The program

Reads the files that the arguments name, and writes the answer.
-/

namespace TemplateTokens

/-- The reason for a failed read, as the system gives it. -/
def readErrorOf : IO.Error → ReadError
  | .alreadyExists _ code reason => .ofCode code.toNat reason
  | .otherError code reason => .ofCode code.toNat reason
  | .resourceBusy code reason => .ofCode code.toNat reason
  | .resourceVanished code reason => .ofCode code.toNat reason
  | .unsupportedOperation code reason => .ofCode code.toNat reason
  | .hardwareFault code reason => .ofCode code.toNat reason
  | .unsatisfiedConstraints code reason => .ofCode code.toNat reason
  | .illegalOperation code reason => .ofCode code.toNat reason
  | .protocolError code reason => .ofCode code.toNat reason
  | .timeExpired code reason => .ofCode code.toNat reason
  | .interrupted _ code reason => .ofCode code.toNat reason
  | .noFileOrDirectory _ code reason => .ofCode code.toNat reason
  | .invalidArgument _ code reason => .ofCode code.toNat reason
  | .permissionDenied _ code reason => .ofCode code.toNat reason
  | .resourceExhausted _ code reason => .ofCode code.toNat reason
  | .inappropriateType _ code reason => .ofCode code.toNat reason
  | .noSuchThing _ code reason => .ofCode code.toNat reason
  | .unexpectedEof => .ofCode 5 ""
  | .userError reason => .ofCode 5 reason

/-- The text of a file of the system. -/
def readFile (path : String) : IO (Except ReadError Text) := do
  try
    let bytes ← IO.FS.readBinFile path
    return decodeFile bytes
  catch e => return .error (readErrorOf e)

end TemplateTokens

open TemplateTokens in
/-- Answers the request that the arguments make. -/
def main (args : List String) : IO UInt32 := do
  let request := Request.ofArgs args
  let contents ← request.paths.mapM fun path => return (path, ← readFile path)
  let outcome := request.answer fun path => (contents.lookup path).getD (.error .missing)
  IO.print outcome.out
  IO.eprint outcome.err
  return outcome.exit.toUInt32
