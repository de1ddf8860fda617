import NumberedBasic.Arguments
import NumberedBasic.Shell

/-!
# The command line

The shell on standard input and output.
-/

namespace NumberedBasic

/-- A console without history or breaks. -/
def terminal : Console IO where
  takeBreak := return false
  read prompt := do
    let output ← IO.getStdout
    output.putStr prompt.text
    output.flush
    try
      let line ← (← IO.getStdin).getLine
      if line.isEmpty then
        return .endOfInput
      return .line (String.ofList (Text.trimEnd SourceLine.isLineEnd line.toList))
    catch error =>
      return .failure (toString error)
  write text := do
    let output ← IO.getStdout
    output.putStr text
    output.flush
  remember _ := return
  discard := return
  complain reason := IO.eprintln reason
  contents file := do
    try
      return .ok (← IO.FS.readBinFile file).toList
    catch
      | .noFileOrDirectory .. => return .error .missing
      | .inappropriateType _ 21 _ => return .error .isDirectory
      | error => return .error (.other (toString error))

partial def serve (session : Session) : IO Unit := do
  if let some session ← Shell.turn terminal session then
    serve session

end NumberedBasic

open NumberedBasic in
def main (words : List String) : IO UInt32 := do
  match Arguments.parse {} words with
  | .ok arguments =>
      serve (← Shell.start terminal arguments.file arguments.run)
      return 0
  | .error reason =>
      IO.eprintln reason
      IO.eprintln Arguments.usage
      return 2
