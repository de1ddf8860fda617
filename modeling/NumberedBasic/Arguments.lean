/-!
# Arguments

The command line names at most one file, which is loaded, and may ask to run it at once.
-/

namespace NumberedBasic

structure Arguments where
  file : Option String := none
  run : Bool := false
deriving DecidableEq, Repr

namespace Arguments

def usage : String := "usage: [--run | -r] [FILE]"

/-- Reads arguments in any order. After `--` everything is a file. -/
def parse : Arguments → List String → Except String Arguments
  | arguments, [] => .ok arguments
  | arguments, "--" :: rest => files arguments rest
  | arguments, word :: rest =>
      if word = "--run" || word = "-r" then
        parse { arguments with run := true } rest
      else if word.startsWith "-" && word ≠ "-" then
        .error ("unexpected argument " ++ word)
      else
        match files arguments [word] with
        | .ok arguments => parse arguments rest
        | .error reason => .error reason
where
  files : Arguments → List String → Except String Arguments
  | arguments, [] => .ok arguments
  | arguments, file :: rest =>
      match arguments.file with
      | none => files { arguments with file := some file } rest
      | some _ => .error ("unexpected argument " ++ file)

end Arguments

end NumberedBasic
