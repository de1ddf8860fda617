import NumberedBasic.Statement.Parser
import NumberedBasic.Text.Blank

/-!
# Source lines

A numbered line of a program. A number with nothing after it stands for the removal of that line.
-/

namespace NumberedBasic

structure SourceLine where
  number : LineNumber
  statement : Option Statement
deriving DecidableEq, Repr

namespace SourceLine

def isLineEnd (c : Char) : Bool := c = '\r' || c = '\n'

/-- Reads a line, with or without its line end. A blank line is no line. -/
def parse (text : String) : Except Fault (Option SourceLine) :=
  match Token.scanChars (Text.trimEnd isLineEnd text.toList) with
  | [] => .ok none
  | first :: body =>
      match first.lineNumber with
      | .error fault => .error fault
      | .ok number =>
          if body.isEmpty then
            .ok (some ⟨number, none⟩)
          else
            match Statement.parse body with
            | .error fault => .error (fault.inLine (some number))
            | .ok statement => .ok (some ⟨number, some statement⟩)

def text (line : SourceLine) : String :=
  match line.statement with
  | some statement => toString line.number ++ " " ++ statement.text
  | none => toString line.number

end SourceLine

end NumberedBasic
