import NumberedBasic.Directory
import NumberedBasic.Program

/-!
# Source files

A file is a sequence of bytes. Its lines end at line feeds, with or without a carriage return before
them; each has to be UTF-8 and a line of source. The program is complete or there is none: the first
line that fails decides.
-/

namespace NumberedBasic

namespace SourceFile

inductive Failure where
  | unavailable (cause : Directory.Failure)
  | notText
  | line (position : Nat) (fault : Fault)
deriving DecidableEq, Repr

def Failure.message (file : String) : Failure → String
  | unavailable cause => file ++ ": " ++ cause.reason
  | notText => file ++ ": stream did not contain valid UTF-8"
  | line position fault =>
      fault.message ++ "; in line " ++ toString position ++ " of " ++ file

/-- Splits a file at its line ends. What follows the last of them is a line if it is not empty. -/
def lines : List UInt8 → List (List UInt8)
  | [] => []
  | 13 :: 10 :: rest => [] :: lines rest
  | 10 :: rest => [] :: lines rest
  | byte :: rest =>
      match lines rest with
      | [] => [[byte]]
      | line :: others => (byte :: line) :: others

def decode? (bytes : List UInt8) : Option String := String.fromUTF8? ⟨bytes.toArray⟩

/-- Feeds lines to a program; `position` is the number of the first. -/
def loadLines (position : Nat) (program : Program) : List (List UInt8) → Except Failure Program
  | [] => .ok program
  | bytes :: rest =>
      match decode? bytes with
      | none => .error .notText
      | some text =>
          match program.load text with
          | (.error fault, _) => .error (.line position fault)
          | (.ok (), loaded) => loadLines (position + 1) loaded rest

def load (content : List UInt8) : Except Failure Program := loadLines 1 {} (lines content)

end SourceFile

end NumberedBasic
