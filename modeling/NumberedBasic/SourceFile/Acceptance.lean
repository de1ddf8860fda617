import NumberedBasic.Listing.Source
import NumberedBasic.Program.History
import NumberedBasic.SourceFile

/-!
# Accepted files

What a file has to be for its program to be loaded, which program that is, and which of its lines is
blamed if there is none. None of this says in what order the lines are taken in, except that an earlier
line is blamed before a later one.
-/

namespace NumberedBasic

namespace SourceFile

/-- What is text, and is read as a line of source or as a blank one. -/
def Accepts (bytes : List UInt8) : Prop :=
  ∃ text line, decode? bytes = some text ∧ SourceLine.parse text = .ok line

def IsSource (content : List UInt8) : Prop := ∀ bytes ∈ lines content, Accepts bytes

/-- Why the line at a position is not accepted. -/
inductive Rejects (position : Nat) (bytes : List UInt8) : Failure → Prop where
  | notText : decode? bytes = none → Rejects position bytes .notText
  | line {text : String} {fault : Fault} : decode? bytes = some text →
      SourceLine.parse text = .error fault → Rejects position bytes (.line position fault)

/-- The failure is that of the first line which is not accepted. The lines count from `position`. -/
def FailsFirst (position : Nat) (lines : List (List UInt8)) (failure : Failure) : Prop :=
  ∃ before bytes after, lines = before ++ bytes :: after ∧ (∀ earlier ∈ before, Accepts earlier) ∧
    Rejects (position + before.length) bytes failure

/-- A program without variables and at its top, with what the lines of the file give one after the
other. -/
structure IsProgramOf (content : List UInt8) (program : Program) : Prop where
  bindings : program.bindings = {}
  atTop : program.AtTop
  listing : ∃ texts, (lines content).mapM decode? = some texts ∧
    Listing.loadAll {} texts = .ok program.listing

end SourceFile

end NumberedBasic
