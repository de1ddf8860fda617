import NumberedBasic.Program

/-!
# Renumbering

Moving every line of a program to a new number, and every jump with it.
-/

namespace NumberedBasic

namespace Statement

/-- The line that a statement may jump to. -/
def target? : Statement → Option LineNumber
  | goto target | branch _ _ _ target => some target
  | remark _ | assign _ _ | print _ | input _ | finish => none

def retarget (f : LineNumber → LineNumber) : Statement → Statement
  | goto target => goto (f target)
  | branch lhs comparator rhs target => branch lhs comparator rhs (f target)
  | statement => statement

end Statement

namespace Listing

def targets (listing : Listing) : List LineNumber :=
  listing.lines.filterMap fun entry => entry.2.target?

def renumber (f : LineNumber → LineNumber) (listing : Listing) : Listing :=
  ⟨listing.lines.map fun (line, statement) => (f line, statement.retarget f)⟩

/-- Stored lines keep their order and do not become line 0, and no two of the stored lines and the
targets become the same. -/
structure IsRenumbering (f : LineNumber → LineNumber) (listing : Listing) : Prop where
  increasing : ∀ line ∈ listing.numbers, ∀ other ∈ listing.numbers, line < other → f line < f other
  injective : ∀ line ∈ listing.numbers ++ listing.targets,
    ∀ other ∈ listing.numbers ++ listing.targets, f line = f other → line = other
  positive : ∀ line ∈ listing.numbers, f line ≠ 0

end Listing

namespace Program

def renumber (f : LineNumber → LineNumber) (program : Program) : Program :=
  { program with listing := program.listing.renumber f, pc := program.pc.map f }

end Program

namespace Fault

/-- What a fault of a step becomes when the lines move. A missing target is named by its new number. -/
inductive Renumbered (f : LineNumber → LineNumber) : Fault → Fault → Prop where
  | target (target : LineNumber) (line : Option LineNumber) :
      Renumbered f ((undefinedLine target).inLine line)
        ((undefinedLine (f target)).inLine (line.map f))
  | other {fault : Fault} :
      fault.code ≠ .undefinedLine → Renumbered f fault { fault with line := fault.line.map f }

end Fault

namespace Program

/-- A result stays what it is when the lines move, and a fault goes with them. -/
inductive ResultRenumbered (f : LineNumber → LineNumber) {α : Type} :
    Except Fault α → Except Fault α → Prop where
  | ok (result : α) : ResultRenumbered f (.ok result) (.ok result)
  | error {fault moved : Fault} :
      Fault.Renumbered f fault moved → ResultRenumbered f (.error fault) (.error moved)

end Program

end NumberedBasic
