import NumberedBasic.Program.History

/-!
# The names of a program

The variables that a program reads, assigns or asks for, and programs that are the same as far as these
variables go. What other variables there are is left open.
-/

namespace NumberedBasic

def Expression.names : Expression → List String
  | constant _ => []
  | var name => [name]
  | compound _ lhs rhs => lhs.names ++ rhs.names

def Statement.names : Statement → List String
  | assign name value => name :: value.names
  | print value => value.names
  | input name => [name]
  | branch lhs _ rhs _ => lhs.names ++ rhs.names
  | remark _ | goto _ | finish => []

def Listing.names (listing : Listing) : List String := listing.lines.flatMap (·.2.names)

/-- Of these variables the same ones are declared, and with the same values. -/
def Bindings.AgreesOn (names : List String) (bindings other : Bindings) : Prop :=
  ∀ name ∈ names, bindings.fetch? name = other.fetch? name

namespace Program

/-- The line at the program counter assigns the variable. -/
def Assigns (program : Program) (name : String) : Prop :=
  ∃ line value, program.pc = some line ∧ program.listing.get? line = some (.assign name value)

/-- The same lines, about to execute the same one of them, and agreeing on the variables that they
name. -/
structure Alike (program other : Program) : Prop where
  listing : program.listing = other.listing
  pc : program.pc = other.pc
  bindings : Bindings.AgreesOn program.listing.names program.bindings other.bindings

end Program

end NumberedBasic
