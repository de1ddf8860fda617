import NumberedBasic.Program

/-!
# Effects

What a statement comes to once its expressions have been evaluated. The effect depends on the
statement and on the values of the variables only; what becomes of the program is then a matter of the
effect and of the line numbers.
-/

namespace NumberedBasic

inductive Effect where
  /-- A variable may receive a value, a value may be printed, and the next line follows. -/
  | passes (assigned : Option (String × Value)) (printed : Option Value)
  | jumps (target : LineNumber)
  | finishes
  | awaits (name : String)
  | fails (fault : Fault)
deriving DecidableEq, Repr

def Statement.effect (bindings : Bindings) : Statement → Effect
  | remark _ => .passes none none
  | assign name expression =>
      match expression.evaluate bindings with
      | .ok value => .passes (some (name, value)) none
      | .error fault => .fails fault
  | print expression =>
      match expression.evaluate bindings with
      | .ok value => .passes none (some value)
      | .error fault => .fails fault
  | input name => .awaits name
  | goto target => .jumps target
  | branch lhs comparator rhs target =>
      match lhs.evaluate bindings with
      | .error fault => .fails fault
      | .ok left =>
          match rhs.evaluate bindings with
          | .error fault => .fails fault
          | .ok right =>
              if comparator.holds left right then .jumps target else .passes none none
  | finish => .finishes

namespace Program

def assign (program : Program) : Option (String × Value) → Program
  | some (name, value) => program.store name value
  | none => program

/-- Brings about the effect of a stored line. -/
def perform (program : Program) (line : LineNumber) : Effect → Reply Outcome
  | .passes assigned printed => (program.assign assigned).advance line printed
  | .jumps target => program.jump target
  | .finishes => (.ok (.completed none), program.rewind)
  | .awaits name => (.ok (.awaiting name), program)
  | .fails fault => (.error fault, program)

/-- The effect of a stored line. One that is passed over has none but that the next line follows. -/
def effectAt? (program : Program) (line : LineNumber) (skip : Bool) : Option Effect :=
  if skip then
    some (.passes none none)
  else
    (program.listing.get? line).map (·.effect program.bindings)

end Program

end NumberedBasic
