import NumberedBasic.Expression.Evaluation
import NumberedBasic.Listing

/-!
# Programs

A stored program and its execution, one line a step. The program counter names the line that is next;
it is on the lowest line before a run and after every completed pass.

An operation that may fail returns its reply together with the program that it leaves, so that what a
failure leaves behind is part of its result.
-/

namespace NumberedBasic

/-- What one step has done. -/
inductive Outcome where
  /-- A pass is complete, and the next step starts from the top. -/
  | completed (printed : Option Value)
  /-- One line is done and more remain. -/
  | advanced (printed : Option Value)
  /-- Execution waits until the variable receives a value. -/
  | awaiting (name : String)
deriving DecidableEq, Repr

structure Program where
  listing : Listing := {}
  pc : Option LineNumber := none
  bindings : Bindings := {}
deriving DecidableEq, Repr

namespace Program

/-- A program with the reply of the operation that led to it. -/
abbrev Reply (α : Type) := Except Fault α × Program

def rewind (program : Program) : Program := { program with pc := program.listing.first? }

def store (program : Program) (name : String) (value : Value) : Program :=
  { program with bindings := program.bindings.store name value }

/-! ### Editing -/

/-- A new listing is executed from its top. -/
def edit (program : Program) : Except Fault Listing → Reply Unit
  | .ok listing => (.ok (), rewind { program with listing })
  | .error fault => (.error fault, program)

def insert (program : Program) (line : LineNumber) (statement : Option Statement) : Reply Unit :=
  program.edit (program.listing.put line statement)

def load (program : Program) (text : String) : Reply Unit :=
  program.edit (program.listing.load text)

/-! ### Execution -/

/-- Goes on to the line after `line`, or completes the pass if it is the last. -/
def advance (program : Program) (line : LineNumber) (printed : Option Value) : Reply Outcome :=
  if some line = program.listing.last? then
    (.ok (.completed printed), program.rewind)
  else
    (.ok (.advanced printed), { program with pc := program.listing.after? line })

def jump (program : Program) (target : LineNumber) : Reply Outcome :=
  match program.listing.resolve target with
  | .ok line => (.ok (.advanced none), { program with pc := some line })
  | .error fault => (.error fault, program)

/-- Carries out the statement of a stored line. -/
def carryOut (program : Program) (line : LineNumber) : Statement → Reply Outcome
  | .remark _ => program.advance line none
  | .assign name expression =>
      match expression.evaluate program.bindings with
      | .ok value => (program.store name value).advance line none
      | .error fault => (.error fault, program)
  | .print expression =>
      match expression.evaluate program.bindings with
      | .ok value => program.advance line (some value)
      | .error fault => (.error fault, program)
  | .input name => (.ok (.awaiting name), program)
  | .goto target => program.jump target
  | .branch lhs comparator rhs target =>
      match lhs.evaluate program.bindings with
      | .error fault => (.error fault, program)
      | .ok left =>
          match rhs.evaluate program.bindings with
          | .error fault => (.error fault, program)
          | .ok right =>
              if comparator.holds left right then
                program.jump target
              else
                program.advance line none
  | .finish => (.ok (.completed none), program.rewind)

/-- Executes a line. With `skip` its effect is bypassed and the program counter only advances, which is
how a line that waits for a value is left once the value is there. -/
def executeLine (program : Program) (line : LineNumber) (skip : Bool) : Reply Outcome :=
  if skip then
    program.advance line none
  else
    match program.listing.get? line with
    | some statement => program.carryOut line statement
    | none => (.error .programCounterLost, program)

/-- Executes the line at the program counter. A fault is one of that line. -/
def step (program : Program) (skip : Bool) : Reply Outcome :=
  match program.pc with
  | none => (.ok (.completed none), program)
  | some line =>
      let result := program.executeLine line skip
      (result.1.mapError (·.inLine (some line)), result.2)

/-- Carries out a statement that has no line number. The program counter stays where it is. A variable
that waits for its value is zero in the meantime. -/
def carryOutDirectly (program : Program) : Statement → Reply Outcome
  | .assign name expression =>
      match expression.evaluate program.bindings with
      | .ok value => (.ok (.advanced none), program.store name value)
      | .error fault => (.error fault, program)
  | .print expression =>
      match expression.evaluate program.bindings with
      | .ok value => (.ok (.advanced (some value)), program)
      | .error fault => (.error fault, program)
  | .input name => (.ok (.awaiting name), program.store name 0)
  | statement => (.error (.unknownStatement statement.text), program)

/-! ### Views -/

def text (program : Program) : String := program.listing.text program.pc

def treeText (program : Program) : String := program.listing.treeText program.pc

end Program

end NumberedBasic
