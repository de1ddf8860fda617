import NumberedBasic.Program

/-!
# Histories of a program

The calls that change a program, and the programs that calls can lead to, whether or not they succeed.
-/

namespace NumberedBasic

namespace Program

inductive Call where
  | insert (line : LineNumber) (statement : Option Statement)
  | load (text : String)
  | step (skip : Bool)
  | carryOutDirectly (statement : Statement)
  | store (name : String) (value : Value)
  | rewind
deriving DecidableEq, Repr

/-- A run consists of steps and of values for the variables that it asks for. -/
def Call.isOfRun : Call → Bool
  | step _ | store _ _ => true
  | insert _ _ | load _ | carryOutDirectly _ | rewind => false

/-- Source text comes one line at a time, and nothing is stored that was not read from it. -/
def Call.isLineByLine : Call → Bool
  | load text => text.toList.all (!SourceLine.isLineEnd ·)
  | step _ | carryOutDirectly _ | store _ _ | rewind => true
  | insert _ _ => false

def Reply.map {α β : Type} (f : α → β) (reply : Reply α) : Reply β := (reply.1.map f, reply.2)

/-- Makes a call. Only a step and a direct statement have an outcome. -/
def reply (program : Program) : Call → Reply (Option Outcome)
  | .insert line statement => Reply.map (fun _ => none) (program.insert line statement)
  | .load text => Reply.map (fun _ => none) (program.load text)
  | .step skip => Reply.map some (program.step skip)
  | .carryOutDirectly statement => Reply.map some (program.carryOutDirectly statement)
  | .store name value => (.ok none, program.store name value)
  | .rewind => (.ok none, program.rewind)

/-- Makes calls in order, with the replies to each. -/
def replies (program : Program) : List Call → List (Except Fault (Option Outcome)) × Program
  | [] => ([], program)
  | call :: rest =>
      let first := program.reply call
      let later := first.2.replies rest
      (first.1 :: later.1, later.2)

inductive Reachable : Program → Prop where
  | initial : Reachable {}
  | call {program : Program} (call : Call) :
      Reachable program → Reachable (program.reply call).2

/-- The program counter is on the lowest line, or on none if no line is stored. -/
def AtTop (program : Program) : Prop :=
  match program.pc with
  | none => program.listing.isEmpty
  | some line =>
      line ∈ program.listing.numbers ∧ ∀ other ∈ program.listing.numbers, line ≤ other

/-- The line at the program counter asks for the variable. -/
def Asks (program : Program) (name : String) : Prop :=
  ∃ line, program.pc = some line ∧ program.listing.get? line = some (.input name)

theorem Reachable.replies {program : Program} (h : program.Reachable) (calls : List Call) :
    (program.replies calls).2.Reachable := by
  induction calls generalizing program with
  | nil => exact h
  | cons call rest ih => exact ih (h.call call)

end Program

end NumberedBasic
