import NumberedBasic.Command
import NumberedBasic.Program

/-!
# Sessions

The interactive side of a program. Typed lines are entered, execution proceeds in slices, and what the
terminal has to do next comes out as events. Events that a typed line causes wait in a queue; while it
is not empty nothing is executed.
-/

namespace NumberedBasic

inductive Event where
  /-- Idle: a command is wanted. -/
  | stopped
  /-- The slice is used up and there is more to do. -/
  | running
  | print (text : String)
  /-- A value is wanted for the variable. -/
  | input (name : String)
  | fault (fault : Fault)
  | list (text : String)
  | load (file : String)
  | quit
deriving DecidableEq, Repr

/-- `pending` is the variable that waits for an answer. `resume` is set when a suspended run has been
given its answer, and lets the next step pass over the line that asked. -/
structure Session where
  program : Program := {}
  events : List Event := []
  pending : Option String := none
  running : Bool := false
  resume : Bool := false
  interrupted : Bool := false
deriving DecidableEq, Repr

namespace Session

def emit (session : Session) (event : Event) : Session :=
  { session with events := session.events ++ [event] }

def report (session : Session) (fault : Fault) : Session := session.emit (.fault fault)

/-- Ends the run and forgets what it was waiting for. -/
def halt (session : Session) : Session :=
  { session with
    program := session.program.rewind
    pending := none
    running := false
    resume := false }

def install (session : Session) (program : Program) : Session := { session.halt with program }

def interrupt (session : Session) : Session := { session with interrupted := true }

/-! ### Entering lines -/

def carryOut (session : Session) (statement : Statement) : Session :=
  match session.program.carryOutDirectly statement with
  | (.error fault, program) => { session with program }.report fault
  | (.ok (.awaiting name), program) => { session with program, pending := some name }
  | (.ok (.completed printed), program) | (.ok (.advanced printed), program) =>
      match printed with
      | some value => { session with program }.emit (.print (toString value))
      | none => { session with program }

def edit (session : Session) (line : SourceLine) : Session :=
  match session.program.insert line.number line.statement with
  | (.error fault, program) => { session with program }.report fault
  | (.ok (), program) => { session with program }

def perform (session : Session) : Command → Session
  | .run => { session with running := true }
  | .load file => session.emit (.load file)
  | .clear => session.install {}
  | .list => session.emit (.list session.program.text)
  | .tree => session.emit (.list session.program.treeText)
  | .help => session.emit (.print Command.helpText)
  | .quit => session.emit .quit
  | .direct statement => session.carryOut statement
  | .edit line => session.edit line

/-- The value that an answer gives, if it is one. -/
def answerValue? (text : String) : Option Value :=
  (Text.signedNumeral? (Text.trim text.toList)).bind Value.ofInt?

/-- Takes `text` as the answer for `name`. What is no value is reported, and the question stands. -/
def answer (session : Session) (name text : String) : Session :=
  match answerValue? text with
  | some value =>
      { session with
        program := session.program.store name value
        pending := none
        resume := session.resume || session.running }
  | none => session.report .badAnswer

def enter (session : Session) (text : String) : Session :=
  match session.pending with
  | some name => session.answer name text
  | none =>
      match Command.parse text with
      | .error fault => session.report fault
      | .ok none => session
      | .ok (some command) => session.perform command

/-! ### Execution -/

/-- Steps the program at most `cycles` times, up to the first event. -/
def cycle : Nat → Session → Event × Session
  | 0, session => (.running, session)
  | cycles + 1, session =>
      let (reply, program) := session.program.step session.resume
      let session := { session with program, resume := false }
      match reply with
      | .error fault => (.fault fault, session.halt)
      | .ok (.awaiting name) => (.input name, { session with pending := some name })
      | .ok (.completed printed) =>
          let session := { session with running := false }
          match printed with
          | some value => (.print (toString value), session)
          | none => (.stopped, session)
      | .ok (.advanced (some value)) => (.print (toString value), session)
      | .ok (.advanced none) => cycle cycles session

/-- The next event. Queued events come first, then an interruption, then the pending question; only
without any of these does a run go on. -/
def execute (session : Session) (cycles : Nat) : Event × Session :=
  match session.events with
  | event :: rest => (event, { session with events := rest })
  | [] =>
      let calm := { session with interrupted := false }
      if session.interrupted && (session.running || session.pending.isSome) then
        let line := if session.running then session.program.pc else none
        (.fault (.interruption line), calm.halt)
      else
        match session.pending with
        | some name => (.input name, calm)
        | none => if session.running then cycle cycles calm else (.stopped, calm)

end Session

end NumberedBasic
