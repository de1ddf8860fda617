import NumberedBasic.Session
import NumberedBasic.SourceFile
import NumberedBasic.Text.Blank

/-!
# The shell

A session at a terminal. The shell asks the session for its next event and does what the event wants:
read a command or an answer, write, load a file, end. It is the same on every console; a console is
the handful of actions that it needs.
-/

namespace NumberedBasic

inductive Prompt where
  | command
  | answer (name : String)
deriving DecidableEq, Repr

def Prompt.text : Prompt → String
  | command => "] "
  | answer name => name ++ " ? "

/-- What comes of reading a line. -/
inductive Reading where
  | line (text : String)
  | interrupt
  | otherSignal
  | endOfInput
  | failure (reason : String)
deriving DecidableEq, Repr

structure Console (m : Type → Type) where
  /-- Whether a break was requested since this was last asked. -/
  takeBreak : m Bool
  read : Prompt → m Reading
  write : String → m Unit
  /-- Adds a command to the history. -/
  remember : String → m Unit
  /-- Empties the line on which an answer was being typed. -/
  discard : m Unit
  /-- Says why reading has failed, where errors are logged. -/
  complain : String → m Unit
  contents : String → m (Except Directory.Failure (List UInt8))

namespace Shell

/-- The number of steps that a program is given before the shell looks for a break. -/
def slice : Nat := 5000

def bold (text : String) : String := "\x1b[1m" ++ text ++ "\x1b[0m"

def isBlankLine (text : String) : Bool := (Text.trim text.toList).isEmpty

variable {m : Type → Type} [Monad m] (console : Console m)

def complaint (message : String) : m Unit := console.write (bold message ++ "\n")

def loadFile (file : String) : m (Except String Program) := do
  let content ← console.contents file
  return match (content.mapError .unavailable).bind SourceFile.load with
    | .ok program => .ok program
    | .error failure => .error (failure.message file)

/-- Begins a session, with the program of a file if one is named. A file that cannot be loaded is not
run. -/
def start (file : Option String) (run : Bool) : m Session := do
  match file with
  | none => return {}
  | some file =>
      match ← loadFile console file with
      | .ok program =>
          let session := Session.install {} program
          return if run then session.enter "RUN" else session
      | .error message =>
          complaint console message
          return {}

/-- Does what an event wants. There is no session after the end. -/
def respond (session : Session) : Event → m (Option Session)
  | .stopped => do
      match ← console.read .command with
      | .line text =>
          unless isBlankLine text do
            console.remember text
          return some (session.enter text)
      | .failure reason =>
          console.complain reason
          return none
      | .interrupt | .otherSignal | .endOfInput => return none
  | .input name => do
      match ← console.read (.answer name) with
      | .line text => return some (session.enter text)
      | .interrupt =>
          console.discard
          return some session.interrupt
      | .failure reason =>
          console.complain reason
          return none
      | .otherSignal | .endOfInput => return none
  | .fault fault => do
      complaint console fault.message
      return some session
  | .running => return some session
  | .print text => do
      console.write (text ++ "\n")
      return some session
  | .list text => do
      console.write text
      return some session
  | .load file => do
      match ← loadFile console file with
      | .ok program => return some (session.install program)
      | .error message =>
          complaint console message
          return some session
  | .quit => return none

/-- One turn: a requested break is delivered, the session produces an event, the event is answered. -/
def turn (session : Session) : m (Option Session) := do
  let session := if ← console.takeBreak then session.interrupt else session
  let (event, session) := session.execute slice
  respond console session event

/-- At most `count` turns, fewer if the shell ends. -/
def turns : Nat → Session → m (Option Session)
  | 0, session => return some session
  | count + 1, session => do
      match ← turn console session with
      | some session => turns count session
      | none => return none

end Shell

end NumberedBasic
