import NumberedBasic.Shell

/-!
# Scripted consoles

A console without a terminal. What is typed, when breaks arrive and which files there are is laid down
in a script, and all that the shell does is recorded. A script that is used up is at the end of its
input.
-/

namespace NumberedBasic

/-- A prepared reading. With `breaks`, a break is requested just before the reading is handed over. -/
structure Cue where
  reading : Reading
  breaks : Bool := false
deriving DecidableEq, Repr

/-- What a console was asked to do. -/
inductive Act where
  | read (prompt : Prompt)
  | write (text : String)
  | remember (line : String)
  | discard
  | complain (reason : String)
deriving DecidableEq, Repr

structure Script where
  cues : List Cue
  files : Directory := []
  /-- A break is requested after these writes, counted from 1. -/
  breakAfter : List Nat := []
  writes : Nat := 0
  breakRequested : Bool := false
  /-- What was done so far, the latest first. -/
  record : List Act := []
deriving DecidableEq, Repr

namespace Script

def log (script : Script) (act : Act) : Script := { script with record := act :: script.record }

def transcript (script : Script) : List Act := script.record.reverse

def readCue (prompt : Prompt) (script : Script) : Reading × Script :=
  let script := script.log (.read prompt)
  match script.cues with
  | [] => (.endOfInput, script)
  | cue :: cues =>
      (cue.reading, { script with cues, breakRequested := script.breakRequested || cue.breaks })

def writeText (text : String) (script : Script) : Script :=
  let script := script.log (.write text)
  let writes := script.writes + 1
  { script with
    writes
    breakRequested := script.breakRequested || script.breakAfter.contains writes }

def console : Console (StateM Script) where
  takeBreak := modifyGet fun script =>
    (script.breakRequested, { script with breakRequested := false })
  read prompt := modifyGet (readCue prompt)
  write text := modify (writeText text)
  remember line := modify (·.log (.remember line))
  discard := modify (·.log .discard)
  complain reason := modify (·.log (.complain reason))
  contents file := return (← get).files.read file

end Script

end NumberedBasic
