import NumberedBasic.Program.History
import NumberedBasic.Session.Dialogue
import NumberedBasic.Shell

/-!
# Readings

At which prompts a console is read in a turn of the shell, and what the session is then. The console
is here a state of any kind, so that breaks, lines, signals and files may come in any order.
-/

namespace NumberedBasic

variable {σ : Type}

/-- Carries out an action without a note. -/
def silently {α : Type} (action : StateM σ α) : StateM (σ × List Prompt) α := fun state =>
  let result := action.run state.1
  (result.1, (result.2, state.2))

/-- A console that notes the prompts at which it is read, in their order. -/
def Console.noting (console : Console (StateM σ)) : Console (StateM (σ × List Prompt)) where
  takeBreak := silently console.takeBreak
  read prompt := do
    modify fun state => (state.1, state.2 ++ [prompt])
    silently (console.read prompt)
  write text := silently (console.write text)
  remember line := silently (console.remember line)
  discard := silently console.discard
  complain reason := silently (console.complain reason)
  contents file := silently (console.contents file)

/-- The line that an event wants to be read. -/
def Event.prompt? : Event → Option Prompt
  | .stopped => some .command
  | .input name => some (.answer name)
  | .running | .print _ | .fault _ | .list _ | .load _ | .quit => none

namespace Shell

variable (console : Console (StateM σ))

/-- The prompts at which the console is read in a turn. -/
def readings (session : Session) (world : σ) : List Prompt :=
  ((turn console.noting session).run (world, [])).2.2

/-- The event of a turn, and the session as it is when the event is answered. -/
def produced (session : Session) (world : σ) : Event × Session :=
  (if (console.takeBreak.run world).1 then session.interrupt else session).execute slice

/-- What a session has to be when a line is read. For a command nothing is left to be done, and the
program is at its top. For an answer the variable of the prompt waits, and a run that waits stands on
the line that asked. -/
def Ready (session : Session) : Prompt → Prop
  | .command => session.Idle ∧ session.program.AtTop
  | .answer name =>
      session.events = [] ∧ session.interrupted = false ∧ session.resume = false ∧
        session.pending = some name ∧ (session.running = true → session.program.Asks name)

end Shell

end NumberedBasic
