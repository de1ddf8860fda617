import NumberedBasic.Program.History
import NumberedBasic.Program.Run
import NumberedBasic.Session

/-!
# Dialogues

A run inside a session, as it looks from the terminal: slices are executed one after another, and
every question is answered by typing the next value.
-/

namespace NumberedBasic

/-- Whether an event says that a run is over. -/
def Event.endsRun : Event → Bool
  | stopped | fault _ => true
  | running | print _ | input _ | list _ | load _ | quit => false

namespace Session

/-- Nothing is queued, asked, run, resumed or interrupted. -/
structure Idle (session : Session) : Prop where
  events : session.events = []
  pending : session.pending = none
  running : session.running = false
  resume : session.resume = false
  interrupted : session.interrupted = false

/-- Executes a slice for each budget. The events other than `running` come out, each with the program
as it is then. The dialogue is over when the run stops or fails, or when a question has no answer. -/
def converse : List Nat → List Value → Session → List (Event × Program)
  | [], _, _ => []
  | cycles :: budgets, answers, session =>
      let after := (session.execute cycles).2
      match (session.execute cycles).1, answers with
      | .running, answers => after.converse budgets answers
      | .input name, [] => [(.input name, after.program)]
      | .input name, value :: answers =>
          (.input name, after.program) ::
            (after.enter (toString value)).converse budgets answers
      | .stopped, _ => [(.stopped, after.program)]
      | .fault fault, _ => [(.fault fault, after.program)]
      | event, answers => (event, after.program) :: after.converse budgets answers

/-- The number of steps that the budgets allow altogether. -/
def allowance : List Nat → Nat
  | [] => 0
  | cycles :: budgets => cycles + allowance budgets

/-- How a session shows what is seen of a run. After a fault the program is back at its top. -/
def display : Notice × Program → Event × Program
  | (.printed value, program) => (.print (toString value), program)
  | (.asked name, program) => (.input name, program)
  | (.completed, program) => (.stopped, program)
  | (.failed fault, program) => (.fault fault, program.rewind)

/-! ### Two dialogues -/

/-- Nothing is going on, and the program is the listing, at its top. -/
structure Holds (session : Session) (listing : Listing) : Prop where
  idle : session.Idle
  listing : session.program.listing = listing
  top : session.program.AtTop

/-- What a dialogue shows, each event with the values that the variables have then. -/
def shows (budgets : List Nat) (answers : List Value) (session : Session) :
    List (Event × (String → Option Value)) :=
  (session.converse budgets answers).map fun shown => (shown.1, shown.2.bindings.fetch?)

/-- All that a session shows of its run, the other shows of its own when it is given enough slices. -/
def EchoedBy (session other : Session) : Prop :=
  ∀ answers budgets, ∃ count, ∀ more : List Nat, count ≤ more.countP (0 < ·) →
    (session.enter "RUN").shows budgets answers <+: (other.enter "RUN").shows more answers

end Session

end NumberedBasic
