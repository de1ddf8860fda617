import NumberedBasic.Program

/-!
# Runs

A program is stepped until its pass is complete or a line fails. A line that waits for a value is given
the next answer, and the step after that passes over it. Without an answer the run stays where it is.
-/

namespace NumberedBasic

/-- What is seen of a run from outside. -/
inductive Notice where
  | printed (value : Value)
  | asked (name : String)
  | completed
  | failed (fault : Fault)
deriving DecidableEq, Repr

namespace Notice

/-- Whether a notice is the doing of a line and not the end of the run. -/
def isOutput : Notice → Bool
  | printed _ | asked _ => true
  | completed | failed _ => false

/-- What a step lets be seen. -/
def ofStep : Except Fault Outcome → List Notice
  | .ok (.completed (some value)) => [printed value, completed]
  | .ok (.completed none) => [completed]
  | .ok (.advanced (some value)) => [printed value]
  | .ok (.advanced none) => []
  | .ok (.awaiting name) => [asked name]
  | .error fault => [failed fault]

end Notice

/-- A run under way, with the answers that are still to come. -/
structure Run where
  program : Program
  /-- The line at the program counter has its value, and is passed over. -/
  skip : Bool := false
  answers : List Value := []
deriving DecidableEq, Repr

namespace Run

/-- The reply to the next step. -/
def reply (run : Run) : Program.Reply Outcome := run.program.step run.skip

/-- The run after the next step, unless that ends it or waits for an answer that does not come. -/
def next? (run : Run) : Option Run :=
  match run.reply.1, run.answers with
  | .ok (.advanced _), answers => some { program := run.reply.2, answers }
  | .ok (.awaiting name), value :: answers =>
      some { program := run.reply.2.store name value, skip := true, answers }
  | _, _ => none

/-- The run before each of its next steps, of which there are at most `count`. -/
def stages : Nat → Run → List Run
  | 0, _ => []
  | count + 1, run => run :: run.next?.elim [] (stages count)

/-- What is seen of at most `count` steps, each notice with the program that its step leaves. -/
def sights (count : Nat) (run : Run) : List (Notice × Program) :=
  (run.stages count).flatMap fun stage =>
    (Notice.ofStep stage.reply.1).map fun notice => (notice, stage.reply.2)

/-- What the line at the program counter prints or asks, read off its statement. -/
def output? (run : Run) : Option Notice :=
  if run.skip then
    none
  else
    match run.program.pc.bind run.program.listing.get? with
    | some (.print expression) =>
        (expression.evaluate run.program.bindings).toOption.map .printed
    | some (.input name) => some (.asked name)
    | _ => none

/-! ### Whole runs -/

/-- A run that starts at the lowest line. -/
def ofListing (listing : Listing) (bindings : Bindings) (answers : List Value) : Run :=
  { program := { listing, pc := listing.first?, bindings }, answers }

/-- What is seen of the next step, with the values that the variables have after it. -/
def view (run : Run) : List (Notice × (String → Option Value)) :=
  (Notice.ofStep run.reply.1).map fun notice => (notice, run.reply.2.bindings.fetch?)

/-- What is seen of at most `count` steps, each notice with the values that the variables have then. -/
def views (count : Nat) (run : Run) : List (Notice × (String → Option Value)) :=
  (run.sights count).map fun seen => (seen.1, seen.2.bindings.fetch?)

/-- At some time the pass is complete, or a line fails. -/
def Ends (run : Run) : Prop := ∃ count, ∃ seen ∈ run.sights count, seen.1.isOutput = false

end Run

end NumberedBasic
