import NumberedBasic.Program.Renumbering

/-!
# Passes

A program is stepped until its pass is complete or a line fails. The step after one that waits passes
over the line that asked. Between two steps any variables may be given values, the one that was asked
for among them, or none.
-/

namespace NumberedBasic

/-- Whether a statement can only fail or go on to the next line. -/
def Statement.isPlain : Statement → Bool
  | remark _ | assign _ _ | print _ => true
  | input _ | goto _ | branch _ _ _ _ | finish => false

namespace Listing

/-- Every jump goes to a number above that of its line, which need not be stored. -/
def JumpsForward (listing : Listing) : Prop :=
  ∀ entry ∈ listing.lines, ∀ target ∈ entry.2.target?, entry.1 < target

def IsPlain (listing : Listing) : Prop := ∀ entry ∈ listing.lines, entry.2.isPlain

end Listing

def Program.storeAll (program : Program) (values : List (String × Value)) : Program :=
  values.foldl (fun program entry => program.store entry.1 entry.2) program

/-- A pass under way. -/
structure Pass where
  program : Program
  /-- The line at the program counter has asked, and is passed over. -/
  skip : Bool := false
deriving DecidableEq, Repr

namespace Pass

/-- The reply to the next step. -/
def reply (pass : Pass) : Program.Reply Outcome := pass.program.step pass.skip

/-- The line that the next step executes. One that is passed over has been executed before. -/
def line? (pass : Pass) : Option LineNumber := if pass.skip then none else pass.program.pc

/-- The pass after the next step and after some values have been stored, unless the step ends it. -/
def next? (values : List (String × Value)) (pass : Pass) : Option Pass :=
  match pass.reply with
  | (.ok (.advanced _), after) => some { program := after.storeAll values }
  | (.ok (.awaiting _), after) => some { program := after.storeAll values, skip := true }
  | (.ok (.completed _), _) | (.error _, _) => none

/-- The pass before each of its next steps, with what is stored after each of them. -/
def stages : List (List (String × Value)) → Pass → List Pass
  | [], pass => [pass]
  | values :: supplies, pass => pass :: (pass.next? values).elim [] (stages supplies)

/-- The lines that are executed, in their order. -/
def executed (supplies : List (List (String × Value))) (pass : Pass) : List LineNumber :=
  (pass.stages supplies).filterMap line?

/-- The stored lines from the program counter on. -/
def ahead (pass : Pass) : List LineNumber :=
  pass.program.listing.numbers.filter fun number =>
    pass.program.pc.any fun line => if pass.skip then line < number else line ≤ number

/-- The next step is the last one. -/
def EndsNow (pass : Pass) : Prop :=
  (∃ printed, pass.reply.1 = .ok (.completed printed)) ∨ ∃ fault, pass.reply.1 = .error fault

end Pass

end NumberedBasic
