import NumberedBasic.Proofs.Program.Step
import NumberedBasic.Session.History

/-!
# What a call can do

A typed line either answers a question, is carried out on the variables, asks a question, edits the
listing, or leaves the program alone. A slice of execution comes down to the last of its steps.
-/

namespace NumberedBasic

namespace Session

/-! ### Typed lines -/

inductive Performs (session : Session) : Command → Session → Prop where
  | runs : Performs session .run { session with running := true }
  | clears : Performs session .clear (session.install {})
  | announces {command : Command} (event : Event) :
      (∀ statement, command ≠ .direct statement) → (∀ line, command ≠ .edit line) →
      Performs session command (session.emit event)
  | asks (name : String) :
      Performs session (.direct (.input name))
        { session with program := session.program.store name 0, pending := some name }
  | carriesOut {statement : Statement} (bindings : Bindings) (events : List Event) :
      (∀ name, statement ≠ .input name) →
      Performs session (.direct statement)
        { session with program := { session.program with bindings }, events }
  | edits {line : SourceLine} {listing : Listing} :
      session.program.insert line.number line.statement =
        (.ok (), Program.rewind { session.program with listing }) →
      Performs session (.edit line)
        { session with program := Program.rewind { session.program with listing } }
  | refuses {line : SourceLine} {fault : Fault} :
      session.program.insert line.number line.statement = (.error fault, session.program) →
      Performs session (.edit line) (session.report fault)

theorem performs_direct (session : Session) (statement : Statement) :
    Performs session (.direct statement) (session.carryOut statement) := by
  unfold carryOut Program.carryOutDirectly
  cases statement with
  | assign name expression =>
      dsimp only
      cases expression.evaluate session.program.bindings with
      | error fault => exact .carriesOut session.program.bindings (session.report fault).events nofun
      | ok value => exact .carriesOut (session.program.bindings.store name value) session.events nofun
  | print expression =>
      dsimp only
      cases expression.evaluate session.program.bindings with
      | error fault => exact .carriesOut session.program.bindings (session.report fault).events nofun
      | ok value =>
          exact .carriesOut session.program.bindings
            (session.emit (.print (toString value))).events nofun
  | input name => exact .asks name
  | remark _ | goto _ | branch _ _ _ _ | finish =>
      exact .carriesOut session.program.bindings (session.report _).events nofun

theorem performs_edit (session : Session) (line : SourceLine) :
    Performs session (.edit line) (session.edit line) := by
  unfold edit
  cases hput : session.program.listing.put line.number line.statement with
  | error fault =>
      have hinsert : session.program.insert line.number line.statement =
          (.error fault, session.program) := by
        rw [Program.insert, hput, Program.edit]
      rw [hinsert]
      exact .refuses hinsert
  | ok listing =>
      have hinsert : session.program.insert line.number line.statement =
          (.ok (), Program.rewind { session.program with listing }) := by
        rw [Program.insert, hput, Program.edit]
      rw [hinsert]
      exact .edits hinsert

theorem performs_perform (session : Session) (command : Command) :
    Performs session command (session.perform command) := by
  cases command with
  | run => exact .runs
  | clear => exact .clears
  | load _ | list | tree | help | quit => exact .announces _ nofun nofun
  | direct statement => exact performs_direct session statement
  | edit line => exact performs_edit session line

inductive Enters (session : Session) (text : String) : Session → Prop where
  | accepts {name : String} {value : Value} :
      session.pending = some name → answerValue? text = some value →
      Enters session text
        { session with
          program := session.program.store name value
          pending := none
          resume := session.resume || session.running }
  | rejects {name : String} : session.pending = some name → answerValue? text = none →
      Enters session text (session.report .badAnswer)
  | refuses {fault : Fault} : session.pending = none → Command.parse text = .error fault →
      Enters session text (session.report fault)
  | ignores : session.pending = none → Command.parse text = .ok none → Enters session text session
  | performs {command : Command} {after : Session} :
      session.pending = none → Command.parse text = .ok (some command) →
      Performs session command after → Enters session text after

theorem enters_enter (session : Session) (text : String) :
    Enters session text (session.enter text) := by
  unfold enter
  split
  next name hpending =>
    unfold answer
    split
    next value hvalue => exact .accepts hpending hvalue
    next hvalue => exact .rejects hpending hvalue
  next hpending =>
    split
    next fault hparse => exact .refuses hpending hparse
    next hparse => exact .ignores hpending hparse
    next command hparse => exact .performs hpending hparse (performs_perform session command)

theorem enter_run {session : Session} (h : session.pending = none) :
    session.enter "RUN" = { session with running := true } := by
  have hscan : Token.scan "RUN" = [⟨"RUN"⟩] := by decide +kernel
  have hparse : Command.parse "RUN" = .ok (some .run) := by
    rw [Command.parse, hscan]
    rfl
  simp [enter, h, hparse, perform]

/-! ### Slices -/

/-- The steps of a slice, each with the program that it is taken on and whether it passes over the line
at the program counter. -/
def sliceSteps : Nat → Program → Bool → List (Program × Bool)
  | 0, _, _ => []
  | cycles + 1, program, skip =>
      (program, skip) ::
        match program.step skip with
        | (.ok (.advanced none), after) => sliceSteps cycles after false
        | _ => []

/-- Nothing has to be done before the run goes on. -/
def isActive (session : Session) : Bool :=
  session.events.isEmpty && !session.interrupted && session.pending.isNone && session.running

/-- The steps that are taken when the session is executed. -/
def steps (session : Session) (cycles : Nat) : List (Program × Bool) :=
  if session.isActive then sliceSteps cycles session.program session.resume else []

/-- Takes over the reply to a step. -/
def settle (session : Session) (reply : Program.Reply Outcome) : Event × Session :=
  let session := { session with program := reply.2, resume := false }
  match reply.1 with
  | .error fault => (.fault fault, session.halt)
  | .ok (.awaiting name) => (.input name, { session with pending := some name })
  | .ok (.completed printed) =>
      (printed.elim .stopped fun value => .print (toString value), { session with running := false })
  | .ok (.advanced printed) =>
      (printed.elim .running fun value => .print (toString value), session)

variable {session : Session} {program : Program} {skip : Bool} {cycles : Nat}

@[simp] theorem settle_resume (reply : Program.Reply Outcome) :
    (session.settle reply).2.resume = false := by
  unfold settle
  split <;> rfl

/-- A run that goes on after a step either waits or has made progress. -/
theorem settle_cases {reply : Program.Reply Outcome}
    (hrunning : (session.settle reply).2.running = true) :
    (∃ name, reply.1 = .ok (.awaiting name) ∧ (session.settle reply).2 =
        { session with program := reply.2, resume := false, pending := some name }) ∨
      (session.settle reply).2 = { session with program := reply.2, resume := false } := by
  obtain ⟨fault | _ | _ | name, after⟩ := reply
  · cases hrunning
  · cases hrunning
  · exact .inr rfl
  · exact .inl ⟨name, rfl, rfl⟩

/-- Only the first step of a slice can pass over its line. -/
theorem eq_of_mem_sliceSteps {start : Program}
    (hmem : (program, true) ∈ sliceSteps cycles start skip) : program = start ∧ skip = true := by
  induction cycles generalizing start skip with
  | zero => cases hmem
  | succ cycles ih =>
      rw [sliceSteps] at hmem
      rcases List.mem_cons.mp hmem with hfirst | hlater
      · cases hfirst
        exact ⟨rfl, rfl⟩
      · split at hlater
        next => exact absurd (ih hlater).2 Bool.false_ne_true
        next => cases hlater

/-- A silent step goes on to the next one, and any other settles the slice. -/
theorem cycle_succ (cycles : Nat) (session : Session) :
    cycle (cycles + 1) session =
      match session.program.step session.resume with
      | (.ok (.advanced none), after) =>
          cycle cycles { session with program := after, resume := false }
      | reply => session.settle reply := by
  rw [cycle]
  rcases session.program.step session.resume with
    ⟨fault | ⟨_ | value⟩ | ⟨_ | value⟩ | name, after⟩ <;> rfl

/-- What each step keeps holds of every program that a slice steps. -/
theorem forall_mem_sliceSteps {motive : Program → Prop} {start : Program}
    (hstep : ∀ program skip, motive program → motive (program.step skip).2) (h : motive start) :
    ∀ step ∈ sliceSteps cycles start skip, motive step.1 := by
  induction cycles generalizing start skip with
  | zero => simp [sliceSteps]
  | succ cycles ih =>
      rw [sliceSteps, List.forall_mem_cons]
      refine ⟨h, ?_⟩
      split
      next after hreply =>
        have hafter := hstep start skip h
        rw [hreply] at hafter
        exact ih hafter
      next => simp

/-- A slice of at least one step ends with the reply to the last of its steps. -/
theorem exists_cycle_eq_settle (cycles : Nat) (session : Session) :
    ∃ last, (sliceSteps (cycles + 1) session.program session.resume).getLast? = some last ∧
      cycle (cycles + 1) session = session.settle (last.1.step last.2) := by
  induction cycles generalizing session with
  | zero =>
      refine ⟨(session.program, session.resume), ?_, ?_⟩
      · rw [sliceSteps]
        split <;> rfl
      · rw [cycle_succ]
        split
        next hreply => rw [hreply]; rfl
        next => rfl
  | succ cycles ih =>
      rw [cycle_succ, sliceSteps]
      split
      next after hreply =>
        obtain ⟨last, hlast, heq⟩ := ih { session with program := after, resume := false }
        refine ⟨last, ?_, heq⟩
        rw [List.getLast?_cons, hlast, Option.getD_some]
      next => exact ⟨(session.program, session.resume), rfl, rfl⟩

/-! ### Execution -/

theorem isActive_iff : session.isActive = true ↔ session.events = [] ∧
    session.interrupted = false ∧ session.pending = none ∧ session.running = true := by
  simp [isActive, and_assoc]

theorem execute_of_isActive (h : session.isActive = true) :
    session.execute cycles = cycle cycles session := by
  obtain ⟨program, events, pending, running, resume, interrupted⟩ := session
  obtain ⟨rfl, rfl, rfl, rfl⟩ := isActive_iff.mp h
  rfl

/-- An execution that takes no step ends the run, or changes no more than the queue and the
interruption. -/
theorem execute_of_steps_eq_nil (h : session.steps cycles = []) :
    (∃ interrupted, (session.execute cycles).2 = { session.halt with interrupted }) ∨
      ∃ events interrupted, (session.execute cycles).2 = { session with events, interrupted } := by
  by_cases hactive : session.isActive = true
  · rw [steps, if_pos hactive] at h
    cases cycles with
    | zero => exact .inr ⟨session.events, session.interrupted, by rw [execute_of_isActive hactive]; rfl⟩
    | succ cycles => cases h
  · unfold execute
    split
    next event rest hevents => exact .inr ⟨rest, session.interrupted, rfl⟩
    next hevents =>
      split
      next hbreak => exact .inl ⟨false, rfl⟩
      next hbreak =>
        refine .inr ⟨session.events, false, ?_⟩
        split
        next => rfl
        next hpending =>
          split
          next hrunning =>
            exact absurd (isActive_iff.mpr ⟨hevents, by simpa [hrunning] using hbreak, hpending, hrunning⟩)
              hactive
          next => rfl

theorem mem_steps (cycles : Nat) (h : session.isActive = true) :
    (session.program, session.resume) ∈ session.steps (cycles + 1) := by
  rw [steps, if_pos h]
  exact List.mem_cons_self

theorem exists_execute_eq_settle (h : session.steps cycles ≠ []) :
    session.isActive = true ∧ ∃ last, (session.steps cycles).getLast? = some last ∧
      session.execute cycles = session.settle (last.1.step last.2) := by
  unfold steps at h ⊢
  split at h
  next hactive =>
    refine ⟨hactive, ?_⟩
    rw [if_pos hactive, execute_of_isActive hactive]
    cases cycles with
    | zero => exact absurd rfl h
    | succ cycles => exact exists_cycle_eq_settle cycles session
  next => exact absurd rfl h

/-- What an execution can do. -/
inductive Executes (session : Session) (cycles : Nat) : Event × Session → Prop where
  | pops {event : Event} {rest : List Event} : session.events = event :: rest →
      Executes session cycles (event, { session with events := rest })
  | breaks (line : Option LineNumber) : session.events = [] →
      Executes session cycles
        (.fault (.interruption line), { session with interrupted := false }.halt)
  | waits {name : String} : session.events = [] → session.pending = some name →
      Executes session cycles (.input name, { session with interrupted := false })
  | rests : session.events = [] → session.pending = none → session.running = false →
      Executes session cycles (.stopped, { session with interrupted := false })
  | pauses : session.isActive = true → Executes session cycles (.running, session)
  | settles {last : Program × Bool} : session.isActive = true → last ∈ session.steps cycles →
      Executes session cycles (session.settle (last.1.step last.2))

theorem executes_execute (session : Session) (cycles : Nat) :
    Executes session cycles (session.execute cycles) := by
  by_cases hactive : session.isActive = true
  · by_cases hsteps : session.steps cycles = []
    · rw [execute_of_isActive hactive]
      cases cycles with
      | zero => exact .pauses hactive
      | succ cycles => exact absurd (mem_steps cycles hactive) (by simp [hsteps])
    · obtain ⟨-, last, hlast, heq⟩ := exists_execute_eq_settle hsteps
      rw [heq]
      exact .settles hactive (List.mem_of_getLast? hlast)
  · unfold execute
    split
    next event rest hevents => exact .pops hevents
    next hevents =>
      dsimp only
      split
      next hbreak => exact .breaks _ hevents
      next hbreak =>
        split
        next name hpending => exact .waits hevents hpending
        next hpending =>
          split
          next hrunning =>
            have hcalm : session.interrupted = false := by simpa [hrunning] using hbreak
            exact absurd (isActive_iff.mpr ⟨hevents, hcalm, hpending, hrunning⟩) hactive
          next hidle => exact .rests hevents hpending (by simpa using hidle)

theorem eq_of_mem_steps (h : (program, true) ∈ session.steps cycles) :
    session.running = true ∧ program = session.program ∧ session.resume = true := by
  unfold steps at h
  split at h
  next hactive => exact ⟨(isActive_iff.mp hactive).2.2.2, eq_of_mem_sliceSteps h⟩
  next => cases h

end Session

end NumberedBasic
