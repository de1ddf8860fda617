import NumberedBasic.Proofs.Command.Faults
import NumberedBasic.Proofs.Program.Counter
import NumberedBasic.Proofs.Session.Calls

/-!
# Where events come from

A typed line queues nothing, or does nothing but queue one event, which is no prompt. A fault that comes
out of an execution was queued, is an interruption, or was raised by the last line that was executed.
The program of a session is one that calls on programs lead to.
-/

namespace NumberedBasic

/-! ### Direct statements and edits -/

theorem Program.carryOutDirectly_error {program : Program} {statement : Statement} {fault : Fault}
    (h : (program.carryOutDirectly statement).1 = .error fault) :
    (program.carryOutDirectly statement).2 = program ∧
      (statement.isDirect = true → IsStepFault fault) := by
  cases statement with
  | assign _ e | print e =>
      unfold carryOutDirectly at h ⊢
      dsimp only at h ⊢
      cases hvalue : e.evaluate program.bindings with
      | ok value =>
          rw [hvalue] at h
          cases h
      | error other =>
          rw [hvalue] at h
          cases h
          exact ⟨rfl, fun _ => isStepFault_of_evaluate hvalue⟩
  | input name => cases h
  | remark _ | goto _ | branch _ _ _ _ | finish => exact ⟨rfl, nofun⟩

theorem Listing.isReading_put (listing : Listing) (line : LineNumber)
    (statement : Option Statement) : IsReading (listing.put line statement) := by
  cases statement with
  | none => exact isReading_ok _
  | some statement =>
      unfold put insert
      dsimp only
      split
      · exact isReading_error rfl
      · exact isReading_ok _

namespace Session

variable {session : Session} {cycles : Nat}

/-! ### Typed lines -/

/-- An event that a typed line can queue. Its fault is one of the text or of an expression. -/
inductive IsAnnouncement : Event → Prop where
  | print (text : String) : IsAnnouncement (.print text)
  | list (text : String) : IsAnnouncement (.list text)
  | load (file : String) : IsAnnouncement (.load file)
  | quit : IsAnnouncement .quit
  | fault {fault : Fault} : fault.kind = .parse ∨ Program.IsStepFault fault →
      IsAnnouncement (.fault fault)

/-- Nothing is queued, or one event is queued and nothing else happens. -/
def Announces (session after : Session) : Prop :=
  after.events = session.events ∨ ∃ event, IsAnnouncement event ∧ after = session.emit event

theorem announces_report {fault : Fault} (h : fault.kind = .parse ∨ Program.IsStepFault fault) :
    session.Announces (session.report fault) :=
  .inr ⟨.fault fault, .fault h, rfl⟩

theorem announces_carryOut (session : Session) {statement : Statement}
    (hdirect : statement.isDirect = true) : session.Announces (session.carryOut statement) := by
  unfold carryOut Program.carryOutDirectly
  cases statement with
  | assign name e =>
      dsimp only
      cases hvalue : e.evaluate session.program.bindings with
      | error fault => exact announces_report (.inr (Program.isStepFault_of_evaluate hvalue))
      | ok value => exact .inl rfl
  | print e =>
      dsimp only
      cases hvalue : e.evaluate session.program.bindings with
      | error fault => exact announces_report (.inr (Program.isStepFault_of_evaluate hvalue))
      | ok value => exact .inr ⟨.print (toString value), .print _, rfl⟩
  | input name => exact .inl rfl
  | remark _ | goto _ | branch _ _ _ _ | finish => cases hdirect

theorem announces_edit (session : Session) (line : SourceLine) :
    session.Announces (session.edit line) := by
  unfold edit Program.insert
  cases hput : session.program.listing.put line.number line.statement with
  | ok listing => exact .inl rfl
  | error fault =>
      exact announces_report (.inl (session.program.listing.isReading_put _ _ fault hput))

theorem announces_enter (session : Session) (text : String) :
    session.Announces (session.enter text) := by
  unfold enter
  split
  next name _ =>
    unfold answer
    split
    · exact .inl rfl
    · exact announces_report (.inl rfl)
  next =>
    split
    next fault hparse => exact announces_report (.inl (Command.isReading_parse text fault hparse))
    next => exact .inl rfl
    next command hparse =>
      cases command with
      | run | clear => exact .inl rfl
      | load file => exact .inr ⟨.load file, .load file, rfl⟩
      | list => exact .inr ⟨.list session.program.text, .list _, rfl⟩
      | tree => exact .inr ⟨.list session.program.treeText, .list _, rfl⟩
      | help => exact .inr ⟨.print Command.helpText, .print _, rfl⟩
      | quit => exact .inr ⟨.quit, .quit, rfl⟩
      | direct statement => exact announces_carryOut session (Command.isDirect_of_parse hparse)
      | edit line => exact announces_edit session line

/-! ### The queue -/

/-- Everything in the queue was announced by a typed line. -/
def Announced (session : Session) : Prop := ∀ event ∈ session.events, IsAnnouncement event

@[simp] theorem settle_events (reply : Program.Reply Outcome) :
    (session.settle reply).2.events = session.events := by
  unfold settle
  split <;> rfl

theorem Announced.enter (h : session.Announced) (text : String) : (session.enter text).Announced := by
  rcases announces_enter session text with hevents | ⟨event, hevent, heq⟩
  · rwa [Announced, hevents]
  · rw [heq]
    intro other hother
    rcases List.mem_append.mp hother with hold | hnew
    · exact h other hold
    · rw [List.mem_singleton.mp hnew]
      exact hevent

theorem events_execute_subset (session : Session) (cycles : Nat) :
    (session.execute cycles).2.events ⊆ session.events := by
  have hexecutes := executes_execute session cycles
  generalize session.execute cycles = result at hexecutes
  cases hexecutes with
  | pops hevents =>
      rw [hevents]
      exact List.subset_cons_self _ _
  | breaks _ _ | waits _ _ | rests _ _ _ | pauses _ => exact List.Subset.refl _
  | settles _ _ =>
      rw [settle_events]
      exact List.Subset.refl _

theorem Announced.execute (h : session.Announced) (cycles : Nat) :
    (session.execute cycles).2.Announced :=
  fun event hevent => h event (events_execute_subset session cycles hevent)

theorem Reachable.announced {allowed : Program → Prop} (h : Reachable allowed session) :
    session.Announced := by
  induction h with
  | initial => simp [Announced]
  | call call _ _ ih =>
      cases call with
      | enter text => exact ih.enter text
      | execute cycles => exact ih.execute cycles
      | interrupt | install _ => exact ih

/-! ### The program -/

theorem carryOut_program (session : Session) (statement : Statement) :
    (session.carryOut statement).program = (session.program.carryOutDirectly statement).2 := by
  unfold carryOut
  rcases session.program.carryOutDirectly statement with
    ⟨fault | ⟨_ | value⟩ | ⟨_ | value⟩ | name, program⟩ <;> rfl

theorem edit_program (session : Session) (line : SourceLine) :
    (session.edit line).program = (session.program.insert line.number line.statement).2 := by
  unfold edit
  rcases session.program.insert line.number line.statement with ⟨fault | _, program⟩ <;> rfl

theorem reachable_enter (h : session.program.Reachable) (text : String) :
    (session.enter text).program.Reachable := by
  unfold enter
  split
  next name _ =>
    unfold answer
    split
    next value _ => exact h.call (.store name value)
    next => exact h
  next =>
    split
    next => exact h
    next => exact h
    next command _ =>
      cases command with
      | clear => exact .initial
      | run | load _ | list | tree | help | quit => exact h
      | direct statement =>
          change (session.carryOut statement).program.Reachable
          rw [carryOut_program]
          exact h.call (.carryOutDirectly statement)
      | edit line =>
          change (session.edit line).program.Reachable
          rw [edit_program]
          exact h.call (.insert line.number line.statement)

theorem reachable_of_mem_steps (h : session.program.Reachable) {step : Program × Bool}
    (hstep : step ∈ session.steps cycles) : step.1.Reachable := by
  unfold steps at hstep
  split at hstep
  · exact forall_mem_sliceSteps (fun _ skip hprogram => hprogram.call (.step skip)) h step hstep
  · cases hstep

theorem reachable_execute (h : session.program.Reachable) (cycles : Nat) :
    (session.execute cycles).2.program.Reachable := by
  have hexecutes := executes_execute session cycles
  generalize session.execute cycles = result at hexecutes
  cases hexecutes with
  | breaks _ _ => exact h.call .rewind
  | pops _ | waits _ _ | rests _ _ _ | pauses _ => exact h
  | @settles last _ hlast =>
      have hafter : (last.1.step last.2).2.Reachable :=
        (reachable_of_mem_steps h hlast).call (.step last.2)
      unfold settle
      split
      · exact hafter.call .rewind
      · exact hafter
      · exact hafter
      · exact hafter

/-- Whatever holds of the programs that calls lead to holds of the program of a session. -/
theorem Reachable.program (h : Reachable Program.Reachable session) : session.program.Reachable := by
  induction h with
  | initial => exact .initial
  | call call hinstalls _ ih =>
      cases call with
      | enter text => exact reachable_enter ih text
      | execute cycles => exact reachable_execute ih cycles
      | interrupt => exact ih
      | install program => exact hinstalls

/-! ### Faults -/

/-- The run is over, and of its program nothing has changed but the place. -/
structure Ended (session : Session) (program : Program) : Prop where
  listing : session.program.listing = program.listing
  bindings : session.program.bindings = program.bindings
  atTop : session.program.AtTop
  running : session.running = false
  pending : session.pending = none
  resume : session.resume = false

theorem ended_halt (h : session.program.Reachable) : session.halt.Ended session.program := by
  refine ⟨rfl, rfl, ?_, rfl, rfl, rfl⟩
  exact Program.atTop_of_first? (Program.wellPlaced_rewind h.wellPlaced.numbered).numbered rfl

/-- Where a fault comes from that an execution reports, and what is left then. -/
inductive Raises (session : Session) (cycles : Nat) (fault : Fault) (after : Session) : Prop where
  | queued {rest : List Event} : session.events = .fault fault :: rest →
      Raises session cycles fault after
  | interrupted : session.events = [] → session.interrupted = true →
      fault.code = .interrupted → Raises session cycles fault after
  | failed {program : Program} {skip : Bool} :
      (session.steps cycles).getLast? = some (program, skip) →
      (program.step skip).1 = .error fault →
      after = { session with program }.halt → Raises session cycles fault after

theorem eq_of_settle_eq_fault {reply : Program.Reply Outcome} {fault : Fault} {after : Session}
    (h : session.settle reply = (.fault fault, after)) :
    reply.1 = .error fault ∧ after = { session with program := reply.2 }.halt := by
  obtain ⟨cause | ⟨_ | value⟩ | ⟨_ | value⟩ | name, program⟩ := reply <;> cases h
  exact ⟨rfl, rfl⟩

theorem raises_of_execute {fault : Fault} {after : Session}
    (h : session.execute cycles = (.fault fault, after)) : Raises session cycles fault after := by
  by_cases hsteps : session.steps cycles = []
  · by_cases hactive : session.isActive = true
    · rw [execute_of_isActive hactive] at h
      cases cycles with
      | zero => cases h
      | succ cycles => exact absurd (mem_steps cycles hactive) (by simp [hsteps])
    · unfold execute at h
      split at h
      next event rest hevents =>
        cases h
        exact .queued hevents
      next hevents =>
        split at h
        next hbreak =>
          cases h
          exact .interrupted hevents (Bool.and_eq_true_iff.mp hbreak).1 rfl
        next hbreak =>
          split at h
          next => cases h
          next hpending =>
            split at h
            next hrunning =>
              have hcalm : session.interrupted = false := by simpa [hrunning] using hbreak
              exact absurd (isActive_iff.mpr ⟨hevents, hcalm, hpending, hrunning⟩) hactive
            next => cases h
  · obtain ⟨-, ⟨program, skip⟩, hlast, heq⟩ := exists_execute_eq_settle hsteps
    rw [h] at heq
    obtain ⟨hfault, hafter⟩ := eq_of_settle_eq_fault heq.symm
    rw [Program.step_eq_self_of_error hfault] at hafter
    exact .failed hlast hfault hafter

/-- A fault that is reported is one of a text, or of a line or an expression, or an interruption. -/
theorem fault_cases_of_execute (h : session.Reachable Program.Reachable) {fault : Fault}
    {after : Session} (hexecute : session.execute cycles = (.fault fault, after)) :
    fault.kind = .parse ∨
      fault.code ∈ [.notDeclared, .divisionByZero, .overflow, Fault.Code.undefinedLine] ∨
      fault.code = .interrupted ∧ session.events = [] ∧ session.interrupted = true := by
  cases raises_of_execute hexecute with
  | queued hevents =>
      have hannounced := h.announced (.fault fault) (hevents ▸ List.mem_cons_self)
      cases hannounced with
      | fault hfault => exact hfault.imp id fun hstep => .inl hstep.code_mem
  | interrupted hevents hflag hcode => exact .inr (.inr ⟨hcode, hevents, hflag⟩)
  | @failed program skip hlast hfault _ =>
      have hprogram : program.Reachable :=
        reachable_of_mem_steps h.program (List.mem_of_getLast? hlast)
      obtain ⟨line, cause, -, hcause, rfl, -⟩ := hprogram.wellPlaced.step_error hfault
      rw [Fault.code_inLine]
      exact .inr (.inl hcause.code_mem)

end Session

end NumberedBasic
