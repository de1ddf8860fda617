import NumberedBasic.Proofs.Session.Events

/-!
# Failures leave no trace

A call on a program that fails changes nothing. A typed line that fails is a fault in the queue and
nothing else. A run that fails leaves the listing and the variables as they were before the line that
failed, and is over.
-/

namespace NumberedBasic

theorem Program.edit_eq_self_of_error {program : Program} {listing : Except Fault Listing}
    {fault : Fault} (h : (program.edit listing).1 = .error fault) :
    (program.edit listing).2 = program := by
  cases listing with
  | ok after => cases h
  | error other => rfl

theorem Program.reply_eq_self_of_error {program : Program} {call : Call} {fault : Fault}
    (h : (program.reply call).1 = .error fault) : (program.reply call).2 = program := by
  have hmap : ∀ {α : Type} {make : α → Option Outcome} {reply : Reply α},
      (reply.map make).1 = .error fault → reply.1 = .error fault := by
    intro α make reply hreply
    obtain ⟨outcome | result, after⟩ := reply
    · cases hreply
      rfl
    · cases hreply
  cases call with
  | insert line statement => exact edit_eq_self_of_error (hmap h)
  | load text => exact edit_eq_self_of_error (hmap h)
  | step skip => exact step_eq_self_of_error (hmap h)
  | carryOutDirectly statement => exact (carryOutDirectly_error (hmap h)).1
  | store _ _ | rewind => cases h

namespace Session

variable {session : Session} {cycles : Nat}

/-- A typed line only adds to the queue, and a fault is all that the line adds or does. -/
theorem exists_added_enter (session : Session) (text : String) :
    ∃ added, (session.enter text).events = session.events ++ added ∧
      ∀ fault, .fault fault ∈ added → session.enter text = session.report fault := by
  rcases announces_enter session text with hsame | ⟨event, -, heq⟩
  · exact ⟨[], by rw [hsame, List.append_nil], nofun⟩
  · refine ⟨[event], by rw [heq]; rfl, ?_⟩
    intro fault hfault
    rw [heq, ← List.mem_singleton.mp hfault]
    rfl

/-- A fault of an execution that was neither queued nor an interruption is one of the last line that was
stepped. -/
theorem exists_step_of_fault (h : session.Reachable Program.Reachable) {fault : Fault}
    {after : Session} (hexecute : session.execute cycles = (.fault fault, after))
    (hevents : session.events = []) (hcode : fault.code ≠ .interrupted) :
    ∃ program skip line, (session.steps cycles).getLast? = some (program, skip) ∧
      (program.step skip).1 = .error fault ∧ program.pc = some line ∧
      line ∈ program.listing.numbers ∧ fault.line = some line ∧ after.Ended program := by
  cases raises_of_execute hexecute with
  | queued hqueued =>
      rw [hevents] at hqueued
      cases hqueued
  | interrupted _ _ hinterrupted => exact absurd hinterrupted hcode
  | @failed program skip hlast hfault hafter =>
      have hprogram : program.Reachable :=
        reachable_of_mem_steps h.program (List.mem_of_getLast? hlast)
      obtain ⟨line, cause, hpc, hcause, hline, -⟩ := hprogram.wellPlaced.step_error hfault
      refine ⟨program, skip, line, hlast, hfault, hpc, hprogram.wellPlaced.mem_numbers hpc, ?_, ?_⟩
      · rw [hline]
        cases hcause <;> rfl
      · have hended : Ended { session with program }.halt program := ended_halt hprogram
        rwa [hafter]

/-- What fails leaves the program and the session as they were, but for the report, and a run that fails
is over. -/
theorem unchanged_of_fault :
    (∀ (program : Program) (call : Program.Call) (fault : Fault),
      (program.reply call).1 = .error fault → (program.reply call).2 = program) ∧
    (∀ (session : Session) (text : String), ∃ added,
      (session.enter text).events = session.events ++ added ∧
        ∀ fault, .fault fault ∈ added →
          session.enter text = { session with events := session.events ++ [.fault fault] }) ∧
    ∀ session : Session, session.Reachable Program.Reachable →
      ∀ (cycles : Nat) (fault : Fault) (after : Session),
        session.execute cycles = (.fault fault, after) → session.events = [] →
        fault.code ≠ .interrupted →
        ∃ program skip line, (session.steps cycles).getLast? = some (program, skip) ∧
          (program.step skip).1 = .error fault ∧ program.pc = some line ∧
          line ∈ program.listing.numbers ∧ fault.line = some line ∧ after.Ended program := by
  refine ⟨?_, ?_, ?_⟩
  · intro program call fault h
    exact Program.reply_eq_self_of_error h
  · intro session text
    exact exists_added_enter session text
  · intro session h cycles fault after hexecute hevents hcode
    exact exists_step_of_fault h hexecute hevents hcode

/-- The second line adds to the largest value that the first one has stored. -/
def overflowing : List Call :=
  [.enter "10 LET A = 2147483647", .enter "20 PRINT A + 1", .enter "RUN"]

theorem unchanged_of_fault_overflow :
    ∃ program skip, ((Session.replies {} overflowing).2.steps 5).getLast? = some (program, skip) ∧
      program.pc = some 20 ∧ program.bindings.fetch? "A" = some 2147483647 ∧
      ((Session.replies {} overflowing).2.execute 5).2.Ended program ∧
      (program.reply (.step skip)).2 = program ∧
      (Session.replies {} overflowing).2.enter "LET A = B" =
        (Session.replies {} overflowing).2.report (.notDeclared "B") := by
  obtain ⟨hprogram, hline, hrun⟩ := unchanged_of_fault
  have hreachable : (Session.replies {} overflowing).2.Reachable Program.Reachable := by
    apply Reachable.initial.replies
    simp [overflowing, Call.Installs]
  have hexecute : (Session.replies {} overflowing).2.execute 5 =
      (.fault { code := .overflow, line := some 20 },
        ((Session.replies {} overflowing).2.execute 5).2) := by decide +kernel
  have hevents : (Session.replies {} overflowing).2.events = [] := by decide +kernel
  have hbindings : ((Session.replies {} overflowing).2.execute 5).2.program.bindings.fetch? "A" =
      some 2147483647 := by decide +kernel
  obtain ⟨program, skip, line, hlast, hfault, hpc, -, hnumber, hended⟩ :=
    hrun _ hreachable 5 _ _ hexecute hevents (by decide)
  cases hnumber
  have hstep : (program.reply (.step skip)).1 = .error { code := .overflow, line := some 20 } := by
    rw [Program.reply, Program.Reply.map, hfault]
    rfl
  obtain ⟨added, hadded, hreport⟩ := hline (Session.replies {} overflowing).2 "LET A = B"
  have hqueue : ((Session.replies {} overflowing).2.enter "LET A = B").events =
      [.fault (.notDeclared "B")] := by decide +kernel
  rw [hqueue, hevents, List.nil_append] at hadded
  refine ⟨program, skip, hlast, hpc, ?_, hended, hprogram program _ _ hstep, ?_⟩
  · rw [← hended.bindings]
    exact hbindings
  · exact hreport (.notDeclared "B") (hadded ▸ List.mem_singleton_self _)

end Session

end NumberedBasic
