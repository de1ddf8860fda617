import NumberedBasic.Program.Run
import NumberedBasic.Proofs.Program.Step

/-!
# What is seen of a run

More steps let more be seen and change nothing of what was seen before. What is printed and asked comes
from the lines that are executed, once each and in their order.
-/

namespace NumberedBasic

open Program

/-! ### One step -/

/-- Only a step that completes the pass says so. -/
theorem Notice.exists_of_completed_mem {outcome : Except Fault Outcome}
    (h : completed ∈ ofStep outcome) : ∃ printed, outcome = .ok (.completed printed) := by
  cases outcome with
  | error fault => simp [ofStep] at h
  | ok outcome =>
      cases outcome with
      | completed printed => exact ⟨printed, rfl⟩
      | advanced printed => cases printed <;> simp [ofStep] at h
      | awaiting name => simp [ofStep] at h

theorem Notice.outputs_advance (program : Program) (line : LineNumber) (printed : Option Value) :
    (ofStep (program.advance line printed).1).filter isOutput =
      (printed.map Notice.printed).toList := by
  rcases advance_cases program line printed with heq | ⟨-, heq⟩
  · rw [heq]
    cases printed <;> rfl
  · rw [heq]
    cases printed <;> rfl

theorem Notice.outputs_jump (program : Program) (target : LineNumber) :
    (ofStep (program.jump target).1).filter isOutput = [] := by
  unfold Program.jump
  split <;> rfl

/-- Naming the line of a fault prints and asks nothing. -/
theorem Notice.outputs_mapError (f : Fault → Fault) (outcome : Except Fault Outcome) :
    (ofStep (outcome.mapError f)).filter isOutput = (ofStep outcome).filter isOutput := by
  cases outcome <;> rfl

namespace Run

/-- A line prints if it is a `PRINT` that has a value, asks if it is an `INPUT`, and does neither
otherwise. -/
theorem outputs_reply (run : Run) :
    (Notice.ofStep run.reply.1).filter Notice.isOutput = run.output?.toList := by
  unfold reply Program.step output?
  cases hpc : run.program.pc with
  | none => cases run.skip <;> rfl
  | some line =>
      rw [Notice.outputs_mapError, executeLine]
      cases run.skip with
      | true => exact Notice.outputs_advance run.program line none
      | false =>
          simp only [Bool.false_eq_true, if_false, Option.bind_some]
          cases run.program.listing.get? line with
          | none => rfl
          | some statement =>
              cases statement with
              | remark _ => exact Notice.outputs_advance run.program line none
              | assign name e =>
                  dsimp only [carryOut]
                  cases e.evaluate run.program.bindings with
                  | error fault => rfl
                  | ok value => exact Notice.outputs_advance _ line none
              | print e =>
                  dsimp only [carryOut]
                  cases e.evaluate run.program.bindings with
                  | error fault => rfl
                  | ok value => exact Notice.outputs_advance run.program line (some value)
              | input name => rfl
              | goto target => exact Notice.outputs_jump run.program target
              | branch lhs comparator rhs target =>
                  dsimp only [carryOut]
                  cases lhs.evaluate run.program.bindings with
                  | error fault => rfl
                  | ok left =>
                      cases rhs.evaluate run.program.bindings with
                      | error fault => rfl
                      | ok right =>
                          dsimp only
                          split
                          · exact Notice.outputs_jump run.program target
                          · exact Notice.outputs_advance run.program line none
              | finish => rfl

/-! ### Whole runs -/

theorem sights_succ (count : Nat) (run : Run) :
    run.sights (count + 1) =
      (Notice.ofStep run.reply.1).map (fun notice => (notice, run.reply.2)) ++
        run.next?.elim [] (sights count) := by
  unfold sights
  rw [stages, List.flatMap_cons]
  cases run.next? <;> rfl

/-- What is seen stays as it is when more steps are taken. -/
theorem sights_prefix_add (count more : Nat) (run : Run) :
    run.sights count <+: run.sights (count + more) := by
  induction count generalizing run with
  | zero => exact List.nil_prefix
  | succ count ih =>
      rw [Nat.add_right_comm, sights_succ, sights_succ]
      cases run.next? with
      | none => exact List.prefix_rfl
      | some next => exact (List.prefix_append_right_inj _).mpr (ih next)

theorem sights_prefix_of_le {count larger : Nat} (hle : count ≤ larger) (run : Run) :
    run.sights count <+: run.sights larger := by
  have hprefix := sights_prefix_add count (larger - count) run
  rwa [Nat.add_sub_cancel' hle] at hprefix

/-- The outputs of a run are those of its lines. -/
theorem outputs_sights (count : Nat) (run : Run) :
    ((run.sights count).map (·.1)).filter Notice.isOutput =
      (run.stages count).filterMap output? := by
  unfold sights
  induction run.stages count with
  | nil => rfl
  | cons stage rest ih =>
      have hfirst := outputs_reply stage
      have hnotices : ((Notice.ofStep stage.reply.1).map fun notice => (notice, stage.reply.2)).map
          (·.1) = Notice.ofStep stage.reply.1 := by
        rw [List.map_map]
        exact List.map_id _
      rw [List.flatMap_cons, List.map_append, List.filter_append, ih, hnotices, hfirst]
      cases houtput : stage.output? with
      | none => rw [List.filterMap_cons_none houtput]; rfl
      | some notice => rw [List.filterMap_cons_some houtput]; rfl

/-- What holds of a run and is kept by its steps holds at each of its stages. -/
theorem forall_mem_stages {motive : Run → Prop} {count : Nat} {run : Run}
    (hnext : ∀ stage next, motive stage → stage.next? = some next → motive next)
    (h : motive run) : ∀ stage ∈ run.stages count, motive stage := by
  induction count generalizing run with
  | zero => simp [stages]
  | succ count ih =>
      rw [stages, List.forall_mem_cons]
      refine ⟨h, ?_⟩
      cases hstep : run.next? with
      | none => simp
      | some next => exact ih (hnext run next h hstep)

/-- The run after a step has the program that the step leaves, or one more value in it. -/
theorem exists_program_of_next? {run next : Run} (h : run.next? = some next) :
    next.program = run.reply.2 ∨ ∃ name value, next.program = run.reply.2.store name value := by
  unfold next? at h
  split at h
  next =>
    cases h
    exact .inl rfl
  next =>
    cases h
    exact .inr ⟨_, _, rfl⟩
  next => cases h

/-! ### The values of the variables -/

theorem views_succ (count : Nat) (run : Run) :
    run.views (count + 1) = run.view ++ run.next?.elim [] (views count) := by
  unfold views view
  rw [sights_succ, List.map_append, List.map_map]
  cases run.next? <;> rfl

theorem views_mono {count larger : Nat} (hle : count ≤ larger) (run : Run) :
    run.views count <+: run.views larger :=
  List.IsPrefix.map _ (sights_prefix_of_le hle run)

theorem ends_iff {run : Run} :
    run.Ends ↔ ∃ count, ∃ seen ∈ run.views count, seen.1.isOutput = false := by
  unfold Ends views
  constructor
  · rintro ⟨count, seen, hmem, hend⟩
    exact ⟨count, _, List.mem_map_of_mem hmem, hend⟩
  · rintro ⟨count, _, hmem, hend⟩
    obtain ⟨seen, hseen, rfl⟩ := List.mem_map.mp hmem
    exact ⟨count, seen, hseen, hend⟩

end Run

end NumberedBasic
