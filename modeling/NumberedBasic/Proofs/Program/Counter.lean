import NumberedBasic.Program.History
import NumberedBasic.Proofs.Program.Step

/-!
# The program counter

After any calls the program counter names a stored line, or nothing if no line is stored. A step is
thus never without a statement, and never without a line to go on to unless the pass is complete.
-/

namespace NumberedBasic

namespace Program

variable {program : Program} {line : LineNumber}

/-- The stored numbers are in order, and the counter is on one of them if there are any. -/
structure WellPlaced (program : Program) : Prop where
  numbered : program.listing.WellNumbered
  counter : (program.pc = none ∧ program.listing.numbers = []) ∨
    ∃ line ∈ program.listing.numbers, program.pc = some line

theorem wellPlaced_empty : WellPlaced {} := ⟨Listing.wellNumbered_empty, .inl ⟨rfl, rfl⟩⟩

theorem WellPlaced.mem_numbers (h : WellPlaced program) (hpc : program.pc = some line) :
    line ∈ program.listing.numbers := by
  rcases h.counter with ⟨hnone, -⟩ | ⟨stored, hmem, hstored⟩
  · rw [hpc] at hnone
    cases hnone
  · obtain rfl : stored = line := Option.some.inj (hstored.symm.trans hpc)
    exact hmem

theorem WellPlaced.pc_eq_none_iff (h : WellPlaced program) :
    program.pc = none ↔ program.listing.numbers = [] := by
  rcases h.counter with ⟨hnone, hempty⟩ | ⟨stored, hmem, hstored⟩
  · simp [hnone, hempty]
  · simp [hstored, List.ne_nil_of_mem hmem]

theorem wellPlaced_rewind (h : program.listing.WellNumbered) : WellPlaced program.rewind := by
  refine ⟨h, ?_⟩
  cases hfirst : program.listing.first? with
  | none => exact .inl ⟨hfirst, Listing.first?_eq_none_iff.mp hfirst⟩
  | some first => exact .inr ⟨first, Listing.mem_of_first? hfirst, hfirst⟩

/-- The counter may be on any stored line. -/
theorem WellPlaced.moved (h : WellPlaced program) (hmem : line ∈ program.listing.numbers) :
    WellPlaced { program with pc := some line } :=
  ⟨h.numbered, .inr ⟨line, hmem, rfl⟩⟩

/-! ### One call -/

theorem WellPlaced.edit {listing : Except Fault Listing} (h : WellPlaced program)
    (hlisting : ∀ after, listing = .ok after → after.WellNumbered) :
    WellPlaced (program.edit listing).2 := by
  cases listing with
  | error fault => exact h
  | ok after => exact wellPlaced_rewind (hlisting after rfl)

theorem WellPlaced.advance (h : WellPlaced program) (hmem : line ∈ program.listing.numbers)
    (printed : Option Value) : WellPlaced (program.advance line printed).2 := by
  rcases advance_cases program line printed with heq | ⟨hlast, heq⟩
  · rw [heq]
    exact wellPlaced_rewind h.numbered
  · rw [heq]
    obtain ⟨next, hnext⟩ := Listing.exists_after?_of_ne_last h.numbered.ascending hmem hlast
    exact ⟨h.numbered, .inr ⟨next, (Listing.mem_of_after? hnext).1, hnext⟩⟩

theorem WellPlaced.moves {reply : Reply Outcome} (h : WellPlaced program)
    (hmem : line ∈ program.listing.numbers) (hmoves : Moves program line reply) :
    WellPlaced reply.2 := by
  cases hmoves with
  | advances bindings printed =>
      have hbindings : WellPlaced { program with bindings } := ⟨h.numbered, h.counter⟩
      exact hbindings.advance hmem printed
  | jumps htarget => exact h.moved htarget
  | finishes => exact wellPlaced_rewind h.numbered
  | awaits _ => exact h
  | fails _ => exact h

theorem WellPlaced.step (h : WellPlaced program) (skip : Bool) :
    WellPlaced (program.step skip).2 := by
  unfold Program.step
  split
  next => exact h
  next line hpc =>
    have hmem := h.mem_numbers hpc
    have hafter := h.moves hmem (moves_executeLine hmem skip)
    exact hafter

theorem WellPlaced.carryOutDirectly (h : WellPlaced program) (statement : Statement) :
    WellPlaced (program.carryOutDirectly statement).2 := by
  have hstore : ∀ name value, WellPlaced (program.store name value) :=
    fun _ _ => ⟨h.numbered, h.counter⟩
  unfold Program.carryOutDirectly
  split
  · split
    · exact hstore _ _
    · exact h
  · split <;> exact h
  · exact hstore _ _
  · exact h

theorem WellPlaced.reply (h : WellPlaced program) (call : Call) :
    WellPlaced (program.reply call).2 := by
  cases call with
  | insert line statement => exact h.edit fun after hafter => h.numbered.put hafter
  | load text => exact h.edit fun after hafter => h.numbered.load hafter
  | step skip => exact h.step skip
  | carryOutDirectly statement => exact h.carryOutDirectly statement
  | store name value => exact ⟨h.numbered, h.counter⟩
  | rewind => exact wellPlaced_rewind h.numbered

/-! ### Every run of calls -/

theorem Reachable.wellPlaced (h : program.Reachable) : program.WellPlaced := by
  induction h with
  | initial => exact wellPlaced_empty
  | call call _ ih => exact ih.reply call

/-- A step fails with a fault of its line, and leaves the program as it was. -/
theorem WellPlaced.step_error (h : WellPlaced program) {skip : Bool} {fault : Fault}
    (hstep : (program.step skip).1 = .error fault) :
    ∃ line cause, program.pc = some line ∧ IsStepFault cause ∧ fault = cause.inLine (some line) ∧
      (program.step skip).2 = program := by
  cases hpc : program.pc with
  | none => simp [Program.step, hpc] at hstep
  | some line =>
      have hmoves := moves_executeLine (h.mem_numbers hpc) skip
      simp only [Program.step, hpc] at hstep ⊢
      cases hcause : (program.executeLine line skip).1 with
      | ok outcome =>
          rw [hcause] at hstep
          cases hstep
      | error cause =>
          rw [hcause] at hstep
          cases hstep
          obtain ⟨hfault, hafter⟩ := hmoves.of_error hcause
          exact ⟨line, cause, rfl, hfault, rfl, hafter⟩

/-- A pass that is complete leaves the counter on the first line. -/
theorem WellPlaced.step_completed (h : WellPlaced program) {skip : Bool} {printed : Option Value}
    (hstep : (program.step skip).1 = .ok (.completed printed)) :
    (program.step skip).2.pc = (program.step skip).2.listing.first? := by
  cases hpc : program.pc with
  | none =>
      have hempty : program.listing.first? = none :=
        Listing.first?_eq_none_iff.mpr (h.pc_eq_none_iff.mp hpc)
      simp [Program.step, hpc, hempty]
  | some line =>
      have hmoves := moves_executeLine (h.mem_numbers hpc) skip
      simp only [Program.step, hpc] at hstep ⊢
      generalize program.executeLine line skip = reply at hmoves hstep ⊢
      cases hmoves with
      | advances bindings printed =>
          rcases advance_cases { program with bindings } line printed with heq | ⟨-, heq⟩
          · rw [heq]
            rfl
          · rw [heq] at hstep
            cases hstep
      | finishes => rfl
      | jumps _ | awaits _ | fails _ => cases hstep

theorem atTop_iff (h : program.listing.WellNumbered) :
    program.AtTop ↔ program.pc = program.listing.first? := by
  unfold AtTop
  cases program.pc with
  | none =>
      dsimp only
      rw [@eq_comm _ none, Listing.first?_eq_none_iff, Listing.numbers_eq_nil_iff]
  | some line =>
      dsimp only
      rw [@eq_comm _ (some line), Listing.first?_eq_some_iff h.ascending]

theorem atTop_of_first? (h : program.listing.WellNumbered)
    (hpc : program.pc = program.listing.first?) : program.AtTop :=
  (atTop_iff h).mpr hpc

theorem AtTop.pc_eq (h : program.AtTop) (hnumbered : program.listing.WellNumbered) :
    program.pc = program.listing.first? :=
  (atTop_iff hnumbered).mp h

/-- The counter is on a stored line if there is one, so that a step finds its statement and the line
after it. -/
theorem counter_of_reachable (h : program.Reachable) :
    (program.pc = none ↔ program.listing.isEmpty) ∧
      (∀ line, program.pc = some line → (program.listing.get? line).isSome) ∧
      0 ∉ program.listing.numbers ∧
      (∀ skip fault, (program.step skip).1 = .error fault → fault.code ≠ .internal) ∧
      (∀ line, program.pc = some line → program.listing.last? ≠ some line →
        ∃ next ∈ program.listing.numbers, program.listing.after? line = some next) := by
  have hplaced := h.wellPlaced
  refine ⟨?_, ?_, hplaced.numbered.positive, ?_, ?_⟩
  · rw [hplaced.pc_eq_none_iff, Listing.numbers_eq_nil_iff]
  · intro line hpc
    exact Listing.mem_numbers_iff.mp (hplaced.mem_numbers hpc)
  · intro skip fault hstep
    obtain ⟨line, cause, -, hcause, rfl, -⟩ := hplaced.step_error hstep
    rw [Fault.code_inLine]
    intro hcode
    exact absurd (hcode ▸ hcause.code_mem) (by decide)
  · intro line hpc hlast
    obtain ⟨next, hnext⟩ := Listing.exists_after?_of_ne_last hplaced.numbered.ascending
      (hplaced.mem_numbers hpc) hlast
    exact ⟨next, (Listing.mem_of_after? hnext).1, hnext⟩

theorem counter_of_reachable_jump :
    ∃ program : Program, program.Reachable ∧ program.pc = some 20 ∧
      (program.listing.get? 20).isSome ∧ ∃ next, program.listing.after? 20 = some next := by
  have hreachable := Reachable.initial.replies
    [.insert 30 (some .finish), .insert 20 (some (.goto 10)), .insert 10 (some (.goto 20)),
      .step false]
  have hcounter := counter_of_reachable hreachable
  obtain ⟨next, -, hnext⟩ := hcounter.2.2.2.2 20 rfl (by decide)
  exact ⟨_, hreachable, rfl, hcounter.2.1 20 rfl, next, hnext⟩

end Program

end NumberedBasic
