import NumberedBasic.Program
import NumberedBasic.Proofs.Expression.Exact
import NumberedBasic.Proofs.Listing.Neighbours

/-!
# What a step can do

A stored line either goes on to the line after it, jumps to a stored line, ends the pass, waits for a
value, or fails and leaves everything as it was. The faults of a step are those of its expressions and
of a missing target.
-/

namespace NumberedBasic

namespace Program

/-- The faults that a line can raise. -/
inductive IsStepFault : Fault → Prop where
  | notDeclared (name : String) : IsStepFault (.notDeclared name)
  | divisionByZero : IsStepFault .divisionByZero
  | overflow : IsStepFault .overflow
  | undefinedLine (target : LineNumber) : IsStepFault (.undefinedLine target)

theorem IsStepFault.code_mem {fault : Fault} (h : IsStepFault fault) :
    fault.code ∈ [.notDeclared, .divisionByZero, .overflow, Fault.Code.undefinedLine] := by
  cases h <;> simp [Fault.notDeclared, Fault.divisionByZero, Fault.overflow, Fault.undefinedLine]

theorem isStepFault_of_evaluate {bindings : Bindings} {e : Expression} {fault : Fault}
    (h : e.evaluate bindings = .error fault) : IsStepFault fault := by
  rcases Expression.evaluate_error h with ⟨name, rfl⟩ | rfl | rfl
  · exact .notDeclared name
  · exact .divisionByZero
  · exact .overflow

/-- What the execution of a line may lead to. -/
inductive Moves (program : Program) (line : LineNumber) : Reply Outcome → Prop where
  | advances (bindings : Bindings) (printed : Option Value) :
      Moves program line ({ program with bindings }.advance line printed)
  | jumps {target : LineNumber} : target ∈ program.listing.numbers →
      Moves program line (.ok (.advanced none), { program with pc := some target })
  | finishes : Moves program line (.ok (.completed none), program.rewind)
  | awaits {name : String} : program.listing.get? line = some (.input name) →
      Moves program line (.ok (.awaiting name), program)
  | fails {fault : Fault} : IsStepFault fault → Moves program line (.error fault, program)

variable {program : Program} {line : LineNumber}

/-- After the last line the pass is complete, and after any other the next line follows. -/
theorem advance_cases (program : Program) (line : LineNumber) (printed : Option Value) :
    program.advance line printed = (.ok (.completed printed), program.rewind) ∨
      program.listing.last? ≠ some line ∧ program.advance line printed =
        (.ok (.advanced printed), { program with pc := program.listing.after? line }) := by
  unfold advance
  split
  next => exact .inl rfl
  next hlast => exact .inr ⟨fun heq => hlast heq.symm, rfl⟩

theorem moves_jump (target : LineNumber) : Moves program line (program.jump target) := by
  unfold jump
  split
  next found hfound =>
    obtain ⟨rfl, hmem⟩ := Listing.resolve_eq_ok_iff.mp hfound
    exact .jumps hmem
  next fault hfault =>
    unfold Listing.resolve at hfault
    split at hfault
    next => cases hfault
    next =>
      cases hfault
      exact .fails (.undefinedLine target)

theorem moves_carryOut {statement : Statement}
    (hstored : program.listing.get? line = some statement) :
    Moves program line (program.carryOut line statement) := by
  cases statement with
  | remark content => exact .advances program.bindings none
  | assign name e =>
      rw [carryOut]
      split
      next value _ => exact .advances (program.bindings.store name value) none
      next fault hfault => exact .fails (isStepFault_of_evaluate hfault)
  | print e =>
      rw [carryOut]
      split
      next value _ => exact .advances program.bindings (some value)
      next fault hfault => exact .fails (isStepFault_of_evaluate hfault)
  | input name => exact .awaits hstored
  | goto target => exact moves_jump target
  | branch lhs comparator rhs target =>
      rw [carryOut]
      split
      next fault hfault => exact .fails (isStepFault_of_evaluate hfault)
      next left _ =>
        split
        next fault hfault => exact .fails (isStepFault_of_evaluate hfault)
        next right _ =>
          split
          next => exact moves_jump target
          next => exact .advances program.bindings none
  | finish => exact .finishes

theorem moves_executeLine (hmem : line ∈ program.listing.numbers) (skip : Bool) :
    Moves program line (program.executeLine line skip) := by
  obtain ⟨statement, hstored⟩ := Option.isSome_iff_exists.mp (Listing.mem_numbers_iff.mp hmem)
  rw [executeLine, hstored]
  split
  next => exact .advances program.bindings none
  next => exact moves_carryOut hstored

/-- A line that fails has one of the faults of a line, and changes nothing. -/
theorem Moves.of_error {reply : Reply Outcome} {fault : Fault} (h : Moves program line reply)
    (hreply : reply.1 = .error fault) : IsStepFault fault ∧ reply.2 = program := by
  cases h with
  | advances bindings printed =>
      rcases advance_cases { program with bindings } line printed with heq | ⟨-, heq⟩
      · rw [heq] at hreply
        cases hreply
      · rw [heq] at hreply
        cases hreply
  | fails hcause =>
      cases hreply
      exact ⟨hcause, rfl⟩
  | jumps _ | finishes | awaits _ => cases hreply

/-- A step that fails changes nothing. -/
theorem step_eq_self_of_error {skip : Bool} {fault : Fault}
    (h : (program.step skip).1 = .error fault) : (program.step skip).2 = program := by
  cases hpc : program.pc with
  | none => simp [step, hpc] at h
  | some line =>
      have hline : ∀ cause, (program.executeLine line skip).1 = .error cause →
          (program.executeLine line skip).2 = program := by
        intro cause hcause
        by_cases hmem : line ∈ program.listing.numbers
        · exact ((moves_executeLine hmem skip).of_error hcause).2
        · have hmissing : program.listing.get? line = none := by
            simpa [Listing.mem_numbers_iff] using hmem
          cases skip with
          | true => exact ((Moves.advances program.bindings none).of_error hcause).2
          | false => simp [executeLine, hmissing]
      simp only [step, hpc] at h ⊢
      cases hcause : (program.executeLine line skip).1 with
      | error cause => exact hline cause hcause
      | ok outcome =>
          rw [hcause] at h
          cases h

/-- A step that waits stands on the line that asks, and changes nothing. -/
theorem step_awaiting {skip : Bool} {name : String} {after : Program}
    (h : program.step skip = (.ok (.awaiting name), after)) :
    ∃ line, program.pc = some line ∧ program.listing.get? line = some (.input name) ∧
      after = program := by
  cases hpc : program.pc with
  | none => simp [step, hpc] at h
  | some line =>
      refine ⟨line, rfl, ?_⟩
      simp only [step, hpc, executeLine] at h
      split at h
      next =>
        rcases advance_cases program line none with heq | ⟨-, heq⟩
        · rw [heq] at h
          cases h
        · rw [heq] at h
          cases h
      next =>
        split at h
        next statement hstored =>
          have hmoves := moves_carryOut hstored
          generalize program.carryOut line statement = reply at hmoves h
          cases hmoves with
          | awaits hinput =>
              cases h
              exact ⟨hinput, rfl⟩
          | advances bindings printed =>
              rcases advance_cases { program with bindings } line printed with heq | ⟨-, heq⟩
              · rw [heq] at h
                cases h
              · rw [heq] at h
                cases h
          | jumps _ | finishes | fails _ => cases h
        next => cases h

end Program

end NumberedBasic
