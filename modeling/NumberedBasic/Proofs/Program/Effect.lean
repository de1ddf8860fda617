import NumberedBasic.Program.Effect
import NumberedBasic.Program.Names
import NumberedBasic.Program.Renumbering
import NumberedBasic.Proofs.Program.Step

/-!
# A step by its effect

A step brings about the effect of its line. The effect does not say where the program is, and a jump
that it asks for is one that the listing has.
-/

namespace NumberedBasic

/-! ### Effects of statements -/

theorem Bindings.agreesOn_append_iff {names others : List String} {bindings other : Bindings} :
    AgreesOn (names ++ others) bindings other ↔
      AgreesOn names bindings other ∧ AgreesOn others bindings other :=
  List.forall_mem_append

/-- Only the values of the variables that it names matter, not the order in which they were declared,
and not what else there is. -/
theorem Expression.evaluate_congr {bindings other : Bindings} {e : Expression}
    (h : Bindings.AgreesOn e.names bindings other) : e.evaluate bindings = e.evaluate other := by
  induction e with
  | constant value => rfl
  | var name =>
      have hname := h name List.mem_cons_self
      rw [evaluate, evaluate, Bindings.fetch, Bindings.fetch, hname]
  | compound op lhs rhs ihl ihr =>
      obtain ⟨hlhs, hrhs⟩ := Bindings.agreesOn_append_iff.mp h
      rw [evaluate, evaluate, ihl hlhs, ihr hrhs]

namespace Statement

variable {statement : Statement} {bindings other : Bindings}

theorem effect_congr (h : Bindings.AgreesOn statement.names bindings other) :
    statement.effect bindings = statement.effect other := by
  cases statement with
  | assign name e =>
      have he : Bindings.AgreesOn e.names bindings other :=
        (List.forall_mem_cons.mp h).2
      rw [effect, effect, Expression.evaluate_congr he]
  | print e => rw [effect, effect, Expression.evaluate_congr h]
  | branch lhs comparator rhs target =>
      obtain ⟨hlhs, hrhs⟩ := Bindings.agreesOn_append_iff.mp h
      rw [effect, effect, Expression.evaluate_congr hlhs, Expression.evaluate_congr hrhs]
  | remark _ | input _ | goto _ | finish => rfl

theorem target?_of_effect {target : LineNumber}
    (h : statement.effect bindings = .jumps target) : statement.target? = some target := by
  cases statement with
  | goto _ =>
      cases h
      rfl
  | branch lhs comparator rhs destination =>
      rw [effect] at h
      split at h
      next => cases h
      next =>
        split at h
        next => cases h
        next =>
          split at h
          next =>
            cases h
            rfl
          next => cases h
  | assign _ _ | print _ =>
      rw [effect] at h
      split at h <;> cases h
  | remark _ | input _ | finish => cases h

theorem exists_evaluate_of_effect {fault : Fault} (h : statement.effect bindings = .fails fault) :
    ∃ e : Expression, e.evaluate bindings = .error fault := by
  cases statement with
  | assign name e | print e =>
      rw [effect] at h
      split at h
      next => cases h
      next fault hfault =>
        cases h
        exact ⟨e, hfault⟩
  | branch lhs comparator rhs destination =>
      rw [effect] at h
      split at h
      next fault hfault =>
        cases h
        exact ⟨lhs, hfault⟩
      next =>
        split at h
        next fault hfault =>
          cases h
          exact ⟨rhs, hfault⟩
        next => split at h <;> cases h
  | remark _ | input _ | goto _ | finish => cases h

end Statement

namespace Program

variable {program : Program} {line target : LineNumber} {skip : Bool} {effect : Effect}

/-! ### Effects of lines -/

theorem carryOut_eq_perform (program : Program) (line : LineNumber) (statement : Statement) :
    program.carryOut line statement = program.perform line (statement.effect program.bindings) := by
  cases statement with
  | assign name e | print e =>
      rw [carryOut, Statement.effect]
      cases e.evaluate program.bindings <;> rfl
  | branch lhs comparator rhs target =>
      rw [carryOut, Statement.effect]
      cases lhs.evaluate program.bindings with
      | error fault => rfl
      | ok left =>
          cases rhs.evaluate program.bindings with
          | error fault => rfl
          | ok right =>
              dsimp only
              split <;> rfl
  | remark _ | input _ | goto _ | finish => rfl

theorem executeLine_of_effectAt? (h : program.effectAt? line skip = some effect) :
    program.executeLine line skip = program.perform line effect := by
  cases skip with
  | true =>
      cases h
      rfl
  | false =>
      obtain ⟨statement, hstored, rfl⟩ := Option.map_eq_some_iff.mp h
      rw [executeLine, hstored]
      exact carryOut_eq_perform program line statement

theorem exists_effectAt? (hmem : line ∈ program.listing.numbers) (skip : Bool) :
    ∃ effect, program.effectAt? line skip = some effect := by
  obtain ⟨statement, hstored⟩ := Option.isSome_iff_exists.mp (Listing.mem_numbers_iff.mp hmem)
  cases skip with
  | true => exact ⟨_, rfl⟩
  | false => exact ⟨_, Option.map_eq_some_iff.mpr ⟨statement, hstored, rfl⟩⟩

theorem step_of_effectAt? (hpc : program.pc = some line)
    (h : program.effectAt? line skip = some effect) :
    program.step skip = ((program.perform line effect).1.mapError (·.inLine (some line)),
      (program.perform line effect).2) := by
  rw [step, hpc]
  dsimp only
  rw [executeLine_of_effectAt? h]

theorem perform_of_step {outcome : Outcome} (hpc : program.pc = some line)
    (h : program.effectAt? line skip = some effect) (hstep : (program.step skip).1 = .ok outcome) :
    (program.perform line effect).1 = .ok outcome := by
  rw [step_of_effectAt? hpc h] at hstep
  cases hreply : (program.perform line effect).1 with
  | error fault =>
      rw [hreply] at hstep
      cases hstep
  | ok other =>
      rw [hreply] at hstep
      exact hstep

/-- A jump is one that the statement of the line may make. -/
theorem exists_target_of_effectAt? (h : program.effectAt? line skip = some (.jumps target)) :
    ∃ statement, (line, statement) ∈ program.listing.lines ∧ statement.target? = some target := by
  cases skip with
  | true => cases h
  | false =>
      obtain ⟨statement, hstored, heffect⟩ := Option.map_eq_some_iff.mp h
      exact ⟨statement, Listing.mem_of_get? hstored, Statement.target?_of_effect heffect⟩

theorem mem_targets_of_effectAt? (h : program.effectAt? line skip = some (.jumps target)) :
    target ∈ program.listing.targets := by
  obtain ⟨statement, hmem, htarget⟩ := exists_target_of_effectAt? h
  exact List.mem_filterMap.mpr ⟨(line, statement), hmem, htarget⟩

/-- A line fails by itself only through one of its expressions. -/
theorem fault_of_effectAt? {fault : Fault} (h : program.effectAt? line skip = some (.fails fault)) :
    (∃ name, fault = .notDeclared name) ∨ fault = .divisionByZero ∨ fault = .overflow := by
  cases skip with
  | true => cases h
  | false =>
      obtain ⟨statement, -, heffect⟩ := Option.map_eq_some_iff.mp h
      obtain ⟨e, he⟩ := Statement.exists_evaluate_of_effect heffect
      exact Expression.evaluate_error he

/-! ### What an effect leaves alone -/

@[simp] theorem assign_listing (program : Program) (assigned : Option (String × Value)) :
    (program.assign assigned).listing = program.listing := by
  cases assigned <;> rfl

theorem advance_listing (program : Program) (line : LineNumber) (printed : Option Value) :
    (program.advance line printed).2.listing = program.listing := by
  unfold advance
  split <;> rfl

theorem jump_listing (program : Program) (target : LineNumber) :
    (program.jump target).2.listing = program.listing := by
  unfold jump
  split <;> rfl

theorem perform_listing (program : Program) (line : LineNumber) (effect : Effect) :
    (program.perform line effect).2.listing = program.listing := by
  cases effect with
  | passes assigned printed => exact (advance_listing _ line printed).trans (assign_listing _ _)
  | jumps target => exact jump_listing program target
  | finishes | awaits _ | fails _ => rfl

theorem step_listing (program : Program) (skip : Bool) :
    (program.step skip).2.listing = program.listing := by
  unfold step
  split
  next => rfl
  next line _ =>
    cases heffect : program.effectAt? line skip with
    | some effect =>
        rw [executeLine_of_effectAt? heffect]
        exact perform_listing program line effect
    | none =>
        cases skip with
        | true => cases heffect
        | false =>
            have hmissing : program.listing.get? line = none := Option.map_eq_none_iff.mp heffect
            simp [executeLine, hmissing]

theorem reply_listing {call : Call} (hcall : call.isOfRun) :
    (program.reply call).2.listing = program.listing := by
  cases call with
  | step skip => exact step_listing program skip
  | store name value => rfl
  | insert _ _ | load _ | carryOutDirectly _ | rewind => cases hcall

theorem carryOutDirectly_listing (program : Program) (statement : Statement) :
    (program.carryOutDirectly statement).2.listing = program.listing := by
  unfold carryOutDirectly
  split
  · split <;> rfl
  · split <;> rfl
  · rfl
  · rfl

/-! ### Going on -/

theorem advance_of_after?_eq_none (hascending : Listing.Ascending program.listing.lines)
    (hmem : line ∈ program.listing.numbers) (hafter : program.listing.after? line = none)
    (printed : Option Value) :
    program.advance line printed = (.ok (.completed printed), program.rewind) := by
  have hlast := (Listing.last?_eq_some_iff_after?_eq_none hascending hmem).mpr hafter
  rw [advance, if_pos hlast.symm]

theorem advance_of_after?_eq_some {next : LineNumber}
    (hascending : Listing.Ascending program.listing.lines)
    (hmem : line ∈ program.listing.numbers) (hafter : program.listing.after? line = some next)
    (printed : Option Value) :
    program.advance line printed = (.ok (.advanced printed), { program with pc := some next }) := by
  have hlast : some line ≠ program.listing.last? := by
    intro hlast
    have hnone := (Listing.last?_eq_some_iff_after?_eq_none hascending hmem).mp hlast.symm
    rw [hafter] at hnone
    cases hnone
  rw [advance, if_neg hlast, hafter]

end Program

end NumberedBasic
