import NumberedBasic.Proofs.Expression.Merging
import NumberedBasic.Proofs.Session.Events

/-!
# Faults that are reported

A text has faults of the text only. A line has one of four faults of execution, and each carries the
number of its line. No session ever reports that something went wrong inside, or that a statement is
unknown.
-/

namespace NumberedBasic

theorem Expression.Merging.isReading_parseWithin (limit : Option Nat) (tokens : List Token) :
    IsReading (parseWithin limit tokens) := by
  rw [parseWithin_eq]
  exact Expression.isReading_parseWithin limit tokens

theorem Program.Reachable.step_error {program : Program} (h : program.Reachable) {skip : Bool}
    {fault : Fault} (hstep : (program.step skip).1 = .error fault) :
    fault.kind = .runtime ∧
      fault.code ∈ [.notDeclared, .divisionByZero, .overflow, Fault.Code.undefinedLine] ∧
      ∃ line ∈ program.listing.numbers, program.pc = some line ∧ fault.line = some line := by
  obtain ⟨line, cause, hpc, hcause, rfl, -⟩ := h.wellPlaced.step_error hstep
  refine ⟨?_, ?_, line, h.wellPlaced.mem_numbers hpc, hpc, ?_⟩
  · rw [Fault.kind_inLine]
    cases hcause <;> rfl
  · rw [Fault.code_inLine]
    exact hcause.code_mem
  · cases hcause <;> rfl

namespace Session

variable {session : Session}

/-- What an execution reports is nothing of the inside. -/
theorem code_ne_of_execute (h : session.Reachable Program.Reachable) {cycles : Nat} {fault : Fault}
    (hfault : (session.execute cycles).1 = .fault fault) :
    fault.code ≠ .internal ∧ fault.code ≠ .unknownStatement := by
  have hexecute : session.execute cycles = (.fault fault, (session.execute cycles).2) :=
    Prod.ext hfault rfl
  rcases fault_cases_of_execute h hexecute with hkind | hline | ⟨hcode, -⟩
  · constructor
    all_goals
      intro hcode
      rw [Fault.kind, hcode] at hkind
      cases hkind
  · constructor
    all_goals
      intro hcode
      rw [hcode] at hline
      exact absurd hline (by decide)
  · rw [hcode]
    exact ⟨nofun, nofun⟩

theorem code_ne_of_mem_replies (h : session.Reachable Program.Reachable) {calls : List Call}
    (hcalls : ∀ call ∈ calls, call.Installs Program.Reachable) {fault : Fault}
    (hfault : .fault fault ∈ (session.replies calls).1) :
    fault.code ≠ .internal ∧ fault.code ≠ .unknownStatement := by
  induction calls generalizing session with
  | nil => cases hfault
  | cons call rest ih =>
      obtain ⟨hcall, hrest⟩ := List.forall_mem_cons.mp hcalls
      rcases List.mem_append.mp hfault with hfirst | hlater
      · cases call with
        | enter _ | interrupt | install _ => cases hfirst
        | execute cycles =>
            have hevent : .fault fault ∈ [(session.execute cycles).1] := hfirst
            exact code_ne_of_execute h (List.mem_singleton.mp hevent).symm
      · exact ih (h.call call hcall) hrest hlater

/-- Faults of texts are of the one kind and those of lines of the other, with their line, and nothing
goes wrong inside. -/
theorem fault_kinds :
    (∀ tokens fault, Expression.parse tokens = .error fault → fault.kind = .parse) ∧
    (∀ tokens fault, Expression.Merging.parseWithin (some Expression.depthLimit) tokens =
      .error fault → fault.kind = .parse) ∧
    (∀ tokens, Expression.Merging.parseWithin (some Expression.depthLimit) tokens =
      Expression.parse tokens) ∧
    (∀ tokens fault, Statement.parse tokens = .error fault → fault.kind = .parse) ∧
    (∀ text fault, SourceLine.parse text = .error fault → fault.kind = .parse) ∧
    (∀ program : Program, program.Reachable → ∀ skip fault,
      (program.step skip).1 = .error fault →
        fault.kind = .runtime ∧
          fault.code ∈ [.notDeclared, .divisionByZero, .overflow, Fault.Code.undefinedLine] ∧
          ∃ line ∈ program.listing.numbers, program.pc = some line ∧ fault.line = some line) ∧
    ∀ calls : List Call, (∀ call ∈ calls, call.Installs Program.Reachable) →
      ∀ fault, .fault fault ∈ (Session.replies {} calls).1 →
        fault.code ≠ .internal ∧ fault.code ≠ .unknownStatement := by
  refine ⟨?_, ?_, ?_, ?_, ?_, ?_, ?_⟩
  · exact fun tokens => Expression.isReading_parse tokens
  · exact fun tokens => Expression.Merging.isReading_parseWithin (some Expression.depthLimit) tokens
  · exact fun tokens => Expression.Merging.parseWithin_eq (some Expression.depthLimit) tokens
  · exact fun tokens => Statement.isReading_parse tokens
  · exact fun text => SourceLine.isReading_parse text
  · intro program h skip fault hstep
    exact h.step_error hstep
  · intro calls hcalls fault hfault
    exact code_ne_of_mem_replies .initial hcalls hfault

def zeroDivision : Statement := .print (.compound .divide (.constant 1) (.constant 0))

/-- A sum without its right side, and a line that divides by zero. -/
theorem fault_kinds_of_division :
    (Expression.parse [⟨"1"⟩, ⟨"+"⟩] = .error .missingOperand ∧ Fault.missingOperand.kind = .parse) ∧
      (∃ program fault, Program.Reachable program ∧ (program.step false).1 = .error fault ∧
        fault.kind = .runtime ∧ fault.code = .divisionByZero ∧ fault.line = some 10) ∧
      ∃ fault, .fault fault ∈
          (Session.replies {} [.enter "10 PRINT 1 / 0", .enter "RUN", .execute 1]).1 ∧
        fault.code ≠ .internal ∧ fault.code ≠ .unknownStatement := by
  obtain ⟨hexpression, -, -, -, -, hstep, hsession⟩ := fault_kinds
  have hparse : Expression.parse [⟨"1"⟩, ⟨"+"⟩] = .error .missingOperand := rfl
  have hreachable : (Program.replies {} [.insert 10 (some zeroDivision)]).2.Reachable :=
    Program.Reachable.initial.replies _
  have hfault : ((Program.replies {} [.insert 10 (some zeroDivision)]).2.step false).1 =
      .error { code := .divisionByZero, line := some 10 } := rfl
  have hevents : .fault { code := .divisionByZero, line := some 10 } ∈
      (Session.replies {} [.enter "10 PRINT 1 / 0", .enter "RUN", .execute 1]).1 := by
    decide +kernel
  refine ⟨⟨hparse, hexpression _ _ hparse⟩, ?_, ?_⟩
  · exact ⟨_, _, hreachable, hfault, (hstep _ hreachable _ _ hfault).1, rfl, rfl⟩
  · exact ⟨_, hevents, hsession _ (by simp [Call.Installs]) _ hevents⟩

end Session

end NumberedBasic
