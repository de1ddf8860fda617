import NumberedBasic.Proofs.Program.Run
import NumberedBasic.Proofs.Session.Calls
import NumberedBasic.Proofs.Text.Numerals
import NumberedBasic.Session.Dialogue

/-!
# A session carries out a run

From `RUN` on, what a session shows is what is seen of its program when that is stepped by itself,
however the steps are divided into slices. A slice is a number of silent steps and at most one that is
not silent; the answer to a question is the value that the run goes on with.
-/

namespace NumberedBasic

namespace Session

variable {session : Session} {run : Run} {cycles : Nat} {budgets : List Nat}

/-- The session is about to take the next step of the run. -/
structure Carries (session : Session) (run : Run) : Prop where
  active : session.isActive = true
  program : session.program = run.program
  resume : session.resume = run.skip

theorem carries_enter_run (h : session.Idle) (answers : List Value) :
    (session.enter "RUN").Carries { program := session.program, answers } := by
  rw [enter_run h.pending]
  exact ⟨isActive_iff.mpr ⟨h.events, h.interrupted, h.pending, rfl⟩, rfl, h.resume⟩

theorem answerValue?_toString (value : Value) : answerValue? (toString value) = some value := by
  change ((Text.signedNumeral? (Text.trim value.toInt.repr.toList)).bind Value.ofInt?) = some value
  have htrim : Text.trim value.toInt.repr.toList = value.toInt.repr.toList :=
    Text.trim_of_forall fun _ hmem => Text.isBlank_eq_false_of_mem_repr hmem
  rw [htrim, Text.signedNumeral?_repr, Option.bind_some, Value.ofInt?_toInt]

/-! ### One step -/

/-- The events of a step of the run. -/
def shown (run : Run) : List (Event × Program) :=
  (Notice.ofStep run.reply.1).map fun notice => display (notice, run.reply.2)

theorem map_display_sights_succ (count : Nat) (run : Run) :
    (run.sights (count + 1)).map display =
      shown run ++ (run.next?.elim [] (Run.sights count)).map display := by
  rw [Run.sights_succ, List.map_append, List.map_map]
  rfl

theorem Carries.converse_zero (h : session.Carries run) (answers : List Value) :
    session.converse (0 :: budgets) answers = session.converse budgets answers := by
  have hexecute : session.execute 0 = (.running, session) := execute_of_isActive h.active
  simp [converse, hexecute]

theorem Carries.step_eq (h : session.Carries run) :
    session.program.step session.resume = run.reply := by
  rw [h.program, h.resume]
  rfl

/-- After a silent step the same slice goes on. -/
theorem Carries.converse_silent (h : session.Carries run)
    (hreply : run.reply.1 = .ok (.advanced none)) :
    ∃ next after, run.next? = some next ∧ Carries after next ∧ shown run = [] ∧
      session.converse ((cycles + 1) :: budgets) run.answers =
        after.converse (cycles :: budgets) next.answers := by
  obtain ⟨hevents, hinterrupted, hpending, hrunning⟩ := isActive_iff.mp h.active
  have hafter : isActive { session with program := run.reply.2, resume := false } = true :=
    isActive_iff.mpr ⟨hevents, hinterrupted, hpending, hrunning⟩
  have hexecute : session.execute (cycles + 1) =
      execute { session with program := run.reply.2, resume := false } cycles := by
    rw [execute_of_isActive h.active, execute_of_isActive hafter, cycle_succ, h.step_eq]
    generalize run.reply = reply at hreply
    obtain ⟨outcome, after⟩ := reply
    cases hreply
    rfl
  refine ⟨{ program := run.reply.2, answers := run.answers },
    { session with program := run.reply.2, resume := false }, ?_, ⟨hafter, rfl, rfl⟩, ?_, ?_⟩
  · rw [Run.next?, hreply]
  · rw [shown, hreply]
    rfl
  · unfold converse
    rw [hexecute]

theorem Carries.execute_loud (h : session.Carries run)
    (hreply : run.reply.1 ≠ .ok (.advanced none)) :
    session.execute (cycles + 1) = session.settle run.reply := by
  rw [execute_of_isActive h.active, cycle_succ, h.step_eq]
  split
  next after heq => exact absurd (by rw [heq]) hreply
  next => rfl

/-- A completed run has one more thing to say, which is said in the next slice. -/
theorem converse_of_completed (hsession : session.events = [] ∧ session.interrupted = false ∧
      session.pending = none ∧ session.running = false) (answers : List Value) :
    session.converse budgets answers <+: [(.stopped, session.program)] ∧
      (budgets ≠ [] → session.converse budgets answers = [(.stopped, session.program)]) := by
  cases budgets with
  | nil => exact ⟨List.nil_prefix, fun hne => absurd rfl hne⟩
  | cons cycles budgets =>
      obtain ⟨hevents, hinterrupted, hpending, hrunning⟩ := hsession
      have hexecute : session.execute cycles = (.stopped, { session with interrupted := false }) := by
        simp [execute, hevents, hinterrupted, hpending, hrunning]
      have hconverse : session.converse (cycles :: budgets) answers =
          [(.stopped, session.program)] := by simp [converse, hexecute]
      exact ⟨hconverse ▸ List.prefix_rfl, fun _ => hconverse⟩

/-- A step that is not silent ends the slice. The run goes on in the next one or is over. -/
theorem Carries.converse_loud (h : session.Carries run)
    (hreply : run.reply.1 ≠ .ok (.advanced none)) :
    (∃ next after, run.next? = some next ∧ Carries after next ∧
      session.converse ((cycles + 1) :: budgets) run.answers =
        shown run ++ after.converse budgets next.answers) ∨
    (run.next? = none ∧
      session.converse ((cycles + 1) :: budgets) run.answers <+: shown run ∧
      (budgets ≠ [] → session.converse ((cycles + 1) :: budgets) run.answers = shown run)) := by
  obtain ⟨hevents, hinterrupted, hpending, hrunning⟩ := isActive_iff.mp h.active
  have hexecute : session.execute (cycles + 1) = session.settle run.reply := h.execute_loud hreply
  unfold shown Run.next?
  cases houtcome : run.reply.1 with
  | error fault =>
      refine .inr ⟨rfl, ?_⟩
      simp [converse, hexecute, settle, houtcome, Notice.ofStep, display, halt]
  | ok outcome =>
      cases outcome with
      | completed printed =>
          refine .inr ⟨rfl, ?_⟩
          cases printed with
          | none => simp [converse, hexecute, settle, houtcome, Notice.ofStep, display]
          | some value =>
              have hrest := @converse_of_completed
                { session with program := run.reply.2, resume := false, running := false } budgets
                ⟨hevents, hinterrupted, hpending, rfl⟩ run.answers
              simpa [converse, hexecute, settle, houtcome, Notice.ofStep, display] using hrest
      | advanced printed =>
          cases printed with
          | none => exact absurd houtcome hreply
          | some value =>
              refine .inl ⟨_, { session with program := run.reply.2, resume := false }, rfl,
                ⟨isActive_iff.mpr ⟨hevents, hinterrupted, hpending, hrunning⟩, rfl, rfl⟩, ?_⟩
              simp [converse, hexecute, settle, houtcome, Notice.ofStep, display]
      | awaiting name =>
          cases hanswers : run.answers with
          | nil =>
              refine .inr ⟨rfl, ?_⟩
              simp [converse, hexecute, settle, houtcome, Notice.ofStep, display]
          | cons value answers =>
              refine .inl ⟨_, { session with
                  program := run.reply.2.store name value, pending := none, resume := true }, rfl,
                ⟨isActive_iff.mpr ⟨hevents, hinterrupted, rfl, hrunning⟩, rfl, rfl⟩, ?_⟩
              simp [converse, hexecute, settle, houtcome, Notice.ofStep, display, enter, answer,
                answerValue?_toString, hrunning]

/-! ### Whole runs -/

/-- Nothing is shown that is not seen of the run. -/
theorem Carries.converse_prefix (h : session.Carries run) (budgets : List Nat) :
    session.converse budgets run.answers <+: (run.sights (allowance budgets)).map display := by
  induction budgets generalizing session run with
  | nil => exact List.nil_prefix
  | cons cycles budgets ih =>
      induction cycles generalizing session run with
      | zero =>
          rw [h.converse_zero, allowance, Nat.zero_add]
          exact ih h
      | succ cycles ihCycles =>
          have hallowance : allowance ((cycles + 1) :: budgets) = allowance (cycles :: budgets) + 1 :=
            Nat.add_right_comm cycles 1 (allowance budgets)
          rw [hallowance, map_display_sights_succ]
          by_cases hreply : run.reply.1 = .ok (.advanced none)
          · obtain ⟨next, after, hnext, hafter, hshown, heq⟩ := h.converse_silent hreply
            rw [heq, hshown, hnext]
            exact ihCycles hafter
          · rcases h.converse_loud hreply with ⟨next, after, hnext, hafter, heq⟩ | ⟨-, hprefix, -⟩
            · have hmore : next.sights (allowance budgets) <+:
                  next.sights (allowance (cycles :: budgets)) :=
                Run.sights_prefix_of_le (Nat.le_add_left (allowance budgets) cycles) next
              rw [heq, hnext]
              exact (List.prefix_append_right_inj _).mpr ((ih hafter).trans (hmore.map display))
            · exact hprefix.trans (List.prefix_append _ _)

/-- Each budget that is not zero is good for a step, and nothing that is seen is left out. -/
theorem Carries.sights_prefix_converse (h : session.Carries run) {budgets : List Nat} {count : Nat}
    (hcount : count < budgets.countP (0 < ·)) :
    (run.sights count).map display <+: session.converse budgets run.answers := by
  induction budgets generalizing session run count with
  | nil => exact absurd hcount (Nat.not_lt_zero count)
  | cons cycles budgets ih =>
      induction cycles generalizing session run count with
      | zero =>
          rw [h.converse_zero]
          exact ih h (by simpa using hcount)
      | succ cycles ihCycles =>
          cases count with
          | zero => exact List.nil_prefix
          | succ count =>
              have hrest : count < budgets.countP (0 < ·) := by
                rw [List.countP_cons_of_pos (by simp)] at hcount
                omega
              rw [map_display_sights_succ]
              by_cases hreply : run.reply.1 = .ok (.advanced none)
              · obtain ⟨next, after, hnext, hafter, hshown, heq⟩ := h.converse_silent hreply
                rw [heq, hshown, hnext]
                apply ihCycles hafter
                rw [List.countP_cons]
                omega
              · rcases h.converse_loud hreply with
                  ⟨next, after, hnext, hafter, heq⟩ | ⟨hnext, -, heq⟩
                · rw [heq, hnext]
                  exact (List.prefix_append_right_inj _).mpr (ih hafter hrest)
                · have hne : budgets ≠ [] := by
                    rintro rfl
                    exact Nat.not_lt_zero count hrest
                  rw [heq hne, hnext]
                  simp

/-- What a session shows after `RUN` is what is seen of its program when it is stepped by itself, and
that prints and asks what the executed lines print and ask. -/
theorem converse_enter_run (hidle : session.Idle) (hpositive : ∀ cycles ∈ budgets, 0 < cycles)
    (answers : List Value) :
    let run : Run := { program := session.program, answers }
    let seen := (session.enter "RUN").converse budgets answers
    seen <+: (run.sights (allowance budgets)).map display ∧
      (∀ count < budgets.length, (run.sights count).map display <+: seen) ∧
      ∀ count, ((run.sights count).map (·.1)).filter Notice.isOutput =
        (run.stages count).filterMap Run.output? := by
  intro run seen
  have hcarries : (session.enter "RUN").Carries run := carries_enter_run hidle answers
  have hlength : budgets.countP (0 < ·) = budgets.length :=
    List.countP_eq_length.mpr (by simpa using hpositive)
  refine ⟨hcarries.converse_prefix budgets, ?_, fun count => run.outputs_sights count⟩
  intro count hcount
  exact hcarries.sights_prefix_converse (hlength ▸ hcount)

def squares : Session :=
  ["10 INPUT A", "20 PRINT A * A", "30 IF A < 3 THEN 10", "40 PRINT 0 - A"].foldl enter {}

/-- A loop that asks twice, and whose last line prints, in slices of one, two and five steps. -/
theorem converse_enter_run_squares :
    squares.Idle ∧ (∀ cycles ∈ [1, 2, 1, 5, 2, 2, 1], 0 < cycles) ∧
      ((squares.enter "RUN").converse [1, 2, 1, 5, 2, 2, 1] [2, 5]).map (·.1) =
        [.input "A", .print "4", .input "A", .print "25", .print "-5", .stopped] ∧
      ((squares.enter "RUN").converse [1, 2, 1, 5, 2, 2, 1] [2, 5] <+:
        (Run.sights 14 { program := squares.program, answers := [2, 5] }).map display) := by
  have hidle : squares.Idle :=
    ⟨by decide +kernel, by decide +kernel, by decide +kernel, by decide +kernel, by decide +kernel⟩
  have hpositive : ∀ cycles ∈ [1, 2, 1, 5, 2, 2, 1], 0 < cycles := by decide
  exact ⟨hidle, hpositive, by decide +kernel, (converse_enter_run hidle hpositive [2, 5]).1⟩

end Session

end NumberedBasic
