import NumberedBasic.Proofs.Session.Steadiness
import NumberedBasic.Shell.Script

/-!
# The session of a reading

In every run of the shell the session between two turns is steady, because a command is read only when
nothing runs and an answer only for the variable that waits. What the session is when a line is read
follows from the event that led to the reading.
-/

namespace NumberedBasic

/-! ### Files -/

theorem SourceFile.atFirst_of_loadLines {lines : List (List UInt8)} {position : Nat}
    {program loaded : Program} (hplaced : program.WellPlaced)
    (hfirst : program.pc = program.listing.first?)
    (hload : loadLines position program lines = .ok loaded) :
    loaded.WellPlaced ∧ loaded.pc = loaded.listing.first? := by
  induction lines generalizing position program with
  | nil =>
      cases hload
      exact ⟨hplaced, hfirst⟩
  | cons bytes rest ih =>
      rw [loadLines] at hload
      split at hload
      next => cases hload
      next text _ =>
        have hafter := hplaced.reply (.load text)
        change (program.load text).2.WellPlaced at hafter
        unfold Program.load at hload hafter
        cases hlisting : program.listing.load text with
        | error fault =>
            rw [hlisting] at hload
            cases hload
        | ok listing =>
            rw [hlisting] at hload hafter
            exact ih hafter rfl hload

theorem SourceFile.atFirst_of_load {content : List UInt8} {program : Program}
    (h : SourceFile.load content = .ok program) :
    program.WellPlaced ∧ program.pc = program.listing.first? :=
  atFirst_of_loadLines Program.wellPlaced_empty rfl h

namespace Shell

variable {σ : Type} {console : Console (StateM σ)} {session next : Session} {world later : σ}

theorem run_bind {α β : Type} (action : StateM σ α) (rest : α → StateM σ β) (world : σ) :
    (action >>= rest).run world = (rest (action.run world).1).run (action.run world).2 :=
  rfl

section Files

variable {file : String} {content : List UInt8} {program : Program}

theorem loadFile_of_contents (h : ((console.contents file).run world).1 = .ok content) :
    (loadFile console file).run world =
      ((SourceFile.load content).mapError (·.message file),
        ((console.contents file).run world).2) := by
  have hload : ((Except.ok content).mapError SourceFile.Failure.unavailable).bind SourceFile.load =
      SourceFile.load content := rfl
  rw [loadFile, run_bind, h, hload]
  cases SourceFile.load content with
  | ok _ | error _ => rfl

theorem loadFile_eq_ok_iff (h : ((console.contents file).run world).1 = .ok content) :
    ((loadFile console file).run world).1 = .ok program ↔
      SourceFile.load content = .ok program := by
  rw [loadFile_of_contents h]
  cases SourceFile.load content with
  | ok loaded =>
      constructor
      all_goals
        intro hok
        cases hok
        rfl
  | error failure => exact ⟨nofun, nofun⟩

theorem exists_load_of_loadFile (h : ((loadFile console file).run world).1 = .ok program) :
    ∃ content, SourceFile.load content = .ok program := by
  cases hcontent : ((console.contents file).run world).1 with
  | ok content => exact ⟨content, (loadFile_eq_ok_iff hcontent).mp h⟩
  | error failure =>
      rw [loadFile, run_bind, hcontent] at h
      cases h

end Files

/-! ### One turn -/

/-- What the answer to an event can make of the session. -/
inductive Responds (session : Session) (event : Event) : Session → Prop where
  | goesOn : event.prompt? = none → Responds session event session
  | enters (text : String) : event.prompt?.isSome → Responds session event (session.enter text)
  | interrupts : Responds session event session.interrupt
  | installs {content : List UInt8} {program : Program} : SourceFile.load content = .ok program →
      Responds session event (session.install program)

theorem responds_respond {event : Event}
    (h : ((respond console session event).run world).1 = some next) :
    Responds session event next := by
  cases event with
  | stopped =>
      rw [respond, run_bind] at h
      split at h
      next text _ =>
        split at h
        all_goals
          cases h
          exact .enters text rfl
      all_goals cases h
  | input name =>
      rw [respond, run_bind] at h
      split at h
      next text _ =>
        cases h
        exact .enters text rfl
      next =>
        cases h
        exact .interrupts
      all_goals cases h
  | load file =>
      rw [respond, run_bind] at h
      split at h
      next program hfile =>
        obtain ⟨content, hload⟩ := exists_load_of_loadFile hfile
        cases h
        exact .installs hload
      next =>
        cases h
        exact .goesOn rfl
  | quit => cases h
  | running | print _ | list _ | fault _ =>
      cases h
      exact .goesOn rfl

/-- The answer to an event is the same with notes. A line is read just if the event wants one. -/
theorem respond_noting (console : Console (StateM σ)) (session : Session) (event : Event)
    (world : σ) (noted : List Prompt) :
    (respond console.noting session event).run (world, noted) =
      (((respond console session event).run world).1, ((respond console session event).run world).2,
        noted ++ event.prompt?.toList) := by
  cases event with
  | stopped =>
      have hread : (console.noting.read .command).run (world, noted) =
          (((console.read .command).run world).1, ((console.read .command).run world).2,
            noted ++ [.command]) := rfl
      rw [respond, run_bind, hread, respond, run_bind]
      cases ((console.read .command).run world).1 with
      | line text =>
          by_cases hblank : isBlankLine text = true
          · simp only [hblank]
            rfl
          · simp only [hblank]
            rfl
      | interrupt | otherSignal | endOfInput | failure _ => rfl
  | input name =>
      have hread : (console.noting.read (.answer name)).run (world, noted) =
          (((console.read (.answer name)).run world).1,
            ((console.read (.answer name)).run world).2, noted ++ [.answer name]) := rfl
      rw [respond, run_bind, hread, respond, run_bind]
      cases ((console.read (.answer name)).run world).1 with
      | line _ | interrupt | otherSignal | endOfInput | failure _ => rfl
  | load file =>
      have hfile : (loadFile console.noting file).run (world, noted) =
          (((loadFile console file).run world).1, ((loadFile console file).run world).2, noted) := rfl
      rw [respond, run_bind, hfile, respond, run_bind, Event.prompt?, Option.toList_none,
        List.append_nil]
      cases ((loadFile console file).run world).1 with
      | ok _ | error _ => rfl
  | running | quit | print _ | list _ | fault _ =>
      rw [Event.prompt?, Option.toList_none, List.append_nil]
      rfl

theorem readings_eq (console : Console (StateM σ)) (session : Session) (world : σ) :
    readings console session world = (produced console session world).1.prompt?.toList := by
  have hnoting := respond_noting console (produced console session world).2
    (produced console session world).1 (console.takeBreak.run world).2 []
  exact congrArg (fun result => result.2.2) hnoting

/-! ### Steady turns -/

theorem ready_settle (hactive : session.isActive = true) {program : Program}
    {skip : Bool} {prompt : Prompt} (hplaced : program.WellPlaced)
    (hprompt : (session.settle (program.step skip)).1.prompt? = some prompt) :
    Ready (session.settle (program.step skip)).2 prompt := by
  obtain ⟨hevents, hcalm, hpending, -⟩ := Session.isActive_iff.mp hactive
  have hafter := hplaced.step skip
  have hcompleted := @Program.WellPlaced.step_completed program hplaced skip
  have hawaiting := @Program.step_awaiting program skip
  generalize program.step skip = reply at hprompt hafter hcompleted hawaiting ⊢
  obtain ⟨fault | (_ | value) | (_ | value) | name, after⟩ := reply
  · cases hprompt
  · cases hprompt
    have hfirst := hcompleted rfl
    exact ⟨⟨hevents, hpending, rfl, rfl, hcalm⟩, Program.atTop_of_first? hafter.numbered hfirst⟩
  · cases hprompt
  · cases hprompt
  · cases hprompt
  · cases hprompt
    obtain ⟨line, hpc, hstored, rfl⟩ := hawaiting rfl
    exact ⟨hevents, hcalm, rfl, rfl, fun _ => ⟨line, hpc, hstored⟩⟩

theorem ready_execute (h : session.Steady) {cycles : Nat} {prompt : Prompt}
    (hprompt : (session.execute cycles).1.prompt? = some prompt) :
    Ready (session.execute cycles).2 prompt := by
  have hexecutes := Session.executes_execute session cycles
  generalize session.execute cycles = result at hprompt hexecutes ⊢
  cases hexecutes with
  | pops hevents =>
      -- What is queued never wants a line.
      have hquiet := h.quiet _ (hevents ▸ List.mem_cons_self)
      rw [hquiet] at hprompt
      cases hprompt
  | breaks _ _ => cases hprompt
  | waits hevents hpending =>
      cases hprompt
      exact ⟨hevents, rfl, h.resume_eq_false hpending, hpending, fun hrunning =>
        h.asked hrunning _ hpending⟩
  | rests hevents hpending hidle =>
      cases hprompt
      obtain ⟨hresume, hfirst⟩ := h.idle hidle
      exact ⟨⟨hevents, hpending, hidle, hresume, rfl⟩,
        Program.atTop_of_first? h.placed.numbered hfirst⟩
  | pauses _ => cases hprompt
  | settles hactive hlast =>
      exact ready_settle hactive (Session.wellPlaced_of_mem_steps h.toRested hlast) hprompt

theorem Ready.waits {prompt : Prompt} (h : Ready session prompt) (hrunning : session.running = true) :
    session.pending ≠ none := by
  cases prompt with
  | command => exact absurd (h.1.running.symm.trans hrunning) Bool.noConfusion
  | answer name =>
      obtain ⟨-, -, -, hpending, -⟩ := h
      rw [hpending]
      exact Option.some_ne_none name

theorem Responds.steady {event : Event} (hresponds : Responds session event next)
    (h : session.Steady)
    (hready : ∀ prompt, event.prompt? = some prompt → Ready session prompt) : next.Steady := by
  cases hresponds with
  | goesOn _ => exact h
  | enters text hreads =>
      obtain ⟨prompt, hprompt⟩ := Option.isSome_iff_exists.mp hreads
      exact h.enter (hready prompt hprompt).waits text
  | interrupts => exact h.interrupt
  | installs hload =>
      obtain ⟨hplaced, hfirst⟩ := SourceFile.atFirst_of_load hload
      exact h.install hplaced hfirst

section Produced

variable (console : Console (StateM σ)) (world : σ)

theorem exists_produced_eq_execute (h : session.Steady) : ∃ before : Session, before.Steady ∧
    produced console session world = before.execute slice := by
  by_cases hbreak : (console.takeBreak.run world).1 = true
  · exact ⟨session.interrupt, h.interrupt, by rw [produced, if_pos hbreak]⟩
  · exact ⟨session, h, by rw [produced, if_neg hbreak]⟩

theorem steady_produced (h : session.Steady) : (produced console session world).2.Steady := by
  obtain ⟨before, hbefore, heq⟩ := exists_produced_eq_execute console world h
  rw [heq]
  exact hbefore.execute slice

theorem ready_produced (h : session.Steady) {prompt : Prompt}
    (hprompt : (produced console session world).1.prompt? = some prompt) :
    Ready (produced console session world).2 prompt := by
  obtain ⟨before, hbefore, heq⟩ := exists_produced_eq_execute console world h
  rw [heq] at hprompt ⊢
  exact ready_execute hbefore hprompt

end Produced

theorem steady_turn (h : session.Steady)
    (hturn : ((turn console session).run world).1 = some next) : next.Steady := by
  have hresponds : Responds (produced console session world).2 (produced console session world).1
      next := responds_respond hturn
  exact hresponds.steady (steady_produced console world h)
    (fun _ hprompt => ready_produced console world h hprompt)

/-! ### Runs of the shell -/

theorem steady_turns {count : Nat} (h : session.Steady)
    (hturns : ((turns console count session).run world).1 = some next) : next.Steady := by
  induction count generalizing session world with
  | zero =>
      cases hturns
      exact h
  | succ count ih =>
      rw [turns, run_bind] at hturns
      split at hturns
      next middle hturn => exact ih (steady_turn h hturn) hturns
      next => cases hturns

theorem steady_start (console : Console (StateM σ)) (file : Option String) (run : Bool) (world : σ) :
    ((start console file run).run world).1.Steady := by
  cases file with
  | none => exact Session.steady_initial
  | some file =>
      rw [start, run_bind]
      split
      next program hfile =>
        obtain ⟨content, hload⟩ := exists_load_of_loadFile hfile
        obtain ⟨hplaced, hfirst⟩ := SourceFile.atFirst_of_load hload
        have hsteady := Session.steady_initial.install hplaced hfirst
        cases run with
        | true => exact hsteady.enter nofun "RUN"
        | false => exact hsteady
      next => exact Session.steady_initial

/-- However a run of the shell has gone, the next line is read only when the session is ready for it,
and only an `INPUT` is ever resumed from. -/
theorem ready_of_turns {file : Option String} {run : Bool} {count : Nat} {session : Session}
    (h : (do turns console count (← start console file run)).run world = (some session, later)) :
    (∀ prompt ∈ readings console session later, Ready (produced console session later).2 prompt) ∧
      (session.resume = true → ∃ name, session.program.Asks name) ∧
      ((produced console session later).2.resume = true →
        ∃ name, (produced console session later).2.program.Asks name) := by
  have hsteady : session.Steady := steady_turns (steady_start console file run world)
    (congrArg Prod.fst h)
  refine ⟨?_, ?_, ?_⟩
  · intro prompt hprompt
    rw [readings_eq, Option.mem_toList] at hprompt
    exact ready_produced console later hsteady hprompt
  · intro hresume
    exact (hsteady.answered hresume).2
  · intro hresume
    exact ((steady_produced console later hsteady).answered hresume).2

/-- A file that asks for one value after another, and a first answer. -/
def asking : Script where
  cues := [{ reading := .line "5" }]
  files := Directory.ofFiles [("ask.bas", "10 INPUT A\n20 GOTO 10".toUTF8.data.toList)]

/-- The run that the first answer goes on with. -/
def answered : Session where
  program :=
    { listing := { lines := [(10, .input "A"), (20, .goto 10)] }
      pc := some 10
      bindings := { entries := [("A", 5)] } }
  running := true
  resume := true

theorem ready_of_turns_asking :
    ∃ later,
      (do turns Script.console 1 (← start Script.console "ask.bas" true)).run asking =
        (some answered, later) ∧
      readings Script.console answered later = [.answer "A"] ∧
      Ready (produced Script.console answered later).2 (.answer "A") ∧
      answered.resume = true ∧ ∃ name, answered.program.Asks name := by
  have hrun : (do turns Script.console 1 (← start Script.console "ask.bas" true)).run asking =
      (some answered,
        { asking with cues := [], record := [.read (.answer "A")] }) := by decide +kernel
  have hready := ready_of_turns hrun
  have hread : readings Script.console answered
      { asking with cues := [], record := [.read (.answer "A")] } = [.answer "A"] := by
    decide +kernel
  exact ⟨_, hrun, hread, hready.1 (.answer "A") (by simp [hread]), rfl, hready.2.1 rfl⟩

end Shell

end NumberedBasic
