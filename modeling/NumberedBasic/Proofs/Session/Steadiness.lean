import NumberedBasic.Proofs.Program.Counter
import NumberedBasic.Proofs.Session.Events
import NumberedBasic.Shell.Readings

/-!
# Sessions that are asked one thing at a time

Without a run there is nothing to resume, and the program is at its first line, whatever calls are made.
If a line is entered in the middle of a run only as the answer to a question, then also whatever waits
for an answer or is to be resumed from is an `INPUT` at the program counter.
-/

namespace NumberedBasic

namespace Session

variable {session : Session}

/-! ### Without a run -/

structure Rested (session : Session) : Prop where
  placed : session.program.WellPlaced
  idle : session.running = false →
    session.resume = false ∧ session.program.pc = session.program.listing.first?

theorem rested_initial : Rested {} := ⟨Program.wellPlaced_empty, fun _ => ⟨rfl, rfl⟩⟩

theorem Rested.halt (h : session.Rested) : session.halt.Rested :=
  ⟨Program.wellPlaced_rewind h.placed.numbered, fun _ => ⟨rfl, rfl⟩⟩

theorem rested_install {program : Program} (hplaced : program.WellPlaced)
    (hfirst : program.pc = program.listing.first?) : (session.install program).Rested :=
  ⟨hplaced, fun _ => ⟨rfl, hfirst⟩⟩

/-- Variables and events do not matter. -/
theorem Rested.congr {other : Session} (h : session.Rested)
    (hlisting : other.program.listing = session.program.listing)
    (hpc : other.program.pc = session.program.pc) (hrunning : other.running = session.running)
    (hresume : other.resume = session.resume) : other.Rested := by
  obtain ⟨⟨hnumbered, hcounter⟩, hidle⟩ := h
  refine ⟨⟨?_, ?_⟩, ?_⟩
  · rwa [hlisting]
  · rwa [hlisting, hpc]
  · rwa [hlisting, hpc, hrunning, hresume]

theorem wellNumbered_of_insert {program : Program} {line : LineNumber}
    {statement : Option Statement} {listing : Listing} (h : program.listing.WellNumbered)
    (hinsert : program.insert line statement =
      (.ok (), Program.rewind { program with listing })) : listing.WellNumbered := by
  cases hput : program.listing.put line statement with
  | error fault => simp [Program.insert, hput, Program.edit] at hinsert
  | ok after =>
      have hafter := h.put hput
      simp only [Program.insert, hput, Program.edit, Prod.mk.injEq, true_and] at hinsert
      have hlisting : after = listing := congrArg Program.listing hinsert
      exact hlisting ▸ hafter

theorem Rested.enter (h : session.Rested) (text : String) : (session.enter text).Rested := by
  have henters := enters_enter session text
  generalize session.enter text = after at henters
  cases henters with
  | accepts hpending hvalue =>
      refine ⟨⟨h.placed.numbered, h.placed.counter⟩, fun hrunning => ?_⟩
      have hrunning : session.running = false := hrunning
      obtain ⟨hresume, hpc⟩ := h.idle hrunning
      exact ⟨by simp [hresume, hrunning], hpc⟩
  | rejects _ _ | refuses _ _ | ignores _ _ => exact h.congr rfl rfl rfl rfl
  | performs hpending hparse hperforms =>
      cases hperforms with
      | runs => exact ⟨h.placed, nofun⟩
      | clears => exact rested_install Program.wellPlaced_empty rfl
      | announces _ _ _ | asks _ | carriesOut _ _ _ | refuses _ => exact h.congr rfl rfl rfl rfl
      | edits hinsert =>
          have hnumbered := wellNumbered_of_insert h.placed.numbered hinsert
          exact ⟨Program.wellPlaced_rewind hnumbered, fun hrunning => ⟨(h.idle hrunning).1, rfl⟩⟩

theorem wellPlaced_of_mem_steps {cycles : Nat} {step : Program × Bool} (h : session.Rested)
    (hmem : step ∈ session.steps cycles) : step.1.WellPlaced := by
  unfold steps at hmem
  split at hmem
  · exact forall_mem_sliceSteps (fun _ skip hplaced => hplaced.step skip) h.placed step hmem
  · cases hmem

theorem rested_settle {program : Program} {skip : Bool} (h : program.WellPlaced)
    (hrunning : session.running = true) : (session.settle (program.step skip)).2.Rested := by
  have hplaced := h.step skip
  have hcompleted := @Program.WellPlaced.step_completed program h skip
  generalize program.step skip = reply at hplaced hcompleted
  obtain ⟨fault | printed | _ | name, after⟩ := reply
  · exact ⟨Program.wellPlaced_rewind hplaced.numbered, fun _ => ⟨rfl, rfl⟩⟩
  · exact ⟨hplaced, fun _ => ⟨rfl, hcompleted rfl⟩⟩
  · exact ⟨hplaced, fun hidle => absurd (hrunning.symm.trans hidle) Bool.noConfusion⟩
  · exact ⟨hplaced, fun hidle => absurd (hrunning.symm.trans hidle) Bool.noConfusion⟩

theorem Rested.execute (h : session.Rested) (cycles : Nat) : (session.execute cycles).2.Rested := by
  have hexecutes := executes_execute session cycles
  generalize session.execute cycles = result at hexecutes
  cases hexecutes with
  | pops _ | waits _ _ | rests _ _ _ => exact h.congr rfl rfl rfl rfl
  | breaks _ _ =>
      have hcalm : Rested { session with interrupted := false } := h.congr rfl rfl rfl rfl
      exact hcalm.halt
  | pauses _ => exact h
  | settles hactive hlast =>
      exact rested_settle (wellPlaced_of_mem_steps h hlast) (isActive_iff.mp hactive).2.2.2

theorem Rested.reply (h : session.Rested) {call : Call}
    (hinstalls : call.Installs fun program => program.Reachable ∧ program.AtTop) :
    (session.reply call).2.Rested := by
  cases call with
  | enter text => exact h.enter text
  | execute cycles => exact h.execute cycles
  | interrupt => exact h.congr rfl rfl rfl rfl
  | install program =>
      obtain ⟨hreachable, htop⟩ := hinstalls
      have hplaced := hreachable.wellPlaced
      exact rested_install hplaced (htop.pc_eq hplaced.numbered)

theorem Reachable.rested
    (h : session.Reachable fun program => program.Reachable ∧ program.AtTop) : session.Rested := by
  induction h with
  | initial => exact rested_initial
  | call call hinstalls _ ih => exact ih.reply hinstalls

theorem running_enter_of_pending {text name : String} (hpending : session.pending = some name) :
    (session.enter text).running = session.running := by
  rw [Session.enter, hpending]
  dsimp only
  unfold answer
  split <;> rfl

/-- Without a run nothing is to be resumed and the program is at its first line, whatever was called.
The line that `RUN` steps first is then the first one, and it is not passed over. -/
theorem atTop_of_not_running
    (h : session.Reachable fun program => program.Reachable ∧ program.AtTop)
    (hidle : session.running = false) :
    session.resume = false ∧ session.program.AtTop ∧
      ∀ cycles program skip, ((session.enter "RUN").steps cycles).head? = some (program, skip) →
        program.AtTop ∧ skip = false := by
  obtain ⟨hresume, hpc⟩ := h.rested.idle hidle
  have htop : session.program.AtTop := Program.atTop_of_first? h.rested.placed.numbered hpc
  refine ⟨hresume, htop, ?_⟩
  intro cycles program skip hfirst
  unfold steps at hfirst
  split at hfirst
  next hactive =>
    cases hpending : session.pending with
    | some name =>
        have hrunning := (isActive_iff.mp hactive).2.2.2
        rw [running_enter_of_pending hpending, hidle] at hrunning
        cases hrunning
    | none =>
        rw [enter_run hpending] at hfirst
        cases cycles with
        | zero => cases hfirst
        | succ cycles =>
            cases hfirst
            exact ⟨htop, hresume⟩
  next => cases hfirst

/-- A program that fails in its second line, as it is loaded. -/
def dividing : Program :=
  (Program.replies {} [.load "20 PRINT 1 / A", .load "10 LET A = 0"]).2

def divided : Session := (Session.replies {} [.install dividing, .enter "RUN", .execute 5]).2

theorem atTop_of_not_running_fault :
    divided.running = false ∧ divided.program.bindings.fetch? "A" = some 0 ∧
      divided.resume = false ∧ divided.program.AtTop ∧
      ∃ program, ((divided.enter "RUN").steps 1).head? = some (program, false) ∧ program.AtTop := by
  have hprogram : dividing.Reachable := Program.Reachable.initial.replies _
  have htop : dividing.AtTop :=
    Program.atTop_of_first? hprogram.wellPlaced.numbered (by decide +kernel)
  have hreachable : divided.Reachable fun program => program.Reachable ∧ program.AtTop := by
    apply Session.Reachable.initial.replies
    simpa [Call.Installs] using And.intro hprogram htop
  have hidle : divided.running = false := by decide +kernel
  have hstep : ((divided.enter "RUN").steps 1).head? = some (divided.program, false) := by
    decide +kernel
  obtain ⟨hresume, hfirst, hsteps⟩ := atTop_of_not_running hreachable hidle
  exact ⟨hidle, by decide +kernel, hresume, hfirst, _, hstep, (hsteps 1 _ _ hstep).1⟩

/-! ### Questions -/

/-- Nothing in the queue wants a line to be read. -/
def Quiet (session : Session) : Prop := ∀ event ∈ session.events, event.prompt? = none

/-- What waits for an answer or is to be resumed from is the line at the program counter, and the queue
asks for nothing. -/
structure Steady (session : Session) : Prop extends Rested session where
  asked : session.running = true → ∀ name, session.pending = some name → session.program.Asks name
  answered : session.resume = true → session.pending = none ∧ ∃ name, session.program.Asks name
  quiet : session.Quiet

theorem steady_initial : Steady {} := ⟨rested_initial, nofun, nofun, by simp [Quiet]⟩

/-- A session that neither waits nor resumes is steady if it is rested and quiet. -/
theorem Rested.steady (h : session.Rested) (hpending : session.pending = none)
    (hresume : session.resume = false) (hquiet : session.Quiet) : session.Steady := by
  refine ⟨h, fun _ name hname => ?_, fun hactive => ?_, hquiet⟩
  · rw [hpending] at hname
    cases hname
  · rw [hresume] at hactive
    cases hactive

theorem Steady.interrupt (h : session.Steady) : session.interrupt.Steady :=
  ⟨h.toRested.congr rfl rfl rfl rfl, h.asked, h.answered, h.quiet⟩

theorem Steady.install (h : session.Steady) {program : Program} (hplaced : program.WellPlaced)
    (hfirst : program.pc = program.listing.first?) : (session.install program).Steady :=
  (rested_install hplaced hfirst).steady rfl rfl h.quiet

theorem Steady.resume_eq_false (h : session.Steady) {name : String}
    (hpending : session.pending = some name) : session.resume = false := by
  cases hresume : session.resume with
  | false => rfl
  | true =>
      have hnone := (h.answered hresume).1
      rw [hpending] at hnone
      cases hnone

/-! ### Lines that are entered -/

theorem Quiet.emit (h : session.Quiet) (event : Event) (hevent : event.prompt? = none) :
    (session.emit event).Quiet := by
  intro other hmem
  rcases List.mem_append.mp hmem with hold | hnew
  · exact h other hold
  · rw [List.mem_singleton.mp hnew]
    exact hevent

theorem IsAnnouncement.prompt?_eq_none {event : Event} (h : IsAnnouncement event) :
    event.prompt? = none := by
  cases h <;> rfl

theorem Quiet.enter (h : session.Quiet) (text : String) : (session.enter text).Quiet := by
  rcases announces_enter session text with hevents | ⟨event, hevent, heq⟩
  · rwa [Quiet, hevents]
  · rw [heq]
    exact h.emit event hevent.prompt?_eq_none

/-- In the middle of a run a line is entered only as an answer. -/
theorem Steady.enter (h : session.Steady) (hwaits : session.running = true → session.pending ≠ none)
    (text : String) : (session.enter text).Steady := by
  have hrested := h.toRested.enter text
  have hquiet := h.quiet.enter text
  have henters := enters_enter session text
  generalize session.enter text = after at hrested hquiet henters
  cases henters with
  | accepts hpending hvalue =>
      refine ⟨hrested, fun _ name hname => ?_, fun hresume => ⟨rfl, ?_⟩, hquiet⟩
      · cases hname
      · have hrunning : session.running = true := by
          simpa [h.resume_eq_false hpending] using hresume
        exact ⟨_, h.asked hrunning _ hpending⟩
  | rejects _ _ | refuses _ _ | ignores _ _ => exact ⟨hrested, h.asked, h.answered, hquiet⟩
  | performs hpending hparse hperforms =>
      -- Nothing runs here, so that nothing is to be resumed either.
      have hidle : session.running = false := by
        cases hrunning : session.running with
        | false => rfl
        | true => exact absurd hpending (hwaits hrunning)
      have hresume : session.resume = false := (h.idle hidle).1
      cases hperforms with
      | asks name =>
          refine ⟨hrested, fun hrunning => ?_, fun hactive => ?_, hquiet⟩
          · exact absurd (hidle.symm.trans hrunning) Bool.noConfusion
          · exact absurd (hresume.symm.trans hactive) Bool.noConfusion
      | clears => exact hrested.steady rfl rfl hquiet
      | runs | announces _ _ _ | carriesOut _ _ _ | edits _ | refuses _ =>
          exact hrested.steady hpending hresume hquiet

/-! ### Executions -/

theorem Steady.settle (h : session.Steady) (hactive : session.isActive = true) {program : Program}
    {skip : Bool} (hplaced : program.WellPlaced) :
    (session.settle (program.step skip)).2.Steady := by
  obtain ⟨-, -, hpending, hrunning⟩ := isActive_iff.mp hactive
  have hrested : (session.settle (program.step skip)).2.Rested := rested_settle hplaced hrunning
  have hawaiting := @Program.step_awaiting program skip
  generalize program.step skip = reply at hrested hawaiting
  obtain ⟨fault | printed | _ | name, after⟩ := reply
  · exact hrested.steady rfl rfl h.quiet
  · exact hrested.steady hpending rfl h.quiet
  · exact hrested.steady hpending rfl h.quiet
  · obtain ⟨line, hpc, hstored, rfl⟩ := hawaiting rfl
    refine ⟨hrested, fun _ other hother => ?_, nofun, h.quiet⟩
    cases hother
    exact ⟨line, hpc, hstored⟩

theorem Steady.execute (h : session.Steady) (cycles : Nat) : (session.execute cycles).2.Steady := by
  have hrested := h.toRested.execute cycles
  have hexecutes := executes_execute session cycles
  generalize session.execute cycles = result at hrested hexecutes
  cases hexecutes with
  | pops hevents =>
      refine ⟨hrested, h.asked, h.answered, fun event hmem => h.quiet event ?_⟩
      rw [hevents]
      exact List.mem_cons_of_mem _ hmem
  | breaks _ _ => exact hrested.steady rfl rfl h.quiet
  | waits _ _ | rests _ _ _ | pauses _ => exact ⟨hrested, h.asked, h.answered, h.quiet⟩
  | settles hactive hlast => exact h.settle hactive (wellPlaced_of_mem_steps h.toRested hlast)

end Session

end NumberedBasic
