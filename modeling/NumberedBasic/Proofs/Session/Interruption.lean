import NumberedBasic.Proofs.Session.Events

/-!
# Interruptions

An interruption waits until the queue is empty. Up to then nothing is executed, whatever is called, and
the execution that finds the queue empty takes the interruption instead of a line. It ends a run or a
question with one fault, however often the session was interrupted, and is forgotten if there is nothing
to end.
-/

namespace NumberedBasic

/-- The report of an interruption. -/
def Event.isBreak : Event → Bool
  | .fault cause => cause.code = .interrupted
  | _ => false

namespace Session

/-- Every execution among the calls finds an event in the queue. -/
def Busy : Session → List Call → Prop
  | _, [] => True
  | session, call :: rest =>
      (∀ cycles, call = .execute cycles → session.events ≠ []) ∧ Busy (session.reply call).2 rest

/-- The steps of the program that are taken in a call. -/
def stepsOf (session : Session) : Call → List (Program × Bool)
  | .execute cycles => session.steps cycles
  | .enter _ | .interrupt | .install _ => []

/-- The steps of the program that are taken in calls one after another. -/
def allSteps : Session → List Call → List (Program × Bool)
  | _, [] => []
  | session, call :: rest => session.stepsOf call ++ allSteps (session.reply call).2 rest

variable {session : Session} {calls : List Call} {cycles : Nat}

/-! ### One call -/

theorem interrupted_enter (session : Session) (text : String) :
    (session.enter text).interrupted = session.interrupted := by
  have henters := enters_enter session text
  generalize session.enter text = after at henters
  cases henters with
  | accepts _ _ | rejects _ _ | refuses _ _ | ignores _ _ => rfl
  | performs _ _ hperforms => cases hperforms <;> rfl

theorem steps_eq_nil_of_interrupted (h : session.interrupted = true) : session.steps cycles = [] := by
  rw [steps, if_neg]
  intro hactive
  rw [(isActive_iff.mp hactive).2.1] at h
  cases h

/-- Only an execution on an empty queue takes an interruption. -/
theorem interrupted_reply (h : session.interrupted = true) {call : Call}
    (hbusy : ∀ cycles, call = .execute cycles → session.events ≠ []) :
    (session.reply call).2.interrupted = true := by
  cases call with
  | enter text => exact (interrupted_enter session text).trans h
  | interrupt => rfl
  | install program => exact h
  | execute cycles =>
      cases hevents : session.events with
      | nil => exact absurd hevents (hbusy cycles rfl)
      | cons event rest =>
          simp only [reply, execute, hevents]
          exact h

@[simp] theorem settle_interrupted (reply : Program.Reply Outcome) :
    (session.settle reply).2.interrupted = session.interrupted := by
  unfold settle
  split <;> rfl

/-- Without an interruption there is none after a call either, unless that is one. -/
theorem calm_reply (h : session.interrupted = false) {call : Call} (hcall : call ≠ .interrupt) :
    (session.reply call).2.interrupted = false := by
  cases call with
  | enter text => exact (interrupted_enter session text).trans h
  | interrupt => exact absurd rfl hcall
  | install program => exact h
  | execute cycles =>
      change (session.execute cycles).2.interrupted = false
      have hexecutes := executes_execute session cycles
      generalize session.execute cycles = result at hexecutes
      cases hexecutes with
      | breaks _ _ | waits _ _ | rests _ _ _ => rfl
      | pops _ | pauses _ => exact h
      | settles _ _ => rw [settle_interrupted, h]

/-- The report of an interruption comes out of an execution on an empty queue. -/
theorem isBreak_reply (h : session.Reachable Program.Reachable) {call : Call} {event : Event}
    (hevent : (session.reply call).1 = some event) (hbreak : event.isBreak = true) :
    (∃ cycles, call = .execute cycles) ∧ session.events = [] ∧ session.interrupted = true := by
  cases call with
  | enter _ | interrupt | install _ => cases hevent
  | execute cycles =>
      refine ⟨⟨cycles, rfl⟩, ?_⟩
      cases event with
      | fault fault =>
          have hcode : fault.code = .interrupted := of_decide_eq_true hbreak
          have hexecute : session.execute cycles = (.fault fault, (session.execute cycles).2) :=
            Prod.ext (Option.some.inj hevent) rfl
          rcases fault_cases_of_execute h hexecute with hkind | hline | ⟨-, hsession⟩
          · rw [Fault.kind, hcode] at hkind
            cases hkind
          · rw [hcode] at hline
            exact absurd hline (by decide)
          · exact hsession
      | stopped | running | print _ | input _ | list _ | load _ | quit => cases hbreak

/-- The execution that finds the queue empty takes the interruption. -/
theorem execute_of_interrupted (hevents : session.events = []) (h : session.interrupted = true)
    (cycles : Nat) :
    session.execute cycles =
      if session.running || session.pending.isSome then
        (.fault (.interruption (if session.running then session.program.pc else none)),
          { session with interrupted := false }.halt)
      else
        (.stopped, { session with interrupted := false }) := by
  obtain ⟨program, events, pending, running, resume, interrupted⟩ := session
  obtain rfl : events = [] := hevents
  obtain rfl : interrupted = true := h
  cases running with
  | true => rfl
  | false => cases pending <;> rfl

/-! ### Calls one after another -/

/-- An execution among such calls takes the first event off the queue and does nothing else. -/
theorem Busy.execute_eq {earlier later : List Call}
    (hbusy : session.Busy (earlier ++ .execute cycles :: later)) :
    ∃ event rest, (session.replies earlier).2.events = event :: rest ∧
      (session.replies earlier).2.execute cycles =
        (event, { (session.replies earlier).2 with events := rest }) := by
  induction earlier generalizing session with
  | nil =>
      obtain ⟨event, rest, hevents⟩ := List.exists_cons_of_ne_nil (hbusy.1 cycles rfl)
      refine ⟨event, rest, hevents, ?_⟩
      simp only [replies, execute, hevents]
  | cons call earlier ih => exact ih hbusy.2

theorem Busy.interrupted (h : session.interrupted = true) (hbusy : session.Busy calls) :
    (session.replies calls).2.interrupted = true := by
  induction calls generalizing session with
  | nil => exact h
  | cons call rest ih => exact ih (interrupted_reply h hbusy.1) hbusy.2

theorem Busy.allSteps_eq_nil (h : session.interrupted = true) (hbusy : session.Busy calls) :
    session.allSteps calls = [] := by
  induction calls generalizing session with
  | nil => rfl
  | cons call rest ih =>
      have hcall : session.stepsOf call = [] := by
        cases call with
        | execute cycles => exact steps_eq_nil_of_interrupted h
        | enter _ | interrupt | install _ => rfl
      rw [allSteps, hcall, List.nil_append]
      exact ih (interrupted_reply h hbusy.1) hbusy.2

theorem breaks_replies_cons {call : Call} (hcall : ∀ event, (session.reply call).1 = some event →
      event.isBreak = false) :
    (session.replies (call :: calls)).1.filter Event.isBreak =
      ((session.reply call).2.replies calls).1.filter Event.isBreak := by
  rw [replies]
  dsimp only
  rw [List.filter_append]
  cases hevent : (session.reply call).1 with
  | none => rfl
  | some event => simp [hcall event hevent]

theorem Busy.breaks_eq_nil (h : session.Reachable Program.Reachable)
    (hcalls : ∀ call ∈ calls, call.Installs Program.Reachable) (hbusy : session.Busy calls) :
    (session.replies calls).1.filter Event.isBreak = [] := by
  induction calls generalizing session with
  | nil => rfl
  | cons call rest ih =>
      obtain ⟨hcall, hrest⟩ := List.forall_mem_cons.mp hcalls
      rw [breaks_replies_cons]
      · exact ih (h.call call hcall) hrest hbusy.2
      · intro event hevent
        cases hbreak : event.isBreak with
        | false => rfl
        | true =>
            obtain ⟨⟨cycles, rfl⟩, hevents, -⟩ := isBreak_reply h hevent hbreak
            exact absurd hevents (hbusy.1 cycles rfl)

theorem breaks_eq_nil_of_calm (h : session.Reachable Program.Reachable)
    (hcalm : session.interrupted = false)
    (hcalls : ∀ call ∈ calls, call.Installs Program.Reachable ∧ call ≠ .interrupt) :
    (session.replies calls).1.filter Event.isBreak = [] := by
  induction calls generalizing session with
  | nil => rfl
  | cons call rest ih =>
      obtain ⟨⟨hinstalls, hcall⟩, hrest⟩ := List.forall_mem_cons.mp hcalls
      rw [breaks_replies_cons]
      · exact ih (h.call call hinstalls) (calm_reply hcalm hcall) hrest
      · intro event hevent
        cases hbreak : event.isBreak with
        | false => rfl
        | true =>
            have hflag := (isBreak_reply h hevent hbreak).2.2
            exact absurd (hcalm.symm.trans hflag) Bool.false_ne_true

/-- Until an execution finds the queue empty an interruption lets no line be executed. That execution
ends what runs or waits, with the only report of the interruptions, or forgets them. -/
theorem interruption_of_busy (h : session.Reachable Program.Reachable)
    (hcalls : ∀ call ∈ calls, call.Installs Program.Reachable)
    (hbusy : session.interrupt.Busy calls) :
    session.interrupt.allSteps calls = [] ∧
      (∀ earlier cycles later, calls = earlier ++ .execute cycles :: later →
        ∀ before, (session.interrupt.replies earlier).2 = before →
          ∃ event rest, before.events = event :: rest ∧
            before.execute cycles = (event, { before with events := rest })) ∧
      ∀ waiting, (session.interrupt.replies calls).2 = waiting → waiting.events = [] → ∀ cycles,
        waiting.steps cycles = [] ∧
        (waiting.execute cycles).2.interrupted = false ∧
        (waiting.running = true ∨ waiting.pending ≠ none →
          (waiting.execute cycles).1 =
              .fault (.interruption (if waiting.running then waiting.program.pc else none)) ∧
            (waiting.execute cycles).2.Ended waiting.program) ∧
        (waiting.running = false ∧ waiting.pending = none →
          waiting.execute cycles = (.stopped, { waiting with interrupted := false })) ∧
        ∀ later, (∀ call ∈ later, call.Installs Program.Reachable ∧ call ≠ .interrupt) →
          (session.interrupt.replies (calls ++ .execute cycles :: later)).1.filter Event.isBreak =
            if waiting.running || waiting.pending.isSome then [(waiting.execute cycles).1] else [] := by
  have hstart : session.interrupt.Reachable Program.Reachable := h.call .interrupt trivial
  refine ⟨hbusy.allSteps_eq_nil rfl, ?_, ?_⟩
  · rintro earlier cycles later rfl before rfl
    exact hbusy.execute_eq
  intro waiting hwaiting hevents cycles
  have hflag : waiting.interrupted = true := hwaiting ▸ hbusy.interrupted rfl
  have hreachable : waiting.Reachable Program.Reachable := hwaiting ▸ hstart.replies hcalls
  have hexecute := execute_of_interrupted hevents hflag cycles
  have hcalm : (waiting.execute cycles).2.interrupted = false := by
    rw [hexecute]
    split <;> rfl
  refine ⟨steps_eq_nil_of_interrupted hflag, hcalm, ?_, ?_, ?_⟩
  · intro hactive
    have hends : (waiting.running || waiting.pending.isSome) = true := by
      simpa [Option.isSome_iff_ne_none] using hactive
    have hended : Ended { waiting with interrupted := false }.halt waiting.program :=
      ended_halt hreachable.program
    rw [hexecute, if_pos hends]
    exact ⟨rfl, hended⟩
  · rintro ⟨hidle, hpending⟩
    rw [hexecute, if_neg (by simp [hidle, hpending])]
  · intro later hlater
    have hafter := breaks_eq_nil_of_calm (hreachable.call (.execute cycles) trivial) hcalm hlater
    have hbreak : [(waiting.execute cycles).1].filter Event.isBreak =
        if waiting.running || waiting.pending.isSome then [(waiting.execute cycles).1] else [] := by
      rw [hexecute]
      split <;> rfl
    have hreplies : (waiting.replies (.execute cycles :: later)).1 =
        [(waiting.execute cycles).1] ++ ((waiting.reply (.execute cycles)).2.replies later).1 := rfl
    rw [replies_append, hwaiting, List.filter_append, hbusy.breaks_eq_nil hstart hcalls,
      List.nil_append, hreplies, List.filter_append, hafter, List.append_nil, hbreak]

def listed : List Call :=
  [.enter "10 PRINT 7", .enter "20 GOTO 10", .enter "RUN", .execute 1, .enter "LIST"]

/-- A run that is interrupted twice while a listing waits, and goes on to be run again. -/
theorem interruption_of_busy_list :
    (Session.replies {} listed).2.interrupt.allSteps [.execute 5, .interrupt] = [] ∧
      ((Session.replies {} listed).2.interrupt.replies
          ([.execute 5, .interrupt] ++ .execute 5 :: [.execute 5, .enter "RUN", .execute 5])).1.filter
        Event.isBreak = [.fault (.interruption (some 20))] := by
  have hreachable : (Session.replies {} listed).2.Reachable Program.Reachable := by
    apply Reachable.initial.replies
    simp [listed, Call.Installs]
  have hevents : (Session.replies {} listed).2.interrupt.events ≠ [] := by decide +kernel
  have hbusy : (Session.replies {} listed).2.interrupt.Busy [.execute 5, .interrupt] :=
    ⟨fun _ _ => hevents, nofun, trivial⟩
  obtain ⟨hsteps, -, hbreak⟩ := interruption_of_busy hreachable (by simp [Call.Installs]) hbusy
  refine ⟨hsteps, ?_⟩
  obtain ⟨-, -, -, -, hlater⟩ := hbreak _ rfl (by decide +kernel) 5
  rw [hlater [.execute 5, .enter "RUN", .execute 5] (by simp [Call.Installs])]
  decide +kernel

end Session

end NumberedBasic
