import NumberedBasic.Proofs.Listing.Neighbours
import NumberedBasic.Proofs.Session.Calls

/-!
# Skipped lines

A step may pass over the line at the program counter once the answer that the line asked for is there.
What has happened since the last step of a run is followed through all calls, and tells which skipped
lines are such lines. The others come from two histories: a question that was asked directly in the
middle of a run, and an edit between the answer and the step.
-/

namespace NumberedBasic

namespace Session

/-- What has happened since a line of the run was last executed. `asker` is the line that suspended the
run, with its variable, and `answered` is set when that variable has received a value. `edited` and
`asked` are set by an edit of the listing and by a direct question. -/
structure Interlude where
  asker : Option (LineNumber × String) := none
  answered : Bool := false
  edited : Bool := false
  asked : Bool := false
deriving DecidableEq, Repr

namespace Interlude

/-- Follows a typed line in the middle of a run. -/
def enter (interlude : Interlude) (session : Session) (text : String) : Interlude :=
  match session.pending with
  | some name =>
      if interlude.asker.any (·.2 = name) && (answerValue? text).isSome then
        { interlude with answered := true }
      else
        interlude
  | none =>
      match Command.parse text with
      | .ok (some (.direct (.input _))) => { interlude with asked := true }
      | .ok (some (.edit line)) =>
          match session.program.insert line.number line.statement with
          | (.ok _, _) => { interlude with edited := true }
          | (.error _, _) => interlude
      | _ => interlude

/-- What is left of a slice is the question that suspended the run, if one did. -/
def afterSlice (after : Session) : Interlude :=
  { asker := after.pending.bind fun name => after.program.pc.map fun line => (line, name) }

/-- Follows a call. Without a run there is nothing to follow. -/
def next (interlude : Interlude) (session : Session) (call : Call) : Interlude :=
  let after := (session.reply call).2
  if after.running then
    match call with
    | .enter text => interlude.enter session text
    | .execute cycles =>
        if (session.steps cycles).isEmpty then interlude else afterSlice after
    | .interrupt | .install _ => interlude
  else
    {}

/-- The line at the program counter suspended the run, and its variable has received a value since. -/
def Answers (interlude : Interlude) (program : Program) : Prop :=
  ∃ line name, interlude.asker = some (line, name) ∧ interlude.answered = true ∧
    program.pc = some line ∧ program.listing.get? line = some (.input name)

/-- A question was asked directly while the run was not suspended by a line. -/
def Misled (interlude : Interlude) : Prop := interlude.asker = none ∧ interlude.asked = true

/-- An edit has put another line first, or another statement in the line that suspended the run. -/
def Displaced (interlude : Interlude) (program : Program) : Prop :=
  interlude.edited = true ∧ ∀ line name, interlude.asker = some (line, name) →
    ¬ (program.listing.first? = some line ∧ program.listing.get? line = some (.input name))

/-- What a session and what has happened in it have in common. -/
structure Fits (interlude : Interlude) (session : Session) : Prop where
  idle : session.running = false → session.resume = false ∧ interlude = {}
  misled : interlude.asker = none → session.running = true →
    session.resume = true ∨ session.pending ≠ none → interlude.asked = true
  unanswered : ∀ line name, interlude.asker = some (line, name) → interlude.answered = false →
    session.pending = some name ∧ session.resume = false
  placed : ∀ line name, interlude.asker = some (line, name) → interlude.edited = false →
    session.program.pc = some line ∧
      session.program.listing.get? line = some (.input name)
  rewound : interlude.edited = true → session.program.pc = session.program.listing.first?

/-! ### One call -/

variable {session : Session} {interlude : Interlude}

theorem fits_of_idle (hrunning : session.running = false) (hresume : session.resume = false) :
    Fits {} session := by
  refine ⟨fun _ => ⟨hresume, rfl⟩, fun _ hactive => ?_, nofun, nofun, nofun⟩
  rw [hrunning] at hactive
  cases hactive

theorem fits_of_running (hrunning : session.running = true)
    (hmisled : interlude.asker = none → session.resume = true ∨ session.pending ≠ none →
      interlude.asked = true)
    (hunanswered : ∀ line name, interlude.asker = some (line, name) → interlude.answered = false →
      session.pending = some name ∧ session.resume = false)
    (hplaced : ∀ line name, interlude.asker = some (line, name) → interlude.edited = false →
      session.program.pc = some line ∧
        session.program.listing.get? line = some (.input name))
    (hrewound : interlude.edited = true →
      session.program.pc = session.program.listing.first?) : interlude.Fits session := by
  refine ⟨fun hidle => ?_, fun hasker _ => hmisled hasker, hunanswered, hplaced, hrewound⟩
  rw [hrunning] at hidle
  cases hidle

/-- Without a run there is nothing to resume. -/
theorem resume_eq_false_of_reply (h : session.running = false → session.resume = false)
    (call : Call) (hafter : (session.reply call).2.running = false) :
    (session.reply call).2.resume = false := by
  cases call with
  | enter text =>
      have henters := enters_enter session text
      change (session.enter text).running = false at hafter
      change (session.enter text).resume = false
      generalize session.enter text = after at henters hafter ⊢
      cases henters with
      | accepts _ _ =>
          have hrunning : session.running = false := hafter
          simp [h hrunning, hrunning]
      | rejects _ _ | refuses _ _ | ignores _ _ => exact h hafter
      | performs _ _ hperforms =>
          cases hperforms with
          | runs => cases hafter
          | clears => rfl
          | announces _ _ _ | asks _ | carriesOut _ _ _ | edits _ | refuses _ => exact h hafter
  | execute cycles =>
      by_cases hsteps : session.steps cycles = []
      · rcases execute_of_steps_eq_nil hsteps with ⟨interrupted, heq⟩ | ⟨events, interrupted, heq⟩
        · simp only [reply, heq, halt]
        · simp only [reply, heq] at hafter ⊢
          exact h hafter
      · obtain ⟨-, last, -, heq⟩ := exists_execute_eq_settle hsteps
        simp only [reply, heq, settle_resume]
  | interrupt => exact h hafter
  | install program => rfl

/-- Neither the variables nor the queue matter. -/
theorem Fits.congr {other : Session} (h : interlude.Fits session)
    (hrunning : other.running = session.running) (hresume : other.resume = session.resume)
    (hpending : other.pending = session.pending) (hpc : other.program.pc = session.program.pc)
    (hlisting : other.program.listing = session.program.listing) : interlude.Fits other := by
  obtain ⟨hidle, hmisled, hunanswered, hplaced, hrewound⟩ := h
  constructor <;> simpa only [hrunning, hresume, hpending, hpc, hlisting]

theorem enter_eq_self {text : String} {command : Command} (hpending : session.pending = none)
    (hparse : Command.parse text = .ok (some command))
    (hinput : ∀ name, command ≠ .direct (.input name)) (hedit : ∀ line, command ≠ .edit line) :
    interlude.enter session text = interlude := by
  simp only [Interlude.enter, hpending, hparse]
  split
  next name heq =>
    cases heq
    exact absurd rfl (hinput name)
  next line heq =>
    cases heq
    exact absurd rfl (hedit line)
  next => rfl

theorem Fits.performs {text : String} {command : Command} {after : Session}
    (h : interlude.Fits session) (hpending : session.pending = none)
    (hparse : Command.parse text = .ok (some command))
    (hperforms : Performs session command after) (hrunning : after.running = true) :
    (interlude.enter session text).Fits after := by
  cases hperforms with
  | runs =>
      rw [enter_eq_self hpending hparse nofun nofun]
      cases hbefore : session.running with
      | true => exact h.congr hbefore.symm rfl rfl rfl rfl
      | false =>
          obtain ⟨hresume, rfl⟩ := h.idle hbefore
          refine ⟨nofun, fun _ _ hactive => ?_, nofun, nofun, nofun⟩
          simp [hresume, hpending] at hactive
  | clears => cases hrunning
  | announces event hinput hedit =>
      rw [enter_eq_self hpending hparse (fun name => hinput (.input name)) hedit]
      exact h.congr rfl rfl rfl rfl rfl
  | asks name =>
      have henter : interlude.enter session text = { interlude with asked := true } := by
        simp [Interlude.enter, hpending, hparse]
      rw [henter]
      refine fits_of_running hrunning (fun _ _ => rfl) (fun line asked hasker hanswered => ?_) h.placed
        h.rewound
      have hwaits := (h.unanswered line asked hasker hanswered).1
      rw [hpending] at hwaits
      cases hwaits
  | carriesOut bindings events hinput =>
      have henter : interlude.enter session text = interlude := by
        refine enter_eq_self hpending hparse (fun name heq => ?_) nofun
        exact hinput name (Command.direct.inj heq)
      rw [henter]
      exact h.congr rfl rfl rfl rfl rfl
  | edits hinsert =>
      have henter : interlude.enter session text = { interlude with edited := true } := by
        simp [Interlude.enter, hpending, hparse, hinsert]
      rw [henter]
      exact fits_of_running hrunning (fun hasker => h.misled hasker hrunning) h.unanswered nofun
        fun _ => rfl
  | refuses hinsert =>
      have henter : interlude.enter session text = interlude := by
        simp [Interlude.enter, hpending, hparse, hinsert]
      rw [henter]
      exact h.congr rfl rfl rfl rfl rfl

theorem Fits.accepts {text name : String} {value : Value} (h : interlude.Fits session)
    (hpending : session.pending = some name) (hvalue : answerValue? text = some value)
    (hrunning : session.running = true) :
    (interlude.enter session text).Fits
      { session with
        program := session.program.store name value
        pending := none
        resume := session.resume || session.running } := by
  have hmisled : interlude.asker = none → interlude.asked = true := by
    intro hasker
    exact h.misled hasker hrunning (.inr (by simp [hpending]))
  by_cases hown : interlude.asker.any (·.2 = name) = true
  · have henter : interlude.enter session text = { interlude with answered := true } := by
      simp [Interlude.enter, hpending, hvalue, hown]
    rw [henter]
    exact fits_of_running hrunning (fun hasker _ => hmisled hasker) nofun h.placed h.rewound
  · have henter : interlude.enter session text = interlude := by
      simp [Interlude.enter, hpending, hown]
    rw [henter]
    refine fits_of_running hrunning (fun hasker _ => hmisled hasker)
      (fun line asked hasker hanswered => ?_) h.placed h.rewound
    -- the question that stands is that of the line, so it would have been answered
    have hwaits := (h.unanswered line asked hasker hanswered).1
    rw [hpending] at hwaits
    cases hwaits
    exact absurd (by simp [hasker]) hown

theorem Fits.enter (h : interlude.Fits session) {text : String}
    (hrunning : (session.enter text).running = true) :
    (interlude.enter session text).Fits (session.enter text) := by
  have henters := enters_enter session text
  generalize session.enter text = after at henters hrunning ⊢
  cases henters with
  | accepts hpending hvalue => exact h.accepts hpending hvalue hrunning
  | rejects hpending hvalue =>
      have henter : interlude.enter session text = interlude := by
        simp [Interlude.enter, hpending, hvalue]
      rw [henter]
      exact h.congr rfl rfl rfl rfl rfl
  | refuses hpending hparse | ignores hpending hparse =>
      have henter : interlude.enter session text = interlude := by
        simp [Interlude.enter, hpending, hparse]
      rw [henter]
      exact h.congr rfl rfl rfl rfl rfl
  | performs hpending hparse hperforms => exact h.performs hpending hparse hperforms hrunning

/-- After a slice the run waits at the line that asked, or for nothing. -/
theorem fits_afterSlice {last after : Program} {skip : Bool}
    {outcome : Except Fault Outcome} (hactive : session.isActive = true)
    (hstep : last.step skip = (outcome, after))
    (hrunning : (session.settle (outcome, after)).2.running = true) :
    (afterSlice (session.settle (outcome, after)).2).Fits (session.settle (outcome, after)).2 := by
  obtain ⟨-, -, hpending, hbefore⟩ := isActive_iff.mp hactive
  rcases settle_cases hrunning with ⟨name, hname, hsettled⟩ | hsettled
  · obtain rfl : outcome = .ok (.awaiting name) := hname
    obtain ⟨line, hpc, hstored, rfl⟩ := Program.step_awaiting hstep
    rw [hsettled]
    have hslice : afterSlice { session with program := after, resume := false, pending := some name } =
        { asker := some (line, name) } := by simp [afterSlice, hpc]
    rw [hslice]
    refine fits_of_running hbefore (fun hasker _ => ?_) ?_ ?_ (fun hedited => ?_)
    · cases hasker
    · rintro _ _ ⟨⟩ _
      exact ⟨rfl, rfl⟩
    · rintro _ _ ⟨⟩ _
      exact ⟨hpc, hstored⟩
    · cases hedited
  · rw [hsettled]
    have hslice : afterSlice { session with program := after, resume := false } = {} := by
      simp [afterSlice, hpending]
    rw [hslice]
    refine fits_of_running hbefore (fun _ hwaits => ?_) ?_ ?_ (fun hedited => ?_)
    · simp [hpending] at hwaits
    · rintro _ _ ⟨⟩
    · rintro _ _ ⟨⟩
    · cases hedited

theorem Fits.execute (h : interlude.Fits session) {cycles : Nat}
    (hrunning : (session.execute cycles).2.running = true) :
    (interlude.next session (.execute cycles)).Fits (session.execute cycles).2 := by
  have hnext : interlude.next session (.execute cycles) =
      if (session.steps cycles).isEmpty then interlude
      else afterSlice (session.execute cycles).2 := by
    simp [Interlude.next, reply, hrunning]
  rw [hnext]
  by_cases hsteps : session.steps cycles = []
  · rw [if_pos (by simp [hsteps])]
    rcases execute_of_steps_eq_nil hsteps with ⟨interrupted, heq⟩ | ⟨events, interrupted, heq⟩
    · rw [heq] at hrunning
      cases hrunning
    · rw [heq]
      exact h.congr rfl rfl rfl rfl rfl
  · rw [if_neg (by simpa using hsteps)]
    obtain ⟨hactive, ⟨last, skip⟩, -, heq⟩ := exists_execute_eq_settle hsteps
    rw [heq] at hrunning ⊢
    exact fits_afterSlice hactive rfl hrunning

theorem Fits.next (h : interlude.Fits session) (call : Call) :
    (interlude.next session call).Fits (session.reply call).2 := by
  cases hrunning : (session.reply call).2.running with
  | false =>
      have hnext : interlude.next session call = {} := by simp [Interlude.next, hrunning]
      rw [hnext]
      exact fits_of_idle hrunning
        (resume_eq_false_of_reply (fun hidle => (h.idle hidle).1) call hrunning)
  | true =>
      cases call with
      | enter text =>
          have hnext : interlude.next session (.enter text) = interlude.enter session text := by
            simp [Interlude.next, hrunning]
          rw [hnext]
          exact h.enter hrunning
      | execute cycles => exact h.execute hrunning
      | interrupt =>
          have hnext : interlude.next session .interrupt = interlude := by
            simp [Interlude.next, hrunning]
          rw [hnext]
          exact h.congr rfl rfl rfl rfl rfl
      | install program => cases hrunning

end Interlude

/-! ### Every run of calls -/

/-- Makes calls in order, following what happens. -/
def follow (session : Session) (interlude : Interlude) : List Call → Session × Interlude
  | [] => (session, interlude)
  | call :: rest => (session.reply call).2.follow (interlude.next session call) rest

theorem follow_fst (session : Session) (interlude : Interlude) (calls : List Call) :
    (session.follow interlude calls).1 = (session.replies calls).2 := by
  induction calls generalizing session interlude with
  | nil => rfl
  | cons call rest ih => exact ih (session.reply call).2 (interlude.next session call)

theorem Interlude.Fits.follow {session : Session} {interlude : Interlude}
    (h : interlude.Fits session) (calls : List Call) :
    (session.follow interlude calls).2.Fits (session.follow interlude calls).1 := by
  induction calls generalizing session interlude with
  | nil => exact h
  | cons call rest ih => exact ih (h.next call)

/-- What has happened since the last step of a run, after calls on a new session. -/
def interlude (calls : List Call) : Interlude := (Session.follow {} {} calls).2

theorem fits_interlude (calls : List Call) :
    (interlude calls).Fits (Session.replies {} calls).2 := by
  rw [← follow_fst {} {} calls]
  exact (Interlude.fits_of_idle rfl rfl).follow calls

/-- A line is skipped for the answer that it asked for, unless the answer was to a direct question or
an edit has come in between. -/
theorem skip_answers_iff {calls : List Call} {cycles : Nat} {program : Program}
    (hskip : (program, true) ∈ (Session.replies {} calls).2.steps cycles) :
    (interlude calls).Answers program ↔
      ¬ (interlude calls).Misled ∧ ¬ (interlude calls).Displaced program := by
  have hfits := fits_interlude calls
  obtain ⟨hrunning, rfl, hresume⟩ := eq_of_mem_steps hskip
  generalize interlude calls = interlude at hfits ⊢
  generalize (Session.replies {} calls).2 = session at hfits hrunning hresume ⊢
  constructor
  · rintro ⟨line, name, hasker, -, hpc, hstored⟩
    refine ⟨fun hmisled => ?_, fun hdisplaced => ?_⟩
    · rw [hmisled.1] at hasker
      cases hasker
    · have hfirst := hfits.rewound hdisplaced.1
      exact hdisplaced.2 line name hasker ⟨hfirst ▸ hpc, hstored⟩
  · rintro ⟨hmisled, hdisplaced⟩
    cases hasker : interlude.asker with
    | none => exact absurd ⟨hasker, hfits.misled hasker hrunning (.inl hresume)⟩ hmisled
    | some question =>
        obtain ⟨line, name⟩ := question
        -- A question of a line that still stands is not resumed from.
        have hanswered : interlude.answered = true := by
          cases hopen : interlude.answered with
          | true => rfl
          | false =>
              have hstays := (hfits.unanswered line name hasker hopen).2
              rw [hresume] at hstays
              cases hstays
        refine ⟨line, name, hasker, hanswered, ?_⟩
        cases hedited : interlude.edited with
        | false => exact hfits.placed line name hasker hedited
        | true =>
            rw [hfits.rewound hedited]
            by_cases hplaced : session.program.listing.first? = some line ∧
                session.program.listing.get? line = some (.input name)
            · exact hplaced
            · refine absurd ⟨hedited, fun other asked hother => ?_⟩ hdisplaced
              rw [hasker] at hother
              cases hother
              exact hplaced

def displacedQuestion : List Call :=
  [.enter "10 PRINT 7", .enter "20 INPUT A", .enter "RUN", .execute 1, .execute 1, .enter "5",
    .enter "30 END"]

/-- An edit between an answer and its step lets another line be skipped, if that is the first one. -/
example : ((Session.replies {} displacedQuestion).2.steps 1).map
      (fun step => (step.1.pc, step.1.pc.bind step.1.listing.get?, step.2)) =
        [(some 10, some (.print (.constant 7)), true)] ∧
    interlude displacedQuestion =
      { asker := some (20, "A"), answered := true, edited := true } := by
  decide +kernel

def answeredQuestion : List Call :=
  [.enter "10 INPUT A", .enter "RUN", .execute 1, .enter "5"]

theorem skip_answers_iff_of_answer :
    ∃ program, (program, true) ∈ (Session.replies {} answeredQuestion).2.steps 1 ∧
      program.pc = some 10 ∧ (interlude answeredQuestion).Answers program := by
  have hactive : (Session.replies {} answeredQuestion).2.isActive = true := by decide +kernel
  have hresume : (Session.replies {} answeredQuestion).2.resume = true := by decide +kernel
  have hinterlude : interlude answeredQuestion = { asker := some (10, "A"), answered := true } := by
    decide +kernel
  have hskip := mem_steps 0 hactive
  rw [hresume] at hskip
  refine ⟨_, hskip, by decide +kernel, (skip_answers_iff hskip).mpr ⟨?_, ?_⟩⟩
  · rw [hinterlude]
    exact fun hmisled => Option.some_ne_none _ hmisled.1
  · rw [hinterlude]
    exact fun hdisplaced => Bool.false_ne_true hdisplaced.1

def directQuestion : List Call :=
  [.enter "10 PRINT 7", .enter "RUN", .enter "INPUT B", .enter "5"]

/-- The answer to a direct question in the middle of a run lets a line be skipped that asked for
nothing. -/
theorem skip_print_of_direct_question :
    ∃ program, (program, true) ∈ (Session.replies {} directQuestion).2.steps 1 ∧
      program.pc = some 10 ∧ program.listing.get? 10 = some (.print (.constant 7)) ∧
      ¬ (interlude directQuestion).Answers program := by
  have hactive : (Session.replies {} directQuestion).2.isActive = true := by decide +kernel
  have hresume : (Session.replies {} directQuestion).2.resume = true := by decide +kernel
  have hinterlude : interlude directQuestion = { asked := true } := by decide +kernel
  have hskip := mem_steps 0 hactive
  rw [hresume] at hskip
  refine ⟨_, hskip, by decide +kernel, by decide +kernel, ?_⟩
  rintro ⟨line, name, hasker, -⟩
  rw [hinterlude] at hasker
  cases hasker

end Session

end NumberedBasic
