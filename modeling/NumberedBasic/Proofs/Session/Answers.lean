import NumberedBasic.Proofs.Session.Dialogue
import NumberedBasic.Session.Answers

/-!
# Rejected answers leave no trace

An answer is an integer in range with white space around it, and nothing else is. A line that is none has
one complaint, and after it everything is as it was before the line.
-/

namespace NumberedBasic

namespace Text

variable {cs : List Char} {n : Int}

theorem signedNumeral?_eq_some_iff : signedNumeral? cs = some n ↔ IsInteger cs n := by
  constructor
  · intro h
    unfold signedNumeral? at h
    split at h
    next digits =>
      obtain ⟨magnitude, hmagnitude, rfl⟩ := Option.map_eq_some_iff.mp h
      obtain ⟨hdigits, rfl⟩ := numeral?_eq_some_iff.mp hmagnitude
      exact .positive hdigits
    next digits =>
      cases hmagnitude : numeral? digits with
      | none =>
          rw [hmagnitude] at h
          cases h
      | some magnitude =>
          rw [hmagnitude] at h
          cases h
          obtain ⟨hdigits, rfl⟩ := numeral?_eq_some_iff.mp hmagnitude
          exact .negative hdigits
    next =>
      obtain ⟨magnitude, hmagnitude, rfl⟩ := Option.map_eq_some_iff.mp h
      obtain ⟨hdigits, rfl⟩ := numeral?_eq_some_iff.mp hmagnitude
      exact .unsigned hdigits
  · intro h
    cases h with
    | unsigned hdigits =>
        rw [signedNumeral?_of_isNumeral hdigits, numeral?_eq_some_iff.mpr ⟨hdigits, rfl⟩]
        rfl
    | positive hdigits =>
        rw [signedNumeral?, numeral?_eq_some_iff.mpr ⟨hdigits, rfl⟩]
        rfl
    | negative hdigits =>
        rw [signedNumeral?, numeral?_eq_some_iff.mpr ⟨hdigits, rfl⟩]
        rfl

theorem IsInteger.isBlank_eq_false (h : IsInteger cs n) : ∀ c ∈ cs, isBlank c = false := by
  have hdigit : ∀ {digits : List Char}, isNumeral digits → ∀ c ∈ digits, isBlank c = false :=
    fun hdigits c hc => isBlank_eq_false_of_isDigit (isDigit_of_mem hdigits hc)
  cases h with
  | unsigned hdigits => exact hdigit hdigits
  | positive hdigits => exact List.forall_mem_cons.mpr ⟨by decide, hdigit hdigits⟩
  | negative hdigits => exact List.forall_mem_cons.mpr ⟨by decide, hdigit hdigits⟩

end Text

namespace Session

variable {session : Session} {name text : String} {value : Value}

/-! ### One answer -/

theorem answerValue?_eq_some_iff : answerValue? text = some value ↔ IsAnswer text value := by
  unfold answerValue? IsAnswer
  rw [Option.bind_eq_some_iff]
  constructor
  · rintro ⟨n, hread, hvalue⟩
    obtain rfl := Value.ofInt?_eq_some_iff.mp hvalue
    obtain ⟨before, after, htext, hbefore, hafter⟩ := Text.exists_eq_append_trim text.toList
    exact ⟨before, _, after, htext, hbefore, hafter, Text.signedNumeral?_eq_some_iff.mp hread⟩
  · rintro ⟨before, body, after, htext, hbefore, hafter, hbody⟩
    refine ⟨value.toInt, ?_, Value.ofInt?_toInt value⟩
    rw [htext, Text.trim_append_of_forall hbefore hafter, Text.trim_of_forall hbody.isBlank_eq_false]
    exact Text.signedNumeral?_eq_some_iff.mpr hbody

theorem answerValue?_eq_none (h : ∀ value, ¬ IsAnswer text value) : answerValue? text = none := by
  cases hanswer : answerValue? text with
  | none => rfl
  | some value => exact absurd (answerValue?_eq_some_iff.mp hanswer) (h value)

theorem enter_of_answerValue?_eq_some (h : session.Asking name)
    (hanswer : answerValue? text = some value) : session.enter text = session.accept name value := by
  simp only [enter, h.pending, answer, hanswer, accept]

theorem enter_of_answerValue?_eq_none (h : session.Asking name) (hanswer : answerValue? text = none) :
    session.enter text = session.report .badAnswer := by
  simp only [enter, h.pending, answer, hanswer]

/-- The value that is stored tells which answer was accepted. -/
theorem accept_inj {other : Value} (h : session.accept name value = session.accept name other) :
    value = other := by
  have hfetch : ∀ value, (session.accept name value).program.bindings.fetch? name = some value := by
    intro value
    rw [accept, Program.store, Bindings.fetch?_store, if_pos rfl]
  have heq := hfetch value
  rw [h, hfetch other] at heq
  exact (Option.some.inj heq).symm

theorem enter_eq_accept_iff (h : session.Asking name) (text : String) (value : Value) :
    session.enter text = session.accept name value ↔ IsAnswer text value := by
  rw [← answerValue?_eq_some_iff]
  cases hanswer : answerValue? text with
  | some other =>
      rw [enter_of_answerValue?_eq_some h hanswer, Option.some.injEq]
      exact ⟨accept_inj, fun heq => by rw [heq]⟩
  | none =>
      rw [enter_of_answerValue?_eq_none h hanswer]
      simp only [reduceCtorEq, iff_false]
      intro heq
      have hanswered : (session.report .badAnswer).pending = none := by rw [heq, accept]
      have hstands : (session.report .badAnswer).pending = some name := h.pending
      rw [hanswered] at hstands
      cases hstands

/-! ### After a line that is no answer -/

theorem Asking.execute (h : session.Asking name) (cycles : Nat) :
    session.execute cycles = (.input name, session) := by
  obtain ⟨program, events, pending, running, resume, interrupted⟩ := session
  obtain ⟨hpending, hevents, hinterrupted⟩ := h
  dsimp only at hpending hevents hinterrupted
  rw [hpending, hevents, hinterrupted]
  rfl

theorem Asking.execute_report (h : session.Asking name) (fault : Fault) (cycles : Nat) :
    (session.report fault).execute cycles = (.fault fault, session) := by
  have hqueue : (session.report fault).events = [.fault fault] := by
    rw [report, emit, h.events, List.nil_append]
  rw [Session.execute, hqueue]
  exact congrArg (fun events => (Event.fault fault, { session with events })) h.events.symm

theorem Asking.replies_execute (h : session.Asking name) (budgets : List Nat) :
    session.replies (budgets.map .execute) = (budgets.map fun _ => .input name, session) := by
  induction budgets with
  | nil => rfl
  | cons cycles rest ih =>
      simp only [List.map_cons, replies, reply, h.execute, ih]
      rfl

theorem Asking.replies_attempt (h : session.Asking name) {attempt : Attempt}
    (hrejected : ∀ value, ¬ IsAnswer attempt.text value) :
    session.replies attempt.calls = (attempt.complaints name, session) := by
  have henter := enter_of_answerValue?_eq_none h (answerValue?_eq_none hrejected)
  simp only [Attempt.calls, replies, reply, henter, h.execute_report, h.replies_execute]
  rfl

theorem Asking.replies_attempts (h : session.Asking name) {attempts : List Attempt}
    (hrejected : ∀ attempt ∈ attempts, ∀ value, ¬ IsAnswer attempt.text value) :
    session.replies (attempts.flatMap Attempt.calls) =
      (attempts.flatMap (·.complaints name), session) := by
  induction attempts with
  | nil => rfl
  | cons attempt rest ih =>
      obtain ⟨hfirst, hrest⟩ := List.forall_mem_cons.mp hrejected
      rw [List.flatMap_cons, replies_append, h.replies_attempt hfirst, ih hrest, List.flatMap_cons]

/-- An answer is accepted as the value that it gives. After any lines that are no answers, each with its
one complaint, it is accepted just as it would have been before them. -/
theorem rejected_answers_leave_no_trace (h : session.Asking name) :
    (∀ text value, session.enter text = session.accept name value ↔ IsAnswer text value) ∧
      (∀ value : Value, IsAnswer (toString value) value) ∧
      Fault.badAnswer.code = .illegalNumber ∧
      ∀ attempts : List Attempt,
        (∀ attempt ∈ attempts, ∀ value, ¬ IsAnswer attempt.text value) →
          session.replies (attempts.flatMap Attempt.calls) =
              (attempts.flatMap (·.complaints name), session) ∧
            ∀ text, (session.replies (attempts.flatMap Attempt.calls ++ [.enter text])).2 =
              session.enter text := by
  refine ⟨enter_eq_accept_iff h, ?_, rfl, ?_⟩
  · intro value
    exact answerValue?_eq_some_iff.mp (answerValue?_toString value)
  · intro attempts hrejected
    have hreplies := h.replies_attempts hrejected
    refine ⟨hreplies, fun text => ?_⟩
    rw [replies_append, hreplies]
    rfl

/-- A command, a line of a program and two numbers that are no values, of which one is out of range. -/
def refusals : List Attempt :=
  [⟨"RUN", 0, [3]⟩, ⟨"10 PRINT X", 1, []⟩, ⟨"- 42", 2, [0, 5]⟩, ⟨"2147483648", 1, [1]⟩]

theorem rejected_answers_leave_no_trace_suspended :
    let session := (Session.replies {} [.enter "10 INPUT X", .enter "RUN", .execute 1]).2
    (∀ attempt ∈ refusals, ∀ value, ¬ IsAnswer attempt.text value) ∧
      IsAnswer "\u3000-0042\t" (-42) ∧
      (session.replies (refusals.flatMap Attempt.calls ++ [.enter "\u3000-0042\t"])).2 =
        session.accept "X" (-42) := by
  intro session
  have hasking : session.Asking "X" := ⟨by decide +kernel, by decide +kernel, by decide +kernel⟩
  have hrejected : ∀ attempt ∈ refusals, ∀ value, ¬ IsAnswer attempt.text value := by
    have hnone : ∀ attempt ∈ refusals, answerValue? attempt.text = none := by decide +kernel
    intro attempt hattempt value hanswer
    have hsome := answerValue?_eq_some_iff.mpr hanswer
    rw [hnone attempt hattempt] at hsome
    cases hsome
  have hanswer : IsAnswer "\u3000-0042\t" (-42) := answerValue?_eq_some_iff.mp (by decide +kernel)
  obtain ⟨haccepted, -, -, hretry⟩ := rejected_answers_leave_no_trace hasking
  refine ⟨hrejected, hanswer, ?_⟩
  rw [(hretry refusals hrejected).2, (haccepted _ _).mpr hanswer]

end Session

end NumberedBasic
