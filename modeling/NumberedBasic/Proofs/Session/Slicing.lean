import NumberedBasic.Proofs.Session.Events
import NumberedBasic.Session.Slicing

/-!
# Budgets compose

A slice that is used up leaves a session that is about to take the next step, so that the slice after it
goes on where a larger one would have gone on. A slice that ends with an event ends with the same one
when it is given more. What comes out of a session therefore does not depend on how it is sliced.
-/

namespace NumberedBasic

namespace Session

variable {session : Session} {cycles more : Nat} {budgets others : List Nat}

/-! ### One slice -/

/-- Only a silent step is not seen. -/
theorem settle_ne_running {reply : Program.Reply Outcome} (h : reply.1 ≠ .ok (.advanced none)) :
    (session.settle reply).1 ≠ .running := by
  obtain ⟨fault | ⟨_ | value⟩ | ⟨_ | value⟩ | name, program⟩ := reply
  · simp [settle]
  · simp [settle]
  · simp [settle]
  · exact absurd rfl h
  · simp [settle]
  · simp [settle]

/-- A silent step is followed by the rest of the slice, and any other is seen and ends it. -/
theorem cycle_cases (session : Session) :
    (∃ after, session.program.step session.resume = (.ok (.advanced none), after) ∧
      ∀ cycles, cycle (cycles + 1) session =
        cycle cycles { session with program := after, resume := false }) ∨
    ∃ result, result.1 ≠ .running ∧ ∀ cycles, cycle (cycles + 1) session = result := by
  cases hreply : session.program.step session.resume with
  | mk outcome after =>
    by_cases hsilent : outcome = .ok (.advanced none)
    · refine .inl ⟨after, by rw [hsilent], fun cycles => ?_⟩
      rw [cycle_succ, hreply, hsilent]
    · refine .inr ⟨session.settle (outcome, after), settle_ne_running hsilent, fun cycles => ?_⟩
      rw [cycle_succ, hreply]
      split
      next heq => exact absurd (congrArg Prod.fst heq) hsilent
      next => rfl

theorem cycle_add (cycles more : Nat) (session : Session) :
    cycle (cycles + more) session =
      if (cycle cycles session).1 = .running then
        cycle more (cycle cycles session).2
      else
        cycle cycles session := by
  induction cycles generalizing session with
  | zero => rw [Nat.zero_add, cycle, if_pos rfl]
  | succ cycles ih =>
      rw [Nat.add_right_comm]
      rcases cycle_cases session with ⟨after, -, heq⟩ | ⟨result, hloud, heq⟩
      · rw [heq, heq]
        exact ih _
      · rw [heq, heq, if_neg hloud]

theorem isActive_cycle (h : session.isActive = true)
    (hrunning : (cycle cycles session).1 = .running) : (cycle cycles session).2.isActive = true := by
  induction cycles generalizing session with
  | zero => exact h
  | succ cycles ih =>
      rcases cycle_cases session with ⟨after, -, heq⟩ | ⟨result, hloud, heq⟩
      · rw [heq] at hrunning ⊢
        exact ih h hrunning
      · rw [heq] at hrunning
        exact absurd hrunning hloud

/-- A slice that is used up is one of a run. -/
theorem isActive_of_execute (hqueue : .running ∉ session.events)
    (hrunning : (session.execute cycles).1 = .running) : session.isActive = true := by
  have hexecutes := executes_execute session cycles
  generalize session.execute cycles = result at hexecutes hrunning
  cases hexecutes with
  | pops hevents =>
      obtain rfl := hrunning
      exact absurd (hevents ▸ List.mem_cons_self) hqueue
  | breaks _ _ | waits _ _ | rests _ _ _ => cases hrunning
  | pauses hactive | settles hactive _ => exact hactive

/-- The budget only matters to a run. -/
theorem execute_of_isActive_eq_false (h : session.isActive = false) (cycles more : Nat) :
    session.execute cycles = session.execute more := by
  unfold execute
  split
  next => rfl
  next hevents =>
    dsimp only
    split
    next => rfl
    next hbreak =>
      split
      next => rfl
      next hpending =>
        split
        next hrunning =>
          have hcalm : session.interrupted = false := by simpa [hrunning] using hbreak
          rw [isActive_iff.mpr ⟨hevents, hcalm, hpending, hrunning⟩] at h
          cases h
        next => rfl

/-- A larger budget goes on where a smaller one is used up, and makes no difference otherwise. -/
theorem execute_add (hqueue : .running ∉ session.events) (cycles more : Nat) :
    session.execute (cycles + more) =
      if (session.execute cycles).1 = .running then
        (session.execute cycles).2.execute more
      else
        session.execute cycles := by
  cases hactive : session.isActive with
  | true =>
      rw [execute_of_isActive hactive, execute_of_isActive hactive, cycle_add]
      split
      next hrunning => rw [execute_of_isActive (isActive_cycle hactive hrunning)]
      next => rfl
  | false =>
      rw [execute_of_isActive_eq_false hactive (cycles + more) cycles, if_neg]
      intro hrunning
      rw [isActive_of_execute hqueue hrunning] at hactive
      cases hactive

/-! ### The queue -/

theorem running_notMem_execute (hqueue : .running ∉ session.events) (cycles : Nat) :
    .running ∉ (session.execute cycles).2.events :=
  fun hmem => hqueue (events_execute_subset session cycles hmem)

/-- No typed line announces that a slice is used up. -/
theorem Reachable.running_notMem {allowed : Program → Prop} (h : Reachable allowed session) :
    .running ∉ session.events := by
  intro hmem
  cases h.announced _ hmem

/-! ### Slices one after another -/

theorem slices_cons_of_running (h : (session.execute cycles).1 = .running) (budgets : List Nat) :
    session.slices (cycles :: budgets) = (session.execute cycles).2.slices budgets :=
  if_pos h

theorem slices_cons_add (hqueue : .running ∉ session.events)
    (h : (session.execute cycles).1 = .running) :
    session.slices ((cycles + more) :: budgets) =
      (session.execute cycles).2.slices (more :: budgets) := by
  rw [slices, slices, execute_add hqueue, if_pos h]

theorem slices_cons_of_le (hqueue : .running ∉ session.events) {larger : Nat} (hle : cycles ≤ larger)
    (h : (session.execute cycles).1 ≠ .running) :
    session.slices (larger :: budgets) =
      session.execute cycles :: (session.execute cycles).2.slices budgets := by
  obtain ⟨more, rfl⟩ := Nat.exists_eq_add_of_le hle
  rw [slices, execute_add hqueue, if_neg h]
  exact if_neg h

theorem slices_prefix_append (budgets others : List Nat) (session : Session) :
    session.slices budgets <+: session.slices (budgets ++ others) := by
  induction budgets generalizing session with
  | nil => exact List.nil_prefix
  | cons cycles budgets ih =>
      rw [List.cons_append]
      by_cases h : (session.execute cycles).1 = .running
      · rw [slices_cons_of_running h, slices_cons_of_running h]
        exact ih _
      · rw [slices, slices]
        simp only [h, if_false, List.cons_prefix_cons, true_and]
        exact ih _

/-- Each budget that is not zero is good for a step or an event, and no event is left out. -/
theorem slices_prefix (hqueue : .running ∉ session.events)
    (hcount : budgets.length + allowance budgets ≤ others.countP (0 < ·)) :
    session.slices budgets <+: session.slices others := by
  induction others generalizing session budgets with
  | nil =>
      have hlength : budgets.length = 0 := Nat.eq_zero_of_le_zero (Nat.le_of_add_right_le hcount)
      obtain rfl : budgets = [] := List.eq_nil_of_length_eq_zero hlength
      exact List.nil_prefix
  | cons larger others ih =>
      -- The first slice of one side is taken off, and what the other has more of it is kept.
      induction budgets generalizing session larger with
      | nil => exact List.nil_prefix
      | cons cycles budgets ihBudgets =>
          have hafter := running_notMem_execute hqueue
          simp only [List.length_cons, allowance, List.countP_cons, decide_eq_true_eq] at hcount
          rcases Nat.le_total cycles larger with hle | hle
          · by_cases h : (session.execute cycles).1 = .running
            · obtain ⟨more, rfl⟩ := Nat.exists_eq_add_of_le hle
              rw [slices_cons_of_running h, slices_cons_add hqueue h]
              apply ihBudgets more (hafter cycles)
              rw [List.countP_cons]
              split at hcount <;> omega
            · rw [slices_cons_of_le hqueue (Nat.le_refl _) h, slices_cons_of_le hqueue hle h,
                List.cons_prefix_cons]
              refine ⟨rfl, ih (hafter cycles) ?_⟩
              split at hcount <;> omega
          · by_cases h : (session.execute larger).1 = .running
            · obtain ⟨more, rfl⟩ := Nat.exists_eq_add_of_le hle
              rw [slices_cons_of_running h others, slices_cons_add hqueue h]
              apply ih (hafter larger)
              rw [List.length_cons, allowance]
              split at hcount <;> omega
            · rw [slices_cons_of_le hqueue (Nat.le_refl larger) h, slices_cons_of_le hqueue hle h,
                List.cons_prefix_cons]
              refine ⟨rfl, ih (hafter larger) ?_⟩
              split at hcount <;> omega

theorem slices_comparable (hqueue : .running ∉ session.events) (budgets others : List Nat) :
    session.slices budgets <+: session.slices others ∨
      session.slices others <+: session.slices budgets := by
  have hlong : session.slices budgets <+:
      session.slices (others ++ List.replicate (budgets.length + allowance budgets) 1) := by
    apply slices_prefix hqueue
    rw [List.countP_append, List.countP_replicate]
    exact Nat.le_add_left _ _
  exact List.prefix_or_prefix_of_prefix hlong (slices_prefix_append others _ session)

/-- A budget that is used up is completed by the next one, and a budget that is not might as well have
been larger. Two ways of slicing show the same, as far as both of them go. -/
theorem budgets_compose :
    (∀ (allowed : Program → Prop) (session : Session), session.Reachable allowed →
      .running ∉ session.events) ∧
    ∀ session : Session, .running ∉ session.events →
      (∀ cycles more after, session.execute cycles = (.running, after) →
        session.execute (cycles + more) = after.execute more) ∧
      (∀ cycles more, (session.execute cycles).1 ≠ .running →
        session.execute (cycles + more) = session.execute cycles) ∧
      ∀ budgets others : List Nat,
        (session.slices budgets <+: session.slices others ∨
          session.slices others <+: session.slices budgets) ∧
        (budgets.length + allowance budgets ≤ others.countP (0 < ·) →
          session.slices budgets <+: session.slices others) := by
  refine ⟨fun _ _ h => h.running_notMem, fun session hqueue => ⟨?_, ?_, ?_⟩⟩
  · intro cycles more after h
    rw [execute_add hqueue, h, if_pos rfl]
  · intro cycles more h
    rw [execute_add hqueue, if_neg h]
  · intro budgets others
    exact ⟨slices_comparable hqueue budgets others, slices_prefix hqueue⟩

def counting : List Call :=
  [.enter "10 LET A = 0", .enter "20 LET A = A + 1", .enter "30 PRINT A", .enter "40 GOTO 20",
    .enter "RUN"]

/-- A loop in slices that are used up, and in one that is not. -/
theorem budgets_compose_counting :
    let session := (Session.replies {} counting).2
    (session.execute 2).1 = .running ∧
      session.execute (2 + 5) = (session.execute 2).2.execute 5 ∧
      (session.execute 3).1 = .print "1" ∧
      session.execute (3 + 9) = session.execute 3 ∧
      (session.slices [2, 0, 1, 1, 5]).map (·.1) = [.print "1", .print "2"] ∧
      session.slices [2, 0, 1, 1, 5] <+: session.slices (List.replicate 14 3) := by
  intro session
  obtain ⟨hreachable, hcompose⟩ := budgets_compose
  have hqueue : .running ∉ session.events :=
    hreachable (fun _ => True) session (Reachable.initial.replies (by simp [counting, Call.Installs]))
  obtain ⟨hadds, hends, hslices⟩ := hcompose session hqueue
  have hrunning : (session.execute 2).1 = .running := by decide +kernel
  have hprints : (session.execute 3).1 = .print "1" := by decide +kernel
  refine ⟨hrunning, hadds 2 5 _ (Prod.ext hrunning rfl), hprints, ?_, by decide +kernel, ?_⟩
  · exact hends 3 9 (by simp [hprints])
  · exact (hslices _ _).2 (by decide)

end Session

end NumberedBasic
