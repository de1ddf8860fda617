import Mathlib.Data.List.Basic
import NumberedBasic.Program.Pass
import NumberedBasic.Proofs.Program.Counter
import NumberedBasic.Proofs.Program.Effect

/-!
# Passes that go forward

Where all jumps go forward a step that goes on goes on to a higher line. The lines of a pass are thus
among those that are ahead of it, in their order and each at most once. There are at most two steps for
each of them, one that executes it and one that passes over it if it waits.
-/

namespace NumberedBasic

namespace Listing

variable {listing : Listing} {line number : LineNumber}

theorem filter_le_sublist_filter_lt (listing : Listing) (h : line < number) :
    (listing.numbers.filter (number ≤ ·)).Sublist (listing.numbers.filter (line < ·)) := by
  apply List.monotone_filter_right
  intro other hother
  simp only [decide_eq_true_eq] at hother ⊢
  exact UInt32.lt_of_lt_of_le h hother

theorem IsPlain.jumpsForward (h : listing.IsPlain) : listing.JumpsForward := by
  rintro ⟨line, statement⟩ hentry target htarget
  have hplain := h _ hentry
  cases statement with
  | remark _ | assign _ _ | print _ | input _ | finish => cases htarget
  | goto _ | branch _ _ _ _ => cases hplain

end Listing

/-! ### One step -/

theorem Statement.effect_of_isPlain {statement : Statement} (h : statement.isPlain = true)
    (bindings : Bindings) :
    (∃ assigned printed, statement.effect bindings = .passes assigned printed) ∨
      ∃ fault, statement.effect bindings = .fails fault := by
  cases statement with
  | remark content => exact .inl ⟨none, none, rfl⟩
  | assign name e =>
      rw [effect]
      split
      next value _ => exact .inl ⟨some (name, value), none, rfl⟩
      next fault _ => exact .inr ⟨fault, rfl⟩
  | print e =>
      rw [effect]
      split
      next value _ => exact .inl ⟨none, some value, rfl⟩
      next fault _ => exact .inr ⟨fault, rfl⟩
  | input _ | goto _ | branch _ _ _ _ | finish => cases h

namespace Program

variable {program : Program} {line target : LineNumber} {skip : Bool}

@[simp] theorem storeAll_listing (program : Program) (values : List (String × Value)) :
    (program.storeAll values).listing = program.listing := by
  induction values generalizing program with
  | nil => rfl
  | cons entry rest ih => exact ih (program.store entry.1 entry.2)

@[simp] theorem storeAll_pc (program : Program) (values : List (String × Value)) :
    (program.storeAll values).pc = program.pc := by
  induction values generalizing program with
  | nil => rfl
  | cons entry rest ih => exact ih (program.store entry.1 entry.2)

theorem WellPlaced.storeAll (h : program.WellPlaced) (values : List (String × Value)) :
    (program.storeAll values).WellPlaced := by
  refine ⟨?_, ?_⟩
  · rw [storeAll_listing]
    exact h.numbered
  · rw [storeAll_listing, storeAll_pc]
    exact h.counter

theorem lt_of_advance (hascending : Listing.Ascending program.listing.lines)
    (hmem : line ∈ program.listing.numbers) {given printed : Option Value}
    (h : (program.advance line given).1 = .ok (.advanced printed)) :
    ∃ number, (program.advance line given).2.pc = some number ∧ line < number := by
  rcases advance_cases program line given with heq | ⟨hlast, heq⟩
  · rw [heq] at h
    cases h
  · obtain ⟨number, hnumber⟩ := Listing.exists_after?_of_ne_last hascending hmem hlast
    rw [heq]
    exact ⟨number, hnumber, (Listing.mem_of_after? hnumber).2⟩

theorem pc_of_jump {printed : Option Value} (h : (program.jump target).1 = .ok (.advanced printed)) :
    (program.jump target).2.pc = some target := by
  unfold jump at h ⊢
  split
  next found hfound => rw [(Listing.resolve_eq_ok_iff.mp hfound).1]
  next fault hfault =>
    rw [hfault] at h
    cases h

/-- A step that goes on goes on to a higher line. -/
theorem WellPlaced.lt_of_step (h : program.WellPlaced) (hforward : program.listing.JumpsForward)
    {printed : Option Value} (hstep : (program.step skip).1 = .ok (.advanced printed)) :
    ∃ line number, program.pc = some line ∧ (program.step skip).2.pc = some number ∧
      line < number := by
  cases hpc : program.pc with
  | none => simp [Program.step, hpc] at hstep
  | some line =>
      have hmem := h.mem_numbers hpc
      obtain ⟨effect, heffect⟩ := exists_effectAt? hmem skip
      have hperform := perform_of_step hpc heffect hstep
      rw [step_of_effectAt? hpc heffect]
      refine ⟨line, ?_⟩
      cases effect with
      | passes assigned given =>
          have hlisting := assign_listing program assigned
          obtain ⟨number, hnumber, hlt⟩ := lt_of_advance (hlisting ▸ h.numbered.ascending)
            (hlisting ▸ hmem) hperform
          exact ⟨number, rfl, hnumber, hlt⟩
      | jumps target =>
          obtain ⟨statement, hstored, htarget⟩ := exists_target_of_effectAt? heffect
          exact ⟨target, rfl, pc_of_jump hperform, hforward _ hstored target htarget⟩
      | finishes | awaits _ | fails _ => cases hperform

/-- A line that is passed over does not ask again. -/
theorem skip_eq_false_of_awaiting {name : String}
    (h : (program.step skip).1 = .ok (.awaiting name)) : skip = false := by
  cases skip with
  | false => rfl
  | true =>
      cases hpc : program.pc with
      | none => simp [step, hpc] at h
      | some line =>
          simp only [step, hpc, executeLine, if_true] at h
          rcases advance_cases program line none with heq | ⟨-, heq⟩
          · rw [heq] at h
            cases h
          · rw [heq] at h
            cases h

/-- A plain line that does not fail goes on to the next one. -/
theorem exists_step_eq_advance (hplaced : program.WellPlaced) (hplain : program.listing.IsPlain)
    (hpc : program.pc = some line) (hok : (program.step false).1.isOk = true) :
    ∃ assigned printed, program.step false = (program.assign assigned).advance line printed := by
  have hmem := hplaced.mem_numbers hpc
  obtain ⟨effect, heffect⟩ := exists_effectAt? hmem false
  obtain ⟨statement, hstored, rfl⟩ := Option.map_eq_some_iff.mp heffect
  rw [step_of_effectAt? hpc heffect] at hok ⊢
  rcases Statement.effect_of_isPlain (hplain _ (Listing.mem_of_get? hstored)) program.bindings with
    ⟨assigned, printed, hpasses⟩ | ⟨fault, hfails⟩
  · refine ⟨assigned, printed, ?_⟩
    rw [hpasses, perform, advance]
    split <;> rfl
  · rw [hfails] at hok
    cases hok

end Program

namespace Pass

variable {pass next : Pass} {line : LineNumber} {values : List (String × Value)}
  {supplies : List (List (String × Value))}

theorem program_of_next? (h : pass.next? values = some next) :
    next.program = pass.reply.2.storeAll values := by
  unfold next? at h
  split at h
  next heq => cases h; rw [heq]
  next heq => cases h; rw [heq]
  next => cases h
  next => cases h

theorem endsNow_of_next?_eq_none (h : pass.next? values = none) : pass.EndsNow := by
  unfold next? at h
  unfold EndsNow
  generalize pass.reply = reply at h ⊢
  obtain ⟨fault | printed | printed | name, after⟩ := reply
  · exact .inr ⟨fault, rfl⟩
  · exact .inl ⟨printed, rfl⟩
  · cases h
  · cases h

theorem next?_of_pc_eq_none (h : pass.program.pc = none) (values : List (String × Value)) :
    pass.next? values = none := by
  simp [next?, reply, Program.step, h]

/-- The next step passes over the line that asked, or is on a higher line. -/
theorem next?_cases (hplaced : pass.program.WellPlaced)
    (hforward : pass.program.listing.JumpsForward) (h : pass.next? values = some next) :
    ∃ line, pass.program.pc = some line ∧
      ((pass.skip = false ∧ next.skip = true ∧ next.program.pc = some line) ∨
        (next.skip = false ∧ ∃ number, next.program.pc = some number ∧ line < number)) := by
  have hprogram := program_of_next? h
  unfold next? at h
  split at h
  next printed after hreply =>
    cases h
    have hstep : (pass.program.step pass.skip).1 = .ok (.advanced printed) := congrArg Prod.fst hreply
    obtain ⟨line, number, hpc, hnumber, hlt⟩ := hplaced.lt_of_step hforward hstep
    refine ⟨line, hpc, .inr ⟨rfl, number, ?_, hlt⟩⟩
    rw [hprogram, Program.storeAll_pc]
    exact hnumber
  next name after hreply =>
    cases h
    obtain ⟨line, hpc, -, rfl⟩ := Program.step_awaiting hreply
    refine ⟨line, hpc, .inl ⟨?_, rfl, ?_⟩⟩
    · exact Program.skip_eq_false_of_awaiting (congrArg Prod.fst hreply)
    · rw [Program.storeAll_pc, hpc]
  next => cases h
  next => cases h

theorem wellPlaced_of_next? (hplaced : pass.program.WellPlaced) (h : pass.next? values = some next) :
    next.program.WellPlaced ∧ next.program.listing = pass.program.listing := by
  rw [program_of_next? h, Program.storeAll_listing]
  exact ⟨(hplaced.step pass.skip).storeAll values, Program.step_listing pass.program pass.skip⟩

/-! ### What is ahead -/

theorem ahead_of_waiting (hskip : pass.skip = true) (hpc : pass.program.pc = some line) :
    pass.ahead = pass.program.listing.numbers.filter (line < ·) := by
  simp [ahead, hskip, hpc]

theorem ahead_of_pc (hskip : pass.skip = false) (hpc : pass.program.pc = some line) :
    pass.ahead = pass.program.listing.numbers.filter (line ≤ ·) := by
  simp [ahead, hskip, hpc]

theorem ahead_eq_cons (hplaced : pass.program.WellPlaced) (hskip : pass.skip = false)
    (hpc : pass.program.pc = some line) :
    pass.ahead = line :: pass.program.listing.numbers.filter (line < ·) := by
  rw [ahead_of_pc hskip hpc,
    Listing.filter_le_eq_cons hplaced.numbered.ascending (hplaced.mem_numbers hpc)]

theorem ahead_of_pc_eq_none (h : pass.program.pc = none) : pass.ahead = [] := by
  simp [ahead, h]

theorem line?_of_pc (hskip : pass.skip = false) : pass.line? = pass.program.pc := by
  simp [line?, hskip]

theorem line?_of_waiting (hskip : pass.skip = true) : pass.line? = none := by
  simp [line?, hskip]

theorem line?_sublist_ahead (hplaced : pass.program.WellPlaced) :
    pass.line?.toList.Sublist pass.ahead := by
  cases hskip : pass.skip with
  | true => simp [line?_of_waiting hskip]
  | false =>
      rw [line?_of_pc hskip]
      cases hpc : pass.program.pc with
      | none => exact List.nil_sublist _
      | some line =>
          rw [ahead_eq_cons hplaced hskip hpc]
          exact (List.nil_sublist _).cons_cons line

/-- The line of a step and all that is ahead after it are among what was ahead before it. -/
theorem line?_append_sublist_ahead (hplaced : pass.program.WellPlaced)
    (hforward : pass.program.listing.JumpsForward) (h : pass.next? values = some next) :
    (pass.line?.toList ++ next.ahead).Sublist pass.ahead := by
  have hlisting := (wellPlaced_of_next? hplaced h).2
  obtain ⟨line, hpc, ⟨hskip, hnext, hnextPc⟩ | ⟨hnext, number, hnextPc, hlt⟩⟩ :=
    next?_cases hplaced hforward h
  · rw [line?_of_pc hskip, hpc, ahead_eq_cons hplaced hskip hpc, ahead_of_waiting hnext hnextPc,
      hlisting]
    exact List.Sublist.refl _
  · have hhigher := pass.program.listing.filter_le_sublist_filter_lt hlt
    rw [ahead_of_pc hnext hnextPc, hlisting]
    cases hskip : pass.skip with
    | true =>
        rw [line?_of_waiting hskip, ahead_of_waiting hskip hpc]
        exact hhigher
    | false =>
        rw [line?_of_pc hskip, hpc, ahead_eq_cons hplaced hskip hpc]
        exact hhigher.cons_cons line

/-! ### Whole passes -/

theorem executed_cons (values : List (String × Value)) (supplies : List (List (String × Value)))
    (pass : Pass) :
    pass.executed (values :: supplies) =
      pass.line?.toList ++ (pass.next? values).elim [] (executed supplies) := by
  unfold executed
  rw [stages]
  cases hline : pass.line? with
  | none =>
      rw [List.filterMap_cons_none hline]
      cases pass.next? values <;> rfl
  | some line =>
      rw [List.filterMap_cons_some hline]
      cases pass.next? values <;> rfl

theorem executed_nil (pass : Pass) : pass.executed [] = pass.line?.toList := by
  unfold executed
  rw [stages]
  cases hline : pass.line? with
  | none => rw [List.filterMap_cons_none hline]; rfl
  | some line => rw [List.filterMap_cons_some hline]; rfl

theorem executed_of_pc_eq_none (h : pass.program.pc = none)
    (supplies : List (List (String × Value))) : pass.executed supplies = [] := by
  have hline : pass.line? = none := by simp [line?, h]
  cases supplies with
  | nil => rw [executed_nil, hline]; rfl
  | cons values supplies => rw [executed_cons, hline, next?_of_pc_eq_none h]; rfl

/-- A pass executes lines that are ahead of it, in their order and each at most once. -/
theorem executed_sublist_ahead (hplaced : pass.program.WellPlaced)
    (hforward : pass.program.listing.JumpsForward) (supplies : List (List (String × Value))) :
    (pass.executed supplies).Sublist pass.ahead := by
  induction supplies generalizing pass with
  | nil =>
      rw [executed_nil]
      exact line?_sublist_ahead hplaced
  | cons values supplies ih =>
      rw [executed_cons]
      cases hnext : pass.next? values with
      | none =>
          rw [Option.elim_none, List.append_nil]
          exact line?_sublist_ahead hplaced
      | some next =>
          obtain ⟨hnextPlaced, hlisting⟩ := wellPlaced_of_next? hplaced hnext
          have hrest := ih hnextPlaced (hlisting ▸ hforward)
          exact ((List.Sublist.refl _).append hrest).trans
            (line?_append_sublist_ahead hplaced hforward hnext)

/-- An upper bound for the number of steps that are left. -/
def stepsAhead (pass : Pass) : Nat := 2 * pass.ahead.length + if pass.skip then 1 else 0

theorem stepsAhead_lt (hplaced : pass.program.WellPlaced)
    (hforward : pass.program.listing.JumpsForward) (h : pass.next? values = some next) :
    next.stepsAhead < pass.stepsAhead := by
  have hlength := (line?_append_sublist_ahead hplaced hforward h).length_le
  obtain ⟨line, hpc, hcases⟩ := next?_cases hplaced hforward h
  rw [List.length_append] at hlength
  unfold stepsAhead
  cases hskip : pass.skip with
  | false =>
      rw [line?_of_pc hskip, hpc, Option.toList_some, List.length_singleton] at hlength
      split <;> omega
  | true =>
      have hnext : next.skip = false := by
        rcases hcases with ⟨hfalse, -⟩ | ⟨hnext, -⟩
        · rw [hskip] at hfalse
          cases hfalse
        · exact hnext
      rw [hnext]
      simp only [if_true, Bool.false_eq_true, if_false]
      omega

theorem exists_endsNow (hplaced : pass.program.WellPlaced)
    (hforward : pass.program.listing.JumpsForward) (hcount : pass.stepsAhead ≤ supplies.length) :
    ∃ stage ∈ pass.stages supplies, stage.EndsNow := by
  induction supplies generalizing pass with
  | nil =>
      refine ⟨pass, List.mem_cons_self, endsNow_of_next?_eq_none (next?_of_pc_eq_none ?_ [])⟩
      cases hpc : pass.program.pc with
      | none => rfl
      | some line =>
          exfalso
          unfold stepsAhead at hcount
          cases hskip : pass.skip with
          | true => simp [hskip] at hcount
          | false => simp [ahead_eq_cons hplaced hskip hpc] at hcount
  | cons values supplies ih =>
      rw [stages]
      cases hnext : pass.next? values with
      | none => exact ⟨pass, List.mem_cons_self, endsNow_of_next?_eq_none hnext⟩
      | some next =>
          obtain ⟨hnextPlaced, hlisting⟩ := wellPlaced_of_next? hplaced hnext
          have hlt := stepsAhead_lt hplaced hforward hnext
          obtain ⟨stage, hstage, hends⟩ := ih hnextPlaced (hlisting ▸ hforward) (by
            rw [List.length_cons] at hcount
            omega)
          exact ⟨stage, List.mem_cons_of_mem _ hstage, hends⟩

/-- A plain line that does not fail takes itself off what is ahead, and nothing else. -/
theorem ahead_of_isPlain (hplaced : pass.program.WellPlaced)
    (hplain : pass.program.listing.IsPlain) (hskip : pass.skip = false)
    (hpc : pass.program.pc = some line) (hok : pass.reply.1.isOk = true)
    (values : List (String × Value)) :
    pass.ahead = line :: (pass.next? values).elim [] ahead ∧
      ∀ next, pass.next? values = some next → next.skip = false := by
  rw [reply, hskip] at hok
  obtain ⟨assigned, printed, hstep⟩ := Program.exists_step_eq_advance hplaced hplain hpc hok
  have hreply : pass.reply = (pass.program.assign assigned).advance line printed := by
    rw [reply, hskip, hstep]
  have hlisting := Program.assign_listing pass.program assigned
  have hascending := hlisting ▸ hplaced.numbered.ascending
  have hmem := hlisting ▸ hplaced.mem_numbers hpc
  rw [ahead_eq_cons hplaced hskip hpc]
  cases hafter : pass.program.listing.after? line with
  | none =>
      rw [Program.advance_of_after?_eq_none hascending hmem (hlisting ▸ hafter)] at hreply
      have hnext : pass.next? values = none := by rw [next?, hreply]
      rw [hnext, Listing.filter_lt_of_after?_eq_none hafter]
      exact ⟨rfl, nofun⟩
  | some number =>
      rw [Program.advance_of_after?_eq_some hascending hmem (hlisting ▸ hafter)] at hreply
      obtain ⟨next, hnext, hnextSkip, hnextPc⟩ : ∃ next, pass.next? values = some next ∧
          next.skip = false ∧ next.program.pc = some number := by
        refine ⟨_, by rw [next?, hreply], rfl, ?_⟩
        rw [Program.storeAll_pc]
      rw [hnext, Option.elim_some, ahead_of_pc hnextSkip hnextPc, (wellPlaced_of_next? hplaced hnext).2,
        Listing.filter_lt_of_after?_eq_some hplaced.numbered.ascending hafter]
      refine ⟨rfl, fun other hother => ?_⟩
      cases hother
      exact hnextSkip

/-- A pass whose lines only go on executes all that are ahead of it. -/
theorem executed_eq_ahead (hplaced : pass.program.WellPlaced)
    (hplain : pass.program.listing.IsPlain) (hskip : pass.skip = false)
    (hcount : pass.ahead.length ≤ supplies.length)
    (hok : ∀ stage ∈ pass.stages supplies, stage.reply.1.isOk = true) :
    pass.executed supplies = pass.ahead := by
  induction supplies generalizing pass with
  | nil =>
      have hsublist := executed_sublist_ahead hplaced hplain.jumpsForward []
      rw [List.eq_nil_of_length_eq_zero (Nat.eq_zero_of_le_zero hcount)] at hsublist ⊢
      exact List.sublist_nil.mp hsublist
  | cons values supplies ih =>
      cases hpc : pass.program.pc with
      | none => rw [executed_of_pc_eq_none hpc, ahead_of_pc_eq_none hpc]
      | some line =>
          have hself := hok pass (by rw [stages]; exact List.mem_cons_self)
          obtain ⟨hahead, hskips⟩ := ahead_of_isPlain hplaced hplain hskip hpc hself values
          rw [executed_cons, line?_of_pc hskip, hpc, hahead]
          cases hnext : pass.next? values with
          | none => rfl
          | some next =>
              obtain ⟨hnextPlaced, hlisting⟩ := wellPlaced_of_next? hplaced hnext
              have hrest : next.executed supplies = next.ahead := by
                apply ih hnextPlaced (hlisting ▸ hplain) (hskips next hnext)
                · rw [hahead, hnext] at hcount
                  exact Nat.le_of_succ_le_succ hcount
                · intro stage hstage
                  apply hok stage
                  rw [stages, hnext]
                  exact List.mem_cons_of_mem _ hstage
              exact congrArg (line :: ·) hrest

end Pass

end NumberedBasic
