import NumberedBasic.Proofs.Program.Pass
import NumberedBasic.Proofs.Session.Slicing

/-!
# Programs that end

A program whose jumps all go forward is through after as many lines as it has. A slice of that many
cycles is therefore never used up.
-/

namespace NumberedBasic

namespace Session

variable {session : Session} {cycles : Nat}

/-- A slice that is used up has a line left for each of its cycles, and one more. -/
theorem cycles_lt_ahead (hplaced : session.program.WellPlaced)
    (hforward : session.program.listing.JumpsForward) {line : LineNumber}
    (hpc : session.program.pc = some line) (hrunning : (cycle cycles session).1 = .running) :
    cycles < (Pass.ahead { program := session.program }).length := by
  rw [Pass.ahead_eq_cons hplaced rfl hpc]
  induction cycles generalizing session line with
  | zero => exact Nat.succ_pos _
  | succ cycles ih =>
      rcases cycle_cases session with ⟨after, hreply, heq⟩ | ⟨result, hloud, heq⟩
      · rw [heq] at hrunning
        have hafter : (session.program.step session.resume).2 = after := congrArg Prod.snd hreply
        have hafterPlaced : after.WellPlaced := hafter ▸ hplaced.step session.resume
        have hlisting : after.listing = session.program.listing :=
          hafter ▸ Program.step_listing session.program session.resume
        obtain ⟨start, number, hstart, hnumber, hlt⟩ :=
          hplaced.lt_of_step hforward (congrArg Prod.fst hreply)
        obtain rfl : start = line := Option.some.inj (hstart.symm.trans hpc)
        rw [hafter] at hnumber
        have hrest := ih hafterPlaced (hlisting ▸ hforward) hnumber hrunning
        have hhigher := (session.program.listing.filter_le_sublist_filter_lt hlt).length_le
        rw [← Listing.filter_le_eq_cons hafterPlaced.numbered.ascending
          (hafterPlaced.mem_numbers hnumber), hlisting] at hrest
        exact Nat.succ_lt_succ (Nat.lt_of_lt_of_le hrest hhigher)
      · rw [heq] at hrunning
        exact absurd hrunning hloud

theorem execute_ne_running (h : session.Reachable Program.Reachable)
    (hforward : session.program.listing.JumpsForward) (hpositive : 1 ≤ cycles)
    (hcycles : session.program.listing.size ≤ cycles) : (session.execute cycles).1 ≠ .running := by
  intro hrunning
  have hplaced := h.program.wellPlaced
  have hactive := isActive_of_execute h.running_notMem hrunning
  rw [execute_of_isActive hactive] at hrunning
  cases hpc : session.program.pc with
  | none =>
      obtain ⟨count, rfl⟩ := Nat.exists_eq_add_of_le' hpositive
      rw [cycle_succ] at hrunning
      simp [Program.step, hpc, settle] at hrunning
  | some line =>
      have hlt := cycles_lt_ahead hplaced hforward hpc hrunning
      have hle : (Pass.ahead { program := session.program }).length ≤ session.program.listing.size := by
        have hfilter := List.length_filter_le (line ≤ ·) session.program.listing.numbers
        rw [Pass.ahead_of_pc rfl hpc]
        rwa [Listing.numbers, List.length_map] at hfilter
      omega

/-- Where all jumps go forward a pass executes lines in ascending order, and ends. Where there are only
plain lines and none of them fails, it executes all of them. -/
theorem forward_passes_end :
    (∀ program : Program, program.Reachable → program.listing.JumpsForward →
      ∀ pc : Option LineNumber, (∀ line ∈ pc, line ∈ program.listing.numbers) →
        ∀ supplies : List (List (String × Value)),
          let pass : Pass := { program := { program with pc } }
          (pass.executed supplies).Pairwise (· < ·) ∧
            (pass.executed supplies).length ≤ pass.ahead.length ∧
            (2 * pass.ahead.length ≤ supplies.length → ∃ stage ∈ pass.stages supplies, stage.EndsNow)) ∧
    (∀ program : Program, program.Reachable → program.listing.IsPlain →
      ∀ pc : Option LineNumber, (∀ line ∈ pc, line ∈ program.listing.numbers) →
        ∀ supplies : List (List (String × Value)),
          let pass : Pass := { program := { program with pc } }
          pass.ahead.length ≤ supplies.length →
            (∀ stage ∈ pass.stages supplies, stage.reply.1.isOk) →
            pass.executed supplies = pass.ahead ∧ pass.ahead.Pairwise (· < ·)) ∧
    ∀ session : Session, session.Reachable Program.Reachable →
      session.program.listing.JumpsForward →
        ∀ cycles, 1 ≤ cycles → session.program.listing.size ≤ cycles →
          (session.execute cycles).1 ≠ .running := by
  refine ⟨?_, ?_, ?_⟩
  · intro program h hforward pc hpc supplies pass
    cases pc with
    | none =>
        have hnone : pass.program.pc = none := rfl
        rw [Pass.executed_of_pc_eq_none hnone]
        refine ⟨List.Pairwise.nil, Nat.zero_le _, fun _ => ⟨pass, ?_, ?_⟩⟩
        · cases supplies <;> exact List.mem_cons_self
        · exact Pass.endsNow_of_next?_eq_none (Pass.next?_of_pc_eq_none hnone [])
    | some line =>
        have hplaced : pass.program.WellPlaced := h.wellPlaced.moved (hpc line rfl)
        have hsublist := Pass.executed_sublist_ahead hplaced hforward supplies
        refine ⟨?_, hsublist.length_le, ?_⟩
        · exact (h.wellPlaced.numbered.ascending.numbers.filter _).sublist hsublist
        · exact fun hcount => Pass.exists_endsNow hplaced hforward hcount
  · intro program h hplain pc hpc supplies pass hcount hok
    refine ⟨?_, h.wellPlaced.numbered.ascending.numbers.filter _⟩
    cases pc with
    | none =>
        have hnone : pass.program.pc = none := rfl
        rw [Pass.executed_of_pc_eq_none hnone, Pass.ahead_of_pc_eq_none hnone]
    | some line =>
        have hplaced : pass.program.WellPlaced := h.wellPlaced.moved (hpc line rfl)
        exact Pass.executed_eq_ahead hplaced hplain rfl hcount hok
  · intro session h hforward cycles hpositive hcycles
    exact execute_ne_running h hforward hpositive hcycles

/-- A line that asks, a jump into the middle, and a line that is never reached. -/
def descending : Listing :=
  ⟨[(10, .input "A"), (20, .branch (.var "A") .greater (.constant 3) 40), (30, .print (.var "A")),
    (40, .goto 60), (50, .finish), (60, .print (.compound .multiply (.var "A") (.var "A")))]⟩

def typed : List Call :=
  [.enter "10 INPUT A", .enter "20 IF A > 3 THEN 40", .enter "30 PRINT A", .enter "40 GOTO 60",
    .enter "50 END", .enter "60 PRINT A * A", .enter "RUN", .execute 6, .enter "5"]

def plainLines : Listing :=
  ⟨[(10, .print (.var "B")), (20, .remark "three"), (30, .assign "B" (.constant 3))]⟩

theorem forward_passes_end_descending :
    let pass : Pass := { program := { listing := descending, pc := some 10 } }
    let supplies := [("A", 5)] :: List.replicate 11 []
    let plain : Pass := { program := { listing := plainLines, pc := some 20 } }
    pass.executed supplies = [10, 20, 40, 60] ∧
      (pass.executed supplies).length ≤ pass.ahead.length ∧
      (∃ stage ∈ pass.stages supplies, stage.EndsNow) ∧
      plain.executed [[], []] = plain.ahead ∧ plain.ahead = [20, 30] ∧
      ((Session.replies {} typed).2.execute 6).1 = .print "25" ∧
      ((Session.replies {} typed).2.execute 6).1 ≠ .running := by
  intro pass supplies plain
  obtain ⟨hforward, hplain, hsession⟩ := forward_passes_end
  have hjumps : descending.JumpsForward := by
    simp [Listing.JumpsForward, descending, Statement.target?]
  have hlines : plainLines.IsPlain := by simp [Listing.IsPlain, plainLines, Statement.isPlain]
  have hdescending := Program.Reachable.initial.replies
    (descending.lines.map fun entry => .insert entry.1 (some entry.2))
  have hplainLines := Program.Reachable.initial.replies
    (plainLines.lines.map fun entry => .insert entry.1 (some entry.2))
  obtain ⟨-, hlength, hends⟩ :=
    hforward _ hdescending hjumps (some 10) (by rintro _ ⟨⟩; decide) supplies
  have htyped : (Session.replies {} typed).2.Reachable Program.Reachable := by
    apply Reachable.initial.replies
    simp [typed, Call.Installs]
  have hlisting : (Session.replies {} typed).2.program.listing = descending := by decide +kernel
  refine ⟨by decide +kernel, hlength, hends (by decide), ?_, by decide, by decide +kernel, ?_⟩
  · exact (hplain _ hplainLines hlines (some 20) (by rintro _ ⟨⟩; decide) [[], []] (by decide)
      (by decide +kernel)).1
  · exact hsession _ htyped (hlisting ▸ hjumps) 6 (by decide) (by rw [hlisting]; decide)

end Session

end NumberedBasic
