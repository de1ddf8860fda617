import Mathlib.Data.List.Find
import Mathlib.Data.List.Forall2
import NumberedBasic.Proofs.Program.Counter
import NumberedBasic.Proofs.Program.Effect

/-!
# Renumbering commutes with execution

A program uses its line numbers in two ways only: they are compared with each other, and looked up. A
map that keeps the order of the stored lines and confuses no line or target with another is therefore
not noticed, except in the numbers that a fault names.
-/

namespace NumberedBasic

variable {f : LineNumber → LineNumber}

/-! ### Listings -/

namespace Listing

variable {listing : Listing} {line target : LineNumber}

theorem numbers_renumber (f : LineNumber → LineNumber) (listing : Listing) :
    (listing.renumber f).numbers = listing.numbers.map f := by
  unfold numbers renumber
  rw [List.map_map, List.map_map]
  rfl

theorem first?_renumber (f : LineNumber → LineNumber) (listing : Listing) :
    (listing.renumber f).first? = listing.first?.map f := by
  rw [first?, numbers_renumber, List.head?_map, first?]

/-- A number is found again under its new number, unless that is also the new number of a stored one. -/
theorem get?_renumber (hother : ∀ other ∈ listing.numbers, f line = f other → line = other) :
    (listing.renumber f).get? (f line) = (listing.get? line).map (Statement.retarget f) := by
  obtain ⟨lines⟩ := listing
  simp only [renumber, get?, numbers] at hother ⊢
  induction lines with
  | nil => rfl
  | cons entry rest ih =>
      obtain ⟨number, statement⟩ := entry
      rw [List.map_cons, List.forall_mem_cons] at hother
      obtain ⟨hnumber, hrest⟩ := hother
      rw [List.map_cons, List.lookup_cons, List.lookup_cons]
      by_cases heq : line = number
      · subst heq
        simp
      · have hmoved : f line ≠ f number := fun h => heq (hnumber h)
        rw [beq_eq_false_iff_ne.mpr heq, beq_eq_false_iff_ne.mpr hmoved]
        exact ih hrest

namespace IsRenumbering

theorem get?_eq (h : listing.IsRenumbering f) (hline : line ∈ listing.numbers ++ listing.targets) :
    (listing.renumber f).get? (f line) = (listing.get? line).map (Statement.retarget f) := by
  apply get?_renumber
  intro other hother heq
  exact h.injective line hline other (List.mem_append_left _ hother) heq

theorem lt_iff (h : listing.IsRenumbering f) {other : LineNumber} (hline : line ∈ listing.numbers)
    (hother : other ∈ listing.numbers) : f line < f other ↔ line < other := by
  constructor
  · intro hlt
    apply UInt32.not_le.mp
    intro hle
    rcases UInt32.le_iff_lt_or_eq.mp hle with hbelow | heq
    · exact UInt32.lt_asymm hlt (h.increasing other hother line hline hbelow)
    · rw [heq] at hlt
      exact UInt32.lt_irrefl _ hlt
  · exact h.increasing line hline other hother

theorem after?_eq (h : listing.IsRenumbering f) (hline : line ∈ listing.numbers) :
    (listing.renumber f).after? (f line) = (listing.after? line).map f := by
  rw [after?, numbers_renumber, List.find?_map, after?]
  congr 1
  apply List.find?_congr
  intro other hother
  exact decide_eq_decide.mpr (h.lt_iff hline hother)

theorem wellNumbered (h : listing.IsRenumbering f) (hnumbered : listing.WellNumbered) :
    (listing.renumber f).WellNumbered := by
  constructor
  · have hnumbers : (listing.numbers.map f).Pairwise (· < ·) := by
      rw [List.pairwise_map]
      apply hnumbered.ascending.numbers.imp_of_mem
      intro line other hline hother hlt
      exact h.increasing line hline other hother hlt
    rw [← numbers_renumber] at hnumbers
    exact List.pairwise_map.mp hnumbers
  · rw [numbers_renumber, List.mem_map]
    rintro ⟨line, hline, hzero⟩
    exact h.positive line hline hzero

end IsRenumbering

end Listing

/-! ### Faults and effects -/

theorem Fault.Renumbered.inLine {fault moved : Fault} (h : Fault.Renumbered f fault moved)
    (line : LineNumber) : Renumbered f (fault.inLine (some line)) (moved.inLine (some (f line))) := by
  cases h with
  | target target tag =>
      cases tag with
      | none =>
          rw [Fault.inLine_none, Option.map_none, Fault.inLine_none]
          exact .target target (some line)
      | some tag => exact .target target (some tag)
  | other hcode =>
      obtain ⟨code, tag, detail⟩ := fault
      cases tag with
      | none => exact @Renumbered.other f ⟨code, some line, detail⟩ hcode
      | some tag => exact @Renumbered.other f ⟨code, some tag, detail⟩ hcode

theorem Program.ResultRenumbered.inLine {α : Type} {result moved : Except Fault α}
    (h : ResultRenumbered f result moved) (line : LineNumber) :
    ResultRenumbered f (result.mapError (·.inLine (some line)))
      (moved.mapError (·.inLine (some (f line)))) := by
  cases h with
  | ok result => exact .ok result
  | error hfault => exact .error (hfault.inLine line)

def Effect.retarget (f : LineNumber → LineNumber) : Effect → Effect
  | jumps target => jumps (f target)
  | effect => effect

theorem Statement.effect_retarget (f : LineNumber → LineNumber) (bindings : Bindings)
    (statement : Statement) :
    (statement.retarget f).effect bindings = (statement.effect bindings).retarget f := by
  cases statement with
  | assign name e | print e =>
      simp only [retarget, effect]
      cases e.evaluate bindings <;> rfl
  | branch lhs comparator rhs target =>
      rw [retarget, effect, effect]
      cases lhs.evaluate bindings with
      | error fault => rfl
      | ok left =>
          cases rhs.evaluate bindings with
          | error fault => rfl
          | ok right =>
              dsimp only
              split <;> rfl
  | remark _ | input _ | goto _ | finish => rfl

namespace Program

variable {program : Program} {line : LineNumber} {skip : Bool} {effect : Effect}

/-! ### One call -/

/-- The reply to a call when the lines have moved. -/
structure ReplyRenumbered (f : LineNumber → LineNumber) {α : Type} (reply moved : Reply α) : Prop where
  result : ResultRenumbered f reply.1 moved.1
  program : moved.2 = reply.2.renumber f

theorem effectAt?_renumber (h : program.listing.IsRenumbering f)
    (hline : line ∈ program.listing.numbers) (skip : Bool) :
    (program.renumber f).effectAt? (f line) skip =
      (program.effectAt? line skip).map (Effect.retarget f) := by
  cases skip with
  | true => rfl
  | false =>
      have hget := h.get?_eq (List.mem_append_left _ hline)
      change ((program.listing.renumber f).get? (f line)).map (·.effect program.bindings) =
        ((program.listing.get? line).map (·.effect program.bindings)).map (Effect.retarget f)
      rw [hget, Option.map_map, Option.map_map]
      congr 1
      funext statement
      exact Statement.effect_retarget f program.bindings statement

theorem rewind_renumber (f : LineNumber → LineNumber) (program : Program) :
    (program.renumber f).rewind = program.rewind.renumber f := by
  have hfirst := Listing.first?_renumber f program.listing
  simp only [rewind, renumber, hfirst]

theorem replyRenumbered_advance (h : program.listing.IsRenumbering f)
    (hnumbered : program.listing.WellNumbered) (hline : line ∈ program.listing.numbers)
    (printed : Option Value) :
    ReplyRenumbered f (program.advance line printed)
      ((program.renumber f).advance (f line) printed) := by
  have hmoved : f line ∈ (program.renumber f).listing.numbers := by
    rw [renumber, Listing.numbers_renumber]
    exact List.mem_map_of_mem hline
  have hascending := (h.wellNumbered hnumbered).ascending
  have hafter := h.after?_eq hline
  cases hnext : program.listing.after? line with
  | none =>
      rw [hnext] at hafter
      rw [advance_of_after?_eq_none hnumbered.ascending hline hnext,
        advance_of_after?_eq_none hascending hmoved hafter]
      exact ⟨.ok _, rewind_renumber f program⟩
  | some next =>
      rw [hnext] at hafter
      rw [advance_of_after?_eq_some hnumbered.ascending hline hnext,
        advance_of_after?_eq_some hascending hmoved hafter]
      exact ⟨.ok _, rfl⟩

theorem replyRenumbered_jump (h : program.listing.IsRenumbering f) {target : LineNumber}
    (htarget : target ∈ program.listing.targets) :
    ReplyRenumbered f (program.jump target) ((program.renumber f).jump (f target)) := by
  have hstored : ((program.renumber f).listing.get? (f target)).isSome =
      (program.listing.get? target).isSome := by
    rw [renumber, h.get?_eq (List.mem_append_right _ htarget), Option.isSome_map]
  rw [jump, jump, Listing.resolve, Listing.resolve, hstored]
  cases (program.listing.get? target).isSome with
  | true => exact ⟨.ok _, rfl⟩
  | false => exact ⟨.error (.target target none), rfl⟩

theorem replyRenumbered_perform (h : program.listing.IsRenumbering f)
    (hnumbered : program.listing.WellNumbered) (hline : line ∈ program.listing.numbers)
    (heffect : program.effectAt? line skip = some effect) :
    ReplyRenumbered f (program.perform line effect)
      ((program.renumber f).perform (f line) (effect.retarget f)) := by
  cases effect with
  | passes assigned printed =>
      have hassign : (program.renumber f).assign assigned = (program.assign assigned).renumber f := by
        cases assigned <;> rfl
      change ReplyRenumbered f ((program.assign assigned).advance line printed)
        (((program.renumber f).assign assigned).advance (f line) printed)
      rw [hassign]
      apply replyRenumbered_advance
      · rwa [assign_listing]
      · rwa [assign_listing]
      · rwa [assign_listing]
  | jumps target => exact replyRenumbered_jump h (mem_targets_of_effectAt? heffect)
  | finishes => exact ⟨.ok _, rewind_renumber f program⟩
  | awaits name => exact ⟨.ok _, rfl⟩
  | fails fault =>
      refine ⟨.error ?_, rfl⟩
      rcases fault_of_effectAt? heffect with ⟨name, rfl⟩ | rfl | rfl
      all_goals exact .other Fault.Code.noConfusion

theorem replyRenumbered_step (h : program.listing.IsRenumbering f) (hplaced : program.WellPlaced)
    (skip : Bool) : ReplyRenumbered f (program.step skip) ((program.renumber f).step skip) := by
  cases hpc : program.pc with
  | none =>
      have hmoved : (program.renumber f).pc = none := by rw [renumber, hpc, Option.map_none]
      rw [step, hpc, step, hmoved]
      exact ⟨.ok _, rfl⟩
  | some line =>
      have hmoved : (program.renumber f).pc = some (f line) := by rw [renumber, hpc, Option.map_some]
      have hline := hplaced.mem_numbers hpc
      obtain ⟨effect, heffect⟩ := exists_effectAt? hline skip
      have hother : (program.renumber f).effectAt? (f line) skip = some (effect.retarget f) := by
        rw [effectAt?_renumber h hline, heffect, Option.map_some]
      obtain ⟨hresult, hprogram⟩ := replyRenumbered_perform h hplaced.numbered hline heffect
      rw [step_of_effectAt? hpc heffect, step_of_effectAt? hmoved hother]
      exact ⟨hresult.inLine line, hprogram⟩

/-! ### Runs -/

theorem replyRenumbered_reply (h : program.listing.IsRenumbering f) (hplaced : program.WellPlaced)
    {call : Call} (hcall : call.isOfRun) :
    ReplyRenumbered f (program.reply call) ((program.renumber f).reply call) := by
  cases call with
  | step skip =>
      obtain ⟨hresult, hprogram⟩ := replyRenumbered_step h hplaced skip
      refine ⟨?_, hprogram⟩
      change ResultRenumbered f ((program.step skip).1.map some)
        (((program.renumber f).step skip).1.map some)
      generalize (program.step skip).1 = result, ((program.renumber f).step skip).1 = moved
        at hresult
      cases hresult with
      | ok result => exact .ok (some result)
      | error hfault => exact .error hfault
  | store name value => exact ⟨.ok none, rfl⟩
  | insert _ _ | load _ | carryOutDirectly _ | rewind => cases hcall

theorem wellPlaced_renumber (h : program.listing.IsRenumbering f) (hplaced : program.WellPlaced) :
    (program.renumber f).WellPlaced := by
  refine ⟨h.wellNumbered hplaced.numbered, ?_⟩
  change ((program.pc.map f = none ∧ (program.listing.renumber f).numbers = []) ∨
    ∃ line ∈ (program.listing.renumber f).numbers, program.pc.map f = some line)
  rw [Listing.numbers_renumber]
  rcases hplaced.counter with ⟨hpc, hnumbers⟩ | ⟨line, hline, hpc⟩
  · exact .inl ⟨by rw [hpc, Option.map_none], by rw [hnumbers, List.map_nil]⟩
  · exact .inr ⟨f line, List.mem_map_of_mem hline, by rw [hpc, Option.map_some]⟩

theorem renumbered_replies (h : program.listing.IsRenumbering f) (hplaced : program.WellPlaced)
    {calls : List Call} (hcalls : ∀ call ∈ calls, call.isOfRun) :
    List.Forall₂ (ResultRenumbered f) (program.replies calls).1
        ((program.renumber f).replies calls).1 ∧
      ((program.renumber f).replies calls).2 = (program.replies calls).2.renumber f := by
  induction calls generalizing program with
  | nil => exact ⟨.nil, rfl⟩
  | cons call rest ih =>
      obtain ⟨hcall, hrest⟩ := List.forall_mem_cons.mp hcalls
      obtain ⟨hresult, hprogram⟩ := replyRenumbered_reply h hplaced hcall
      have hlisting : (program.reply call).2.listing = program.listing := reply_listing hcall
      obtain ⟨hresults, hafter⟩ := ih (hlisting ▸ h) (hplaced.reply call) hrest
      rw [replies, replies, hprogram]
      exact ⟨.cons hresult hresults, hafter⟩

/-- Moving the lines of a program and then running it is the same as running it and then moving its
lines. The numbers that its faults name move along, and nothing else of the replies changes. -/
theorem renumber_replies (hreachable : program.Reachable) (hf : program.listing.IsRenumbering f)
    {calls : List Call} (hcalls : ∀ call ∈ calls, call.isOfRun) :
    (program.renumber f).WellPlaced ∧
      List.Forall₂ (ResultRenumbered f) (program.replies calls).1
        ((program.renumber f).replies calls).1 ∧
      ((program.renumber f).replies calls).2 = (program.replies calls).2.renumber f :=
  ⟨wellPlaced_renumber hf hreachable.wellPlaced,
    renumbered_replies hf hreachable.wellPlaced hcalls⟩

/-- A loop that asks, prints and jumps back, until an answer sends it to a line that is missing. -/
theorem renumber_replies_missing_line :
    let f : LineNumber → LineNumber := fun line => 2 * line + 5
    let program := (Program.replies {}
      [.insert 40 (some (.goto 10)), .insert 30 (some (.print (.var "A"))),
        .insert 20 (some (.branch (.var "A") .greater (.constant 3) 50)),
        .insert 10 (some (.input "A"))]).2
    let calls := [.step false, .store "A" 2, .step true, .step false, .step false, .step false,
      .step false, .store "A" 5, .step true, .step false]
    program.Reachable ∧ program.listing.IsRenumbering f ∧ (∀ call ∈ calls, call.isOfRun) ∧
      (program.replies calls).2.pc = some 20 ∧
      ((program.renumber f).replies calls).2.pc = some 45 ∧
      List.Forall₂ (ResultRenumbered f) (program.replies calls).1
        ((program.renumber f).replies calls).1 ∧
      Fault.Renumbered f ((Fault.undefinedLine 50).inLine (some 20))
        ((Fault.undefinedLine 105).inLine (some 45)) := by
  intro f program calls
  have hreachable : program.Reachable := Reachable.initial.replies _
  have hnumbers : program.listing.numbers = [10, 20, 30, 40] := by decide +kernel
  have htargets : program.listing.targets = [50, 10] := by decide +kernel
  have hf : program.listing.IsRenumbering f := by
    constructor
    · rw [hnumbers]
      simp [f]
    · rw [hnumbers, htargets]
      simp [f]
    · rw [hnumbers]
      simp [f]
  have hcalls : ∀ call ∈ calls, call.isOfRun := by decide
  have hrun := renumber_replies hreachable hf hcalls
  have hpc : (program.replies calls).2.pc = some 20 := by decide +kernel
  have hmoved : ((program.renumber f).replies calls).2.pc = some 45 := by
    rw [hrun.2.2, renumber, hpc]
    rfl
  exact ⟨hreachable, hf, hcalls, hpc, hmoved, hrun.2.1, .target 50 (some 20)⟩

end Program

end NumberedBasic
