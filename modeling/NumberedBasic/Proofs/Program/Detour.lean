import NumberedBasic.Proofs.Program.Effect
import NumberedBasic.Proofs.Program.Run

/-!
# Detours

A line to which nothing jumps, and which does no more than go on to the line after it, is a detour: a
run that passes it takes a step more and shows nothing else. The last line is no exception. If the line
is put behind it, then the pass is completed by the second step and not by the first.
-/

namespace NumberedBasic

/-! ### Runs with one step more here and there -/

namespace Run

variable {R : Run → Run → Prop} {run other : Run}

/-- The next step of a run is the next step of the other, or its next two steps together. -/
inductive Keeps (R : Run → Run → Prop) (run other : Run) : Prop where
  | once : other.view = run.view → Option.Rel R run.next? other.next? → Keeps R run other
  | twice {middle : Run} : other.next? = some middle → other.view ++ middle.view = run.view →
      Option.Rel R run.next? middle.next? → Keeps R run other

theorem rel_elim {α β γ : Type} {S : α → β → Prop} {T : List γ → List γ → Prop}
    {first : Option α} {second : Option β} {f : α → List γ} {g : β → List γ}
    (h : Option.Rel S first second) (hnil : T [] []) (hsome : ∀ a b, S a b → T (f a) (g b)) :
    T (first.elim [] f) (second.elim [] g) := by
  cases h with
  | none => exact hnil
  | some hrel => exact hsome _ _ hrel

theorem Keeps.views_prefix_twice (hR : ∀ run other, R run other → Keeps R run other)
    (h : Keeps R run other) (count : Nat) : run.views count <+: other.views (2 * count) := by
  induction count generalizing run other with
  | zero => exact List.nil_prefix
  | succ count ih =>
      have hdouble : 2 * (count + 1) = 2 * count + 1 + 1 := rfl
      rw [hdouble, views_succ, views_succ]
      cases h with
      | once hview hrel =>
          rw [hview, List.prefix_append_right_inj]
          apply rel_elim hrel List.nil_prefix
          intro next after hnext
          exact (ih (hR next after hnext)).trans (views_mono (Nat.le_succ _) after)
      | twice hmiddle hview hrel =>
          rw [hmiddle, Option.elim_some, views_succ, ← List.append_assoc, hview,
            List.prefix_append_right_inj]
          apply rel_elim hrel List.nil_prefix
          intro next after hnext
          exact ih (hR next after hnext)

theorem Keeps.prefix_views (hR : ∀ run other, R run other → Keeps R run other)
    (h : Keeps R run other) (count : Nat) : other.views count <+: run.views count := by
  -- Two steps of the other run may make one, so that the hypothesis is needed two steps back.
  induction count using Nat.strongRecOn generalizing run other with
  | ind count ih =>
      cases count with
      | zero => exact List.nil_prefix
      | succ count =>
          rw [views_succ, views_succ]
          cases h with
          | once hview hrel =>
              rw [hview, List.prefix_append_right_inj]
              apply rel_elim (T := fun first second => second <+: first) hrel List.nil_prefix
              intro next after hnext
              exact ih count (Nat.lt_succ_self count) (hR next after hnext)
          | twice hmiddle hview hrel =>
              rw [hmiddle, Option.elim_some, ← hview, List.append_assoc,
                List.prefix_append_right_inj]
              cases count with
              | zero => exact List.nil_prefix
              | succ count =>
                  rw [views_succ, List.prefix_append_right_inj]
                  apply rel_elim (T := fun first second => second <+: first) hrel List.nil_prefix
                  intro next after hnext
                  exact (ih count (by omega) (hR next after hnext)).trans
                    (views_mono (Nat.le_succ count) next)

end Run

/-! ### Listings with a line more -/

namespace Listing

variable {listing extended : Listing} {line number next : LineNumber}

/-- `extended` is `listing` with one line more, to which nothing jumps, and which does no more than go
on to the line after it. -/
structure Detour (listing extended : Listing) (line : LineNumber) : Prop where
  numbered : listing.WellNumbered
  wellNumbered : extended.WellNumbered
  stored : line ∈ extended.numbers
  unused : line ∉ listing.numbers
  untargeted : line ∉ listing.targets
  others : ∀ other, other ≠ line → extended.get? other = listing.get? other
  idle : ∀ program : Program, program.listing = extended →
    program.executeLine line false = program.advance line none

namespace Detour

theorem ne_of_mem (h : Detour listing extended line) (hmem : number ∈ listing.numbers) :
    number ≠ line := by
  rintro rfl
  exact h.unused hmem

theorem mem_iff (h : Detour listing extended line) :
    number ∈ extended.numbers ↔ number = line ∨ number ∈ listing.numbers := by
  by_cases heq : number = line
  · subst heq
    simp [h.stored]
  · rw [mem_numbers_iff, mem_numbers_iff, h.others number heq]
    simp [heq]

theorem after?_of_none (h : Detour listing extended line)
    (hafter : extended.after? number = none) : listing.after? number = none := by
  rw [after?_eq_none_iff] at hafter ⊢
  intro other hother
  exact hafter other (h.mem_iff.mpr (.inr hother))

theorem after?_of_ne (h : Detour listing extended line)
    (hafter : extended.after? number = some next) (hne : next ≠ line) :
    listing.after? number = some next := by
  rw [after?_eq_some_iff h.wellNumbered.ascending] at hafter
  obtain ⟨hmem, habove, hleast⟩ := hafter
  rw [after?_eq_some_iff h.numbered.ascending]
  refine ⟨(h.mem_iff.mp hmem).resolve_left hne, habove, ?_⟩
  intro other hother
  exact hleast other (h.mem_iff.mpr (.inr hother))

/-- Behind the further line stands what stood behind the line in front of it. -/
theorem after?_of_line (h : Detour listing extended line)
    (hafter : extended.after? number = some line) : extended.after? line = listing.after? number := by
  rw [after?_eq_some_iff h.wellNumbered.ascending] at hafter
  obtain ⟨-, habove, hleast⟩ := hafter
  cases hnext : listing.after? number with
  | none =>
      rw [after?_eq_none_iff] at hnext ⊢
      intro other hother
      rcases h.mem_iff.mp hother with rfl | hother
      · exact UInt32.lt_irrefl _
      · exact fun hlt => hnext other hother (UInt32.lt_trans habove hlt)
  | some next =>
      rw [after?_eq_some_iff h.numbered.ascending] at hnext
      obtain ⟨hmem, hnumber, hnextLeast⟩ := hnext
      rw [after?_eq_some_iff h.wellNumbered.ascending]
      have hstored : next ∈ extended.numbers := h.mem_iff.mpr (.inr hmem)
      have hle : line ≤ next := hleast next hstored hnumber
      refine ⟨hstored, UInt32.lt_of_le_of_ne hle (h.ne_of_mem hmem).symm, ?_⟩
      intro other hother hlt
      rcases h.mem_iff.mp hother with rfl | hother
      · exact absurd hlt (UInt32.lt_irrefl _)
      · exact hnextLeast other hother (UInt32.lt_trans habove hlt)

theorem first?_of_ne (h : Detour listing extended line) (hfirst : extended.first? = some number)
    (hne : number ≠ line) : listing.first? = some number := by
  rw [first?_eq_some_iff h.wellNumbered.ascending] at hfirst
  obtain ⟨hmem, hleast⟩ := hfirst
  rw [first?_eq_some_iff h.numbered.ascending]
  refine ⟨(h.mem_iff.mp hmem).resolve_left hne, ?_⟩
  intro other hother
  exact hleast other (h.mem_iff.mpr (.inr hother))

theorem after?_of_first? (h : Detour listing extended line)
    (hfirst : extended.first? = some line) : extended.after? line = listing.first? := by
  rw [first?_eq_some_iff h.wellNumbered.ascending] at hfirst
  obtain ⟨-, hleast⟩ := hfirst
  cases hnext : listing.first? with
  | none =>
      have hnone : listing.numbers = [] := first?_eq_none_iff.mp hnext
      rw [after?_eq_none_iff]
      intro other hother
      rcases h.mem_iff.mp hother with rfl | hother
      · exact UInt32.lt_irrefl _
      · rw [hnone] at hother
        cases hother
  | some next =>
      rw [first?_eq_some_iff h.numbered.ascending] at hnext
      obtain ⟨hmem, hnextLeast⟩ := hnext
      rw [after?_eq_some_iff h.wellNumbered.ascending]
      have hstored : next ∈ extended.numbers := h.mem_iff.mpr (.inr hmem)
      refine ⟨hstored, UInt32.lt_of_le_of_ne (hleast next hstored) (h.ne_of_mem hmem).symm, ?_⟩
      intro other hother hlt
      rcases h.mem_iff.mp hother with rfl | hother
      · exact absurd hlt (UInt32.lt_irrefl _)
      · exact hnextLeast other hother

end Detour

end Listing

/-! ### The two runs side by side -/

theorem Bindings.fetch?_store_congr {bindings other : Bindings}
    (h : bindings.fetch? = other.fetch?) (name : String) (value : Value) :
    (bindings.store name value).fetch? = (other.store name value).fetch? := by
  funext key
  rw [fetch?_store, fetch?_store, h]

theorem Program.fetch?_assign_congr {program other : Program}
    (h : program.bindings.fetch? = other.bindings.fetch?) (assigned : Option (String × Value)) :
    (program.assign assigned).bindings.fetch? = (other.assign assigned).bindings.fetch? := by
  cases assigned with
  | none => exact h
  | some entry => exact Bindings.fetch?_store_congr h entry.1 entry.2

namespace Run

open Program

variable {R : Run → Run → Prop} {listing extended : Listing} {line number : LineNumber}
  {run other : Run} {after : Program} {printed : Option Value}

theorem view_of_reply {result : Except Fault Outcome} (h : run.reply = (result, after)) :
    run.view = (Notice.ofStep result).map fun notice => (notice, after.bindings.fetch?) := by
  rw [view, h]

/-- The view depends on the result of the step and the values after it. -/
theorem view_congr {result : Except Fault Outcome} {otherAfter : Program}
    (h : run.reply = (result, after)) (hother : other.reply = (result, otherAfter))
    (hvariables : after.bindings.fetch? = otherAfter.bindings.fetch?) : run.view = other.view := by
  rw [view_of_reply h, view_of_reply hother, hvariables]

theorem next?_of_advanced (h : run.reply = (.ok (.advanced printed), after)) :
    run.next? = some { program := after, answers := run.answers } := by
  rw [next?, h]

theorem next?_of_completed (h : run.reply = (.ok (.completed printed), after)) :
    run.next? = none := by
  rw [next?, h]

theorem next?_of_error {fault : Fault} (h : run.reply = (.error fault, after)) :
    run.next? = none := by
  rw [next?, h]

theorem keeps_of_completed {otherAfter : Program}
    (hrun : run.reply = (.ok (.completed printed), after))
    (hother : other.reply = (.ok (.completed printed), otherAfter))
    (hvariables : after.bindings.fetch? = otherAfter.bindings.fetch?) : Keeps R run other := by
  refine .once (view_congr hother hrun hvariables.symm) ?_
  rw [next?_of_completed hrun, next?_of_completed hother]
  exact .none

theorem keeps_of_error {otherAfter : Program} {fault : Fault}
    (hrun : run.reply = (.error fault, after)) (hother : other.reply = (.error fault, otherAfter))
    (hvariables : after.bindings.fetch? = otherAfter.bindings.fetch?) : Keeps R run other := by
  refine .once (view_congr hother hrun hvariables.symm) ?_
  rw [next?_of_error hrun, next?_of_error hother]
  exact .none

theorem keeps_of_advanced {otherAfter : Program}
    (hrun : run.reply = (.ok (.advanced printed), after))
    (hother : other.reply = (.ok (.advanced printed), otherAfter))
    (hvariables : after.bindings.fetch? = otherAfter.bindings.fetch?)
    (hnext : R { program := after, answers := run.answers }
      { program := otherAfter, answers := other.answers }) : Keeps R run other := by
  refine .once (view_congr hother hrun hvariables.symm) ?_
  rw [next?_of_advanced hrun, next?_of_advanced hother]
  exact .some hnext

/-- Both runs are about to take the same line of the listing, with the same values. -/
structure Follows (listing extended : Listing) (run other : Run) : Prop where
  listing_eq : run.program.listing = listing
  extended_eq : other.program.listing = extended
  counter : ∃ number ∈ listing.numbers,
    run.program.pc = some number ∧ other.program.pc = some number
  values : run.program.bindings.fetch? = other.program.bindings.fetch?
  skip : other.skip = run.skip
  answers : other.answers = run.answers

/-- On the further line a run completes its pass, or silently comes to the line behind. -/
theorem reply_of_detour (h : listing.Detour extended line) (run : Run)
    (hextended : run.program.listing = extended) (hpc : run.program.pc = some line)
    (hskip : run.skip = false) :
    run.reply = match extended.after? line with
      | none => (.ok (.completed none), run.program.rewind)
      | some next => (.ok (.advanced none), { run.program with pc := some next }) := by
  subst hextended
  have hidle := h.idle run.program rfl
  rw [reply, Program.step, hpc, hskip]
  dsimp only
  rw [hidle]
  cases hafter : run.program.listing.after? line with
  | none =>
      rw [advance_of_after?_eq_none h.wellNumbered.ascending h.stored hafter]
      rfl
  | some next =>
      rw [advance_of_after?_eq_some h.wellNumbered.ascending h.stored hafter]
      rfl

section Passes

variable {program twin : Program}

/-- In front of the further line the other run takes two steps for one. -/
theorem keeps_passes_twice (h : program.listing.Detour twin.listing line)
    (hmem : number ∈ program.listing.numbers)
    (hvariables : program.bindings.fetch? = twin.bindings.fetch?)
    (hanswers : other.answers = run.answers) (hafter : twin.listing.after? number = some line)
    (hrun : run.reply = ((program.advance number printed).1.mapError (·.inLine (some number)),
      (program.advance number printed).2))
    (hother : other.reply = (.ok (.advanced printed), { twin with pc := some line })) :
    Keeps (Follows program.listing twin.listing) run other := by
  have hmiddle := reply_of_detour h
    { program := { twin with pc := some line }, answers := other.answers } rfl rfl rfl
  rw [h.after?_of_line hafter] at hmiddle
  cases hbehind : program.listing.after? number with
  | none =>
      rw [hbehind] at hmiddle
      rw [advance_of_after?_eq_none h.numbered.ascending hmem hbehind] at hrun
      refine .twice (next?_of_advanced hother) ?_ ?_
      · -- What is printed and the end of the pass are seen one after the other.
        rw [view_of_reply hother, view_of_reply hmiddle, view_of_reply hrun]
        change _ = (Notice.ofStep _).map fun notice => (notice, program.bindings.fetch?)
        rw [hvariables]
        cases printed <;> rfl
      · rw [next?_of_completed hrun, next?_of_completed hmiddle]
        exact .none
  | some behind =>
      rw [hbehind] at hmiddle
      rw [advance_of_after?_eq_some h.numbered.ascending hmem hbehind] at hrun
      refine .twice (next?_of_advanced hother) ?_ ?_
      · rw [view_of_reply hmiddle]
        exact (List.append_nil _).trans (view_congr hother hrun hvariables.symm)
      · rw [next?_of_advanced hrun, next?_of_advanced hmiddle]
        have hstored := (Listing.mem_of_after? hbehind).1
        exact .some ⟨rfl, rfl, ⟨behind, hstored, rfl, rfl⟩, hvariables, rfl, hanswers⟩

/-- Going on, the runs keep together, whether the line is the last one, stands in front of the further
line, or neither. -/
theorem keeps_passes (h : program.listing.Detour twin.listing line)
    (hmem : number ∈ program.listing.numbers)
    (hvariables : program.bindings.fetch? = twin.bindings.fetch?)
    (hanswers : other.answers = run.answers)
    (hrun : run.reply = ((program.advance number printed).1.mapError (·.inLine (some number)),
      (program.advance number printed).2))
    (hother : other.reply = ((twin.advance number printed).1.mapError (·.inLine (some number)),
      (twin.advance number printed).2)) :
    Keeps (Follows program.listing twin.listing) run other := by
  have hstored : number ∈ twin.listing.numbers := h.mem_iff.mpr (.inr hmem)
  cases hafter : twin.listing.after? number with
  | none =>
      rw [advance_of_after?_eq_none h.numbered.ascending hmem (h.after?_of_none hafter)] at hrun
      rw [advance_of_after?_eq_none h.wellNumbered.ascending hstored hafter] at hother
      exact keeps_of_completed hrun hother hvariables
  | some next =>
      rw [advance_of_after?_eq_some h.wellNumbered.ascending hstored hafter] at hother
      by_cases heq : next = line
      · subst heq
        exact keeps_passes_twice h hmem hvariables hanswers hafter hrun hother
      · have hnext := h.after?_of_ne hafter heq
        rw [advance_of_after?_eq_some h.numbered.ascending hmem hnext] at hrun
        apply keeps_of_advanced hrun hother hvariables
        have hmemNext := (Listing.mem_of_after? hnext).1
        exact ⟨rfl, rfl, ⟨next, hmemNext, rfl, rfl⟩, hvariables, rfl, hanswers⟩

end Passes

theorem Follows.keeps (h : listing.Detour extended line)
    (hfollows : Follows listing extended run other) :
    Keeps (Follows listing extended) run other := by
  obtain ⟨rfl, rfl, ⟨number, hmem, hpc, hotherPc⟩, hvariables, hskip, hanswers⟩ := hfollows
  obtain ⟨effect, heffect⟩ := exists_effectAt? hmem run.skip
  have hstatements : ∀ statement : Statement,
      statement.effect run.program.bindings = statement.effect other.program.bindings := by
    intro statement
    exact Statement.effect_congr fun name _ => congrFun hvariables name
  have hotherEffect : other.program.effectAt? number other.skip = some effect := by
    rw [hskip, ← heffect, effectAt?, effectAt?, h.others number (h.ne_of_mem hmem)]
    simp only [hstatements]
  have hrun : run.reply = _ := step_of_effectAt? hpc heffect
  have hother : other.reply = _ := step_of_effectAt? hotherPc hotherEffect
  cases effect with
  | passes assigned printed =>
      have hassigned := fetch?_assign_congr hvariables assigned
      rw [← assign_listing run.program assigned, ← assign_listing other.program assigned] at h ⊢
      rw [← assign_listing run.program assigned] at hmem
      exact keeps_passes h hmem hassigned hanswers hrun hother
  | jumps target =>
      have htarget := mem_targets_of_effectAt? heffect
      have hne : target ≠ line := by
        rintro rfl
        exact h.untargeted htarget
      simp only [perform, jump, Listing.resolve, h.others target hne] at hrun hother
      cases hstored : (run.program.listing.get? target).isSome with
      | true =>
          rw [if_pos hstored] at hrun hother
          apply keeps_of_advanced hrun hother hvariables
          have hmemTarget := Listing.mem_numbers_iff.mpr hstored
          exact ⟨rfl, rfl, ⟨target, hmemTarget, rfl, rfl⟩, hvariables, rfl, hanswers⟩
      | false =>
          rw [if_neg (by simp [hstored])] at hrun hother
          exact keeps_of_error hrun hother hvariables
  | finishes => exact keeps_of_completed hrun hother hvariables
  | awaits name =>
      refine .once (view_congr hother hrun hvariables.symm) ?_
      rw [next?, next?, hrun, hother, hanswers]
      cases run.answers with
      | nil => exact .none
      | cons value answers =>
          exact .some ⟨rfl, rfl, ⟨number, hmem, hpc, hotherPc⟩,
            Bindings.fetch?_store_congr hvariables name value, rfl, rfl⟩
  | fails fault => exact keeps_of_error hrun hother hvariables

/-! ### From the first line on -/

variable {bindings twin : Bindings}

/-- A run from the first line is followed at once, or after a step that shows nothing. -/
theorem keeps_ofListing (h : listing.Detour extended line) (hvariables : bindings.fetch? = twin.fetch?)
    (answers : List Value) :
    Keeps (Follows listing extended) (ofListing listing bindings answers)
        (ofListing extended twin answers) ∨
      ∃ middle, (ofListing extended twin answers).next? = some middle ∧
        (ofListing extended twin answers).view = [] ∧
        Keeps (Follows listing extended) (ofListing listing bindings answers) middle := by
  obtain ⟨first, hfirst⟩ : ∃ first, extended.first? = some first := by
    cases hfirst : extended.first? with
    | some first => exact ⟨first, rfl⟩
    | none => exact absurd h.stored (by simp [Listing.first?_eq_none_iff.mp hfirst])
  by_cases heq : first = line
  · subst heq
    have hreply := reply_of_detour h (ofListing extended twin answers) rfl hfirst rfl
    rw [h.after?_of_first? hfirst] at hreply
    cases hlisting : listing.first? with
    | none =>
        have hrun : (ofListing listing bindings answers).reply =
            (.ok (.completed none), (ofListing listing bindings answers).program) := by
          rw [reply, Program.step, ofListing, hlisting]
        rw [hlisting] at hreply
        exact .inl (keeps_of_completed hrun hreply hvariables)
    | some number =>
        rw [hlisting] at hreply
        refine .inr ⟨_, next?_of_advanced hreply, view_of_reply hreply, ?_⟩
        apply Follows.keeps h
        exact ⟨rfl, rfl, ⟨number, Listing.mem_of_first? hlisting, hlisting, rfl⟩, hvariables, rfl, rfl⟩
  · have hlisting := h.first?_of_ne hfirst heq
    refine .inl (Follows.keeps h ⟨rfl, rfl, ⟨first, ?_, hlisting, hfirst⟩, hvariables, rfl, rfl⟩)
    exact Listing.mem_of_first? hlisting

/-- The same is seen of both runs, of the other one after up to twice the steps and one more. -/
theorem views_ofListing (h : listing.Detour extended line) (hvariables : bindings.fetch? = twin.fetch?)
    (answers : List Value) (count : Nat) :
    (ofListing listing bindings answers).views count <+:
        (ofListing extended twin answers).views (2 * count + 1) ∧
      (ofListing extended twin answers).views count <+:
        (ofListing listing bindings answers).views count := by
  have hfollows : ∀ run other, Follows listing extended run other →
      Keeps (Follows listing extended) run other := fun _ _ => Follows.keeps h
  rcases keeps_ofListing h hvariables answers with hkeeps | ⟨middle, hnext, hview, hkeeps⟩
  · refine ⟨?_, hkeeps.prefix_views hfollows count⟩
    exact (hkeeps.views_prefix_twice hfollows count).trans (views_mono (Nat.le_succ _) _)
  · constructor
    · rw [views_succ, hview, hnext]
      exact hkeeps.views_prefix_twice hfollows count
    · cases count with
      | zero => exact List.nil_prefix
      | succ count =>
          rw [views_succ, hview, hnext]
          exact (hkeeps.prefix_views hfollows count).trans (views_mono (Nat.le_succ count) _)

end Run

/-! ### Lines that are detours -/

namespace Listing

variable {listing : Listing} {line : LineNumber} {statement : Statement}

/-- A new line is a detour if it does no more than go on. -/
theorem detour_place (hnumbered : listing.WellNumbered) (hpositive : line ≠ 0)
    (hunused : line ∉ listing.numbers) (huntargeted : line ∉ listing.targets)
    (hidle : ∀ program : Program, program.listing = ⟨place line statement listing.lines⟩ →
      program.carryOut line statement = program.advance line none) :
    listing.Detour ⟨place line statement listing.lines⟩ line := by
  have hget : ∀ other, get? ⟨place line statement listing.lines⟩ other =
      if other = line then some statement else listing.get? other :=
    fun other => lookup_place line other statement hnumbered.ascending
  have hinsert : listing.insert line statement = .ok ⟨place line statement listing.lines⟩ := by
    rw [insert, if_neg hpositive]
  refine ⟨hnumbered, hnumbered.insert hinsert, ?_, hunused, huntargeted, ?_, ?_⟩
  · rw [mem_numbers_iff, hget, if_pos rfl]
    rfl
  · intro other hother
    rw [hget, if_neg hother]
  · intro program hprogram
    rw [Program.executeLine, if_neg Bool.false_ne_true, hprogram, hget, if_pos rfl]
    exact hidle program hprogram

theorem detour_remark (hnumbered : listing.WellNumbered) (hpositive : line ≠ 0)
    (hunused : line ∉ listing.numbers) (huntargeted : line ∉ listing.targets) (content : String) :
    listing.Detour ⟨place line (.remark content) listing.lines⟩ line :=
  detour_place hnumbered hpositive hunused huntargeted fun _ _ => rfl

/-- An `END` behind all other lines does what happens there anyway. -/
theorem detour_finish (hnumbered : listing.WellNumbered) (hpositive : line ≠ 0)
    (habove : ∀ number ∈ listing.numbers, number < line) (huntargeted : line ∉ listing.targets) :
    listing.Detour ⟨place line .finish listing.lines⟩ line := by
  have hunused : line ∉ listing.numbers := fun hmem => UInt32.lt_irrefl line (habove line hmem)
  apply detour_place hnumbered hpositive hunused huntargeted
  intro program hprogram
  have hplace : place line .finish listing.lines = listing.lines ++ [(line, .finish)] := by
    apply place_of_forall_lt
    intro entry hentry
    exact habove entry.1 (List.mem_map_of_mem hentry)
  have hlast : program.listing.last? = some line := by
    rw [hprogram, hplace]
    simp [last?, numbers]
  rw [Program.advance, if_pos hlast.symm]
  rfl

end Listing

end NumberedBasic
