import NumberedBasic.Proofs.Program.Counter
import NumberedBasic.Proofs.Program.Detour
import NumberedBasic.Proofs.Session.Dialogue

/-!
# Remarks and the end of a program

A remark and an `END` behind the last line are detours. With them a program shows the same as without,
whether it is stepped by itself or run in a session.
-/

namespace NumberedBasic

open Run

/-- The event by which a session shows a notice. -/
def Notice.event : Notice → Event
  | printed value => .print (toString value)
  | asked name => .input name
  | completed => .stopped
  | failed fault => .fault fault

namespace Session

variable {session other : Session} {run : Run} {listing extended : Listing} {line : LineNumber}

/-! ### What sessions show -/

theorem display_eq (notice : Notice) (program : Program) :
    (display (notice, program)).1 = notice.event ∧
      (display (notice, program)).2.bindings = program.bindings := by
  cases notice <;> exact ⟨rfl, rfl⟩

theorem map_display_sights (count : Nat) (run : Run) :
    ((run.sights count).map display).map (fun shown => (shown.1, shown.2.bindings.fetch?)) =
      (run.views count).map fun seen => (seen.1.event, seen.2) := by
  rw [views, List.map_map, List.map_map]
  apply List.map_congr_left
  rintro ⟨notice, program⟩ -
  obtain ⟨hevent, hbindings⟩ := display_eq notice program
  simp only [Function.comp_apply, hevent, hbindings]

theorem Carries.shows_prefix_views (h : session.Carries run) (budgets : List Nat) :
    session.shows budgets run.answers <+:
      (run.views (allowance budgets)).map fun seen => (seen.1.event, seen.2) := by
  rw [← map_display_sights]
  exact (h.converse_prefix budgets).map _

theorem Carries.views_prefix_shows (h : session.Carries run) {budgets : List Nat} {count : Nat}
    (hcount : count < budgets.countP (0 < ·)) :
    (run.views count).map (fun seen => (seen.1.event, seen.2)) <+:
      session.shows budgets run.answers := by
  rw [← map_display_sights]
  exact (h.sights_prefix_converse hcount).map _

/-- The program that a session holds is as it is at the start of a run of the listing. -/
theorem Holds.program_eq (h : session.Holds listing) (hnumbered : listing.WellNumbered) :
    session.program = { listing, pc := listing.first?, bindings := session.program.bindings } := by
  obtain ⟨-, rfl, htop⟩ := h
  rw [← htop.pc_eq hnumbered]

theorem Holds.carries (h : session.Holds listing) (hnumbered : listing.WellNumbered)
    (answers : List Value) :
    (session.enter "RUN").Carries (ofListing listing session.program.bindings answers) := by
  have hcarries := carries_enter_run h.idle answers
  rw [h.program_eq hnumbered] at hcarries
  exact hcarries

theorem echoedBy_of_views (h : session.Holds listing) (hother : other.Holds extended)
    (hnumbered : listing.WellNumbered) (hextended : extended.WellNumbered)
    (hviews : ∀ answers count, ∃ larger,
      (ofListing listing session.program.bindings answers).views count <+:
        (ofListing extended other.program.bindings answers).views larger) :
    session.EchoedBy other := by
  intro answers budgets
  obtain ⟨larger, hbefore⟩ := hviews answers (allowance budgets)
  refine ⟨larger + 1, fun more hmore => ?_⟩
  have hshown := (h.carries hnumbered answers).shows_prefix_views budgets
  have hshows := (hother.carries hextended answers).views_prefix_shows hmore
  exact hshown.trans ((hbefore.map _).trans hshows)

theorem echoedBy_of_detour (hdetour : listing.Detour extended line) (h : session.Holds listing)
    (hother : other.Holds extended)
    (hvariables : session.program.bindings.fetch? = other.program.bindings.fetch?) :
    session.EchoedBy other ∧ other.EchoedBy session := by
  constructor
  · apply echoedBy_of_views h hother hdetour.numbered hdetour.wellNumbered
    intro answers count
    exact ⟨_, (views_ofListing hdetour hvariables answers count).1⟩
  · apply echoedBy_of_views hother h hdetour.wellNumbered hdetour.numbered
    intro answers count
    exact ⟨_, (views_ofListing hdetour hvariables answers count).2⟩

/-! ### Where a run ends -/

/-- A run that is over has brought its program back to the top. -/
theorem Carries.atTop_of_endsRun (h : session.Carries run) (hplaced : run.program.WellPlaced)
    (budgets : List Nat) : ∀ shown ∈ session.converse budgets run.answers,
      shown.1.endsRun → shown.2.listing = run.program.listing ∧ shown.2.AtTop := by
  have hstages : ∀ stage ∈ run.stages (allowance budgets),
      stage.program.WellPlaced ∧ stage.program.listing = run.program.listing := by
    apply forall_mem_stages (motive := fun stage =>
      stage.program.WellPlaced ∧ stage.program.listing = run.program.listing) _ ⟨hplaced, rfl⟩
    rintro stage next ⟨hstage, hlisting⟩ hnext
    have hafter := hstage.step stage.skip
    have hkept := (Program.step_listing stage.program stage.skip).trans hlisting
    rcases exists_program_of_next? hnext with heq | ⟨name, value, heq⟩
    · rw [heq]
      exact ⟨hafter, hkept⟩
    · rw [heq]
      exact ⟨hafter.reply (.store name value), hkept⟩
  intro shown hshown hends
  have hmem := (h.converse_prefix budgets).subset hshown
  obtain ⟨seen, hseen, rfl⟩ := List.mem_map.mp hmem
  obtain ⟨stage, hstage, hmade⟩ := List.mem_flatMap.mp hseen
  obtain ⟨notice, hnotice, rfl⟩ := List.mem_map.mp hmade
  obtain ⟨hstagePlaced, hlisting⟩ := hstages stage hstage
  have hafter := hstagePlaced.step stage.skip
  have hkept := (Program.step_listing stage.program stage.skip).trans hlisting
  cases notice with
  | printed _ | asked _ => cases hends
  | failed fault => exact ⟨hkept, Program.atTop_of_first? hafter.numbered rfl⟩
  | completed =>
      obtain ⟨printed, hreply⟩ := Notice.exists_of_completed_mem hnotice
      exact ⟨hkept, Program.atTop_of_first? hafter.numbered
        (hstagePlaced.step_completed hreply)⟩

theorem Holds.atTop_of_endsRun (h : session.Holds listing) (hnumbered : listing.WellNumbered)
    (budgets : List Nat) (answers : List Value) :
    ∀ shown ∈ (session.enter "RUN").converse budgets answers,
      shown.1.endsRun → shown.2.listing = listing ∧ shown.2.AtTop := by
  have hplaced : (Program.rewind { listing, bindings := session.program.bindings }).WellPlaced :=
    Program.wellPlaced_rewind hnumbered
  exact (h.carries hnumbered answers).atTop_of_endsRun hplaced budgets

/-! ### Remarks -/

/-- A remark on a line of its own, to which nothing jumps, is not noticed in a run. -/
theorem same_run_with_remark (hnumbered : listing.WellNumbered) (hpositive : line ≠ 0)
    (hunused : line ∉ listing.numbers) (huntargeted : line ∉ listing.targets) (content : String) :
    ∃ extended, listing.insert line (.remark content) = .ok extended ∧
      (∀ bindings twin : Bindings, bindings.fetch? = twin.fetch? → ∀ answers,
        (∀ count, (ofListing listing bindings answers).views count <+:
            (ofListing extended twin answers).views (2 * count + 1) ∧
          (ofListing extended twin answers).views count <+:
            (ofListing listing bindings answers).views count) ∧
        ((ofListing listing bindings answers).Ends ↔ (ofListing extended twin answers).Ends)) ∧
      ∀ session other : Session, session.Holds listing → other.Holds extended →
        session.program.bindings.fetch? = other.program.bindings.fetch? →
        session.EchoedBy other ∧ other.EchoedBy session := by
  have hdetour := Listing.detour_remark hnumbered hpositive hunused huntargeted content
  refine ⟨_, if_neg hpositive, ?_, ?_⟩
  · intro bindings twin hvariables answers
    have hviews := views_ofListing hdetour hvariables answers
    refine ⟨hviews, ?_⟩
    rw [ends_iff, ends_iff]
    constructor
    · rintro ⟨count, seen, hseen, hend⟩
      exact ⟨2 * count + 1, seen, (hviews count).1.subset hseen, hend⟩
    · rintro ⟨count, seen, hseen, hend⟩
      exact ⟨count, seen, (hviews count).2.subset hseen, hend⟩
  · intro session other hsession hother hvariables
    exact echoedBy_of_detour hdetour hsession hother hvariables

/-- A loop that asks, and a last line that prints. -/
def questions : Listing :=
  ⟨[(10, .input "A"), (20, .branch (.var "A") .less (.constant 3) 10),
    (30, .print (.compound .multiply (.var "A") (.var "A")))]⟩

theorem wellNumbered_questions : questions.WellNumbered :=
  ⟨List.pairwise_map.mp (by decide : questions.numbers.Pairwise (· < ·)), by decide⟩

/-- With a remark behind it the line that prints is not the last one any more. -/
theorem same_run_with_remark_behind_print :
    40 ∉ questions.numbers ∧ 40 ∉ questions.targets ∧
      ((ofListing questions {} [2, 5]).views 7).map (·.1) =
        [.asked "A", .asked "A", .printed 25, .completed] ∧
      ∃ extended, questions.insert 40 (.remark "done") = .ok extended ∧
        (ofListing questions {} [2, 5]).views 7 <+: (ofListing extended {} [2, 5]).views 15 ∧
        ((ofListing questions {} [2, 5]).Ends ↔ (ofListing extended {} [2, 5]).Ends) := by
  have hunused : 40 ∉ questions.numbers := by decide
  have huntargeted : 40 ∉ questions.targets := by decide
  obtain ⟨extended, hinsert, hruns, -⟩ :=
    same_run_with_remark wellNumbered_questions (by decide) hunused huntargeted "done"
  obtain ⟨hviews, hends⟩ := hruns {} {} rfl [2, 5]
  exact ⟨hunused, huntargeted, by decide +kernel, extended, hinsert, (hviews 7).1, hends⟩

/-! ### The end of a program -/

/-- An `END` behind the last line, to which nothing jumps, is not noticed in a run. -/
theorem same_run_with_finish (hnumbered : listing.WellNumbered) (hpositive : line ≠ 0)
    (habove : ∀ number ∈ listing.numbers, number < line) (huntargeted : line ∉ listing.targets) :
    ∃ extended, listing.insert line .finish = .ok extended ∧
      ∀ session other : Session, session.Holds listing → other.Holds extended →
        session.program.bindings.fetch? = other.program.bindings.fetch? →
        session.EchoedBy other ∧ other.EchoedBy session ∧
          ∀ budgets answers,
            (∀ shown ∈ (session.enter "RUN").converse budgets answers,
              shown.1.endsRun → shown.2.listing = listing ∧ shown.2.AtTop) ∧
            ∀ shown ∈ (other.enter "RUN").converse budgets answers,
              shown.1.endsRun → shown.2.listing = extended ∧ shown.2.AtTop := by
  have hdetour := Listing.detour_finish hnumbered hpositive habove huntargeted
  refine ⟨_, if_neg hpositive, ?_⟩
  intro session other hsession hother hvariables
  obtain ⟨hechoed, hechoes⟩ := echoedBy_of_detour hdetour hsession hother hvariables
  refine ⟨hechoed, hechoes, fun budgets answers => ⟨?_, ?_⟩⟩
  · exact hsession.atTop_of_endsRun hdetour.numbered budgets answers
  · exact hother.atTop_of_endsRun hdetour.wellNumbered budgets answers

/-- The line that prints is the last one in one program and not in the other. -/
theorem same_run_with_finish_behind_print :
    let short : Session := { program := { listing := questions, pc := some 10 } }
    let long : Session :=
      { program := { listing := ⟨questions.lines ++ [(40, .finish)]⟩, pc := some 10 } }
    (∀ number ∈ questions.numbers, number < 40) ∧ 40 ∉ questions.targets ∧
      short.Holds questions ∧ long.Holds long.program.listing ∧
      short.EchoedBy long ∧ long.EchoedBy short ∧
      ((short.enter "RUN").converse [9, 9, 9, 9] [2, 5]).map (·.1) =
        [.input "A", .input "A", .print "25", .stopped] ∧
      ((long.enter "RUN").converse [1, 2, 9, 9, 9, 9] [2, 5]).map (·.1) =
        [.input "A", .input "A", .print "25", .stopped] := by
  intro short long
  have hshort : short.Holds questions :=
    ⟨⟨rfl, rfl, rfl, rfl, rfl⟩, rfl, Program.atTop_of_first? wellNumbered_questions rfl⟩
  have habove : ∀ number ∈ questions.numbers, number < 40 := by simp [questions, Listing.numbers]
  have huntargeted : 40 ∉ questions.targets := by decide
  obtain ⟨extended, hinsert, hrun⟩ :=
    same_run_with_finish wellNumbered_questions (by decide) habove huntargeted
  have hlisting : questions.insert 40 .finish = .ok long.program.listing := rfl
  cases hlisting.symm.trans hinsert
  have hlong : long.Holds long.program.listing :=
    ⟨⟨rfl, rfl, rfl, rfl, rfl⟩, rfl,
      Program.atTop_of_first? (wellNumbered_questions.insert hinsert) rfl⟩
  obtain ⟨hechoed, hechoes, -⟩ := hrun short long hshort hlong rfl
  exact ⟨habove, huntargeted, hshort, hlong, hechoed, hechoes, by decide +kernel,
    by decide +kernel⟩

end Session

end NumberedBasic
