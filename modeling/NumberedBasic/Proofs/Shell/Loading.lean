import NumberedBasic.Proofs.Listing.Storing
import NumberedBasic.Proofs.Shell.Readings
import NumberedBasic.SourceFile.Acceptance

/-!
# Loading files

Whether a line of a file is taken in does not depend on the lines before it. So a file is loaded just
if each of its lines is accepted, and the first that is not decides the failure. The shell puts the
program of a file in place of its own, or reports the failure and keeps what it has.
-/

namespace NumberedBasic

namespace SourceFile

variable {position : Nat} {bytes : List UInt8} {lines : List (List UInt8)} {failure : Failure}
  {content : List UInt8} {program : Program}

/-! ### Lines -/

theorem exists_rejects (position : Nat) (h : ¬Accepts bytes) :
    ∃ failure, Rejects position bytes failure := by
  cases hdecode : decode? bytes with
  | none => exact ⟨_, .notText hdecode⟩
  | some text =>
      cases hparse : SourceLine.parse text with
      | error fault => exact ⟨_, .line hdecode hparse⟩
      | ok line => exact absurd ⟨text, line, hdecode, hparse⟩ h

theorem exists_failsFirst (position : Nat) (h : ¬∀ bytes ∈ lines, Accepts bytes) :
    ∃ failure, FailsFirst position lines failure := by
  induction lines generalizing position with
  | nil => exact absurd nofun h
  | cons bytes rest ih =>
      by_cases hbytes : Accepts bytes
      · have hrest : ¬∀ bytes ∈ rest, Accepts bytes := fun hall =>
          h (List.forall_mem_cons.mpr ⟨hbytes, hall⟩)
        obtain ⟨failure, before, bad, after, rfl, hbefore, hbad⟩ := ih (position + 1) hrest
        refine ⟨failure, bytes :: before, bad, after, rfl,
          List.forall_mem_cons.mpr ⟨hbytes, hbefore⟩, ?_⟩
        rwa [List.length_cons, Nat.add_comm before.length, ← Nat.add_assoc]
      · obtain ⟨failure, hbad⟩ := exists_rejects position hbytes
        exact ⟨failure, [], bytes, rest, rfl, nofun, hbad⟩

/-- An accepted line is taken in, whatever is there already. -/
theorem loadLines_cons_of_accepts (h : Accepts bytes) (position : Nat) (program : Program)
    (rest : List (List UInt8)) :
    ∃ text listing, decode? bytes = some text ∧ program.listing.load text = .ok listing ∧
      loadLines position program (bytes :: rest) =
        loadLines (position + 1) { program with listing, pc := listing.first? } rest := by
  obtain ⟨text, line, hdecode, hparse⟩ := h
  obtain ⟨listing, hload⟩ := Listing.exists_load hparse program.listing
  refine ⟨text, listing, hdecode, hload, ?_⟩
  simp only [loadLines, hdecode, Program.load, hload]
  rfl

theorem loadLines_cons_of_rejects (h : Rejects position bytes failure) (program : Program)
    (rest : List (List UInt8)) :
    loadLines position program (bytes :: rest) = .error failure := by
  cases h with
  | notText hdecode => simp only [loadLines, hdecode]
  | line hdecode hparse =>
      simp only [loadLines, hdecode, Program.load, Listing.load_of_parse_error hparse]
      rfl

/-! ### Files -/

theorem loadLines_of_failsFirst (h : FailsFirst position lines failure) (program : Program) :
    loadLines position program lines = .error failure := by
  obtain ⟨before, bytes, after, rfl, hbefore, hbytes⟩ := h
  induction before generalizing position program with
  | nil => exact loadLines_cons_of_rejects hbytes program after
  | cons earlier before ih =>
      obtain ⟨hearlier, hbefore⟩ := List.forall_mem_cons.mp hbefore
      obtain ⟨-, listing, -, -, hstep⟩ :=
        loadLines_cons_of_accepts hearlier position program (before ++ bytes :: after)
      rw [List.length_cons, Nat.add_comm before.length, ← Nat.add_assoc] at hbytes
      rw [List.cons_append, hstep]
      exact ih _ hbefore hbytes

theorem loadLines_of_accepts (h : ∀ bytes ∈ lines, Accepts bytes) (position : Nat)
    (program : Program) :
    ∃ loaded texts, loadLines position program lines = .ok loaded ∧
      lines.mapM decode? = some texts ∧ program.listing.loadAll texts = .ok loaded.listing ∧
      loaded.bindings = program.bindings := by
  induction lines generalizing position program with
  | nil => exact ⟨program, [], rfl, rfl, rfl, rfl⟩
  | cons bytes rest ih =>
      obtain ⟨hbytes, hrest⟩ := List.forall_mem_cons.mp h
      obtain ⟨text, listing, hdecode, hload, hstep⟩ :=
        loadLines_cons_of_accepts hbytes position program rest
      obtain ⟨loaded, texts, hrun, hdecodes, hloads, hbindings⟩ :=
        ih hrest (position + 1) { program with listing, pc := listing.first? }
      refine ⟨loaded, text :: texts, hstep.trans hrun, ?_, ?_, hbindings⟩
      · simp [hdecode, hdecodes]
      · rw [Listing.loadAll, List.foldlM_cons, hload]
        exact hloads

theorem isSource_iff : IsSource content ↔ ∃ program, load content = .ok program := by
  constructor
  · intro h
    obtain ⟨program, -, hload, -⟩ := loadLines_of_accepts h 1 {}
    exact ⟨program, hload⟩
  · rintro ⟨program, hload⟩
    apply Classical.byContradiction
    intro h
    obtain ⟨failure, hfails⟩ := exists_failsFirst 1 h
    rw [load, loadLines_of_failsFirst hfails {}] at hload
    cases hload

theorem isProgramOf_of_load (h : load content = .ok program) : IsProgramOf content program := by
  obtain ⟨loaded, texts, hload, hdecodes, hloads, hbindings⟩ :=
    loadLines_of_accepts (isSource_iff.mpr ⟨program, h⟩) 1 {}
  cases h.symm.trans hload
  obtain ⟨hplaced, hfirst⟩ := atFirst_of_load h
  exact ⟨hbindings, Program.atTop_of_first? hplaced.numbered hfirst, texts, hdecodes, hloads⟩

end SourceFile

/-- Nothing but the queue changes when a file is asked for. -/
theorem Session.program_execute_of_load {session : Session} {cycles : Nat} {file : String}
    (h : (session.execute cycles).1 = .load file) :
    (session.execute cycles).2.program = session.program := by
  have hexecutes := executes_execute session cycles
  generalize session.execute cycles = result at h hexecutes ⊢
  cases hexecutes with
  | pops _ => rfl
  | breaks _ _ | waits _ _ | rests _ _ _ | pauses _ => cases h
  | @settles last _ _ =>
      generalize last.1.step last.2 = reply at h
      obtain ⟨_ | (_ | _) | (_ | _) | _, after⟩ := reply <;> cases h

namespace Shell

variable {σ : Type} {console : Console (StateM σ)} {file : String} {content : List UInt8}
  {program : Program} {message : String} {world opened : σ}

/-! ### The shell -/

theorem respond_of_loadFile_ok (h : (loadFile console file).run world = (.ok program, opened))
    (session : Session) :
    (respond console session (.load file)).run world = (some (session.install program), opened) := by
  rw [respond, run_bind, h]
  rfl

theorem respond_of_loadFile_error
    (h : (loadFile console file).run world = (.error message, opened)) (session : Session) :
    (respond console session (.load file)).run world =
      (some session, ((complaint console message).run opened).2) := by
  rw [respond, run_bind, h]
  rfl

theorem start_of_loadFile_ok (h : (loadFile console file).run world = (.ok program, opened))
    (run : Bool) :
    (start console file run).run world =
      (if run then (Session.install {} program).enter "RUN" else Session.install {} program,
        opened) := by
  rw [start, run_bind, h]
  cases run <;> rfl

theorem start_of_loadFile_error
    (h : (loadFile console file).run world = (.error message, opened)) (run : Bool) :
    (start console file run).run world = ({}, ((complaint console message).run opened).2) := by
  rw [start, run_bind, h]
  rfl

/-- Asking for a run at once leaves the program as it was loaded. -/
theorem program_begun (program : Program) (run : Bool) :
    (if run then (Session.install {} program).enter "RUN" else Session.install {} program).program =
      program := by
  have hidle : (Session.install {} program).pending = none := rfl
  cases run with
  | false => rfl
  | true => rw [if_pos rfl, Session.enter_run hidle, Session.install]

/-- A file is loaded as a whole or not at all. If all lines are accepted, then the session holds the
program of the file. If one is not, then the first such line is complained of, nothing is run, and the
program is the one that was there. -/
theorem load_all_or_nothing (hcontent : ((console.contents file).run world).1 = .ok content) :
    let opened := ((console.contents file).run world).2
    (SourceFile.IsSource content ↔ ∃ program, ((loadFile console file).run world).1 = .ok program) ∧
      (∀ program, ((loadFile console file).run world).1 = .ok program →
        SourceFile.IsProgramOf content program ∧
        (∀ session : Session,
          let installed := session.install program
          (respond console session (.load file)).run world = (some installed, opened) ∧
            installed.program = program) ∧
        ∀ run : Bool,
          let begun := if run then (Session.install {} program).enter "RUN"
            else Session.install {} program
          (start console file run).run world = (begun, opened) ∧ begun.program = program) ∧
      (¬SourceFile.IsSource content → ∃ failure,
        SourceFile.FailsFirst 1 (SourceFile.lines content) failure ∧
        let reported := ((complaint console (failure.message file)).run opened).2
        (∀ session, (respond console session (.load file)).run world = (some session, reported)) ∧
        ∀ run, (start console file run).run world = ({}, reported)) ∧
      ∀ session earlier, (produced console session earlier).1 = .load file →
        (produced console session earlier).2.program = session.program := by
  have hfile := loadFile_of_contents hcontent
  refine ⟨?_, ?_, ?_, ?_⟩
  · rw [SourceFile.isSource_iff]
    simp only [loadFile_eq_ok_iff hcontent]
  · intro program hprogram
    have hload := (loadFile_eq_ok_iff hcontent).mp hprogram
    rw [hload] at hfile
    refine ⟨SourceFile.isProgramOf_of_load hload, fun session => ?_, fun run => ?_⟩
    · exact ⟨respond_of_loadFile_ok hfile session, rfl⟩
    · exact ⟨start_of_loadFile_ok hfile run, program_begun program run⟩
  · intro hsource
    obtain ⟨failure, hfails⟩ := SourceFile.exists_failsFirst 1 hsource
    rw [SourceFile.load, SourceFile.loadLines_of_failsFirst hfails] at hfile
    exact ⟨failure, hfails, respond_of_loadFile_error hfile, start_of_loadFile_error hfile⟩
  · intro session earlier hproduced
    unfold produced at hproduced ⊢
    rw [Session.program_execute_of_load hproduced]
    split <;> rfl

/-- A line comes and goes. -/
def draft : List UInt8 := "30 END\r\n10 PRINT 1\n\n20 REM\n20".toUTF8.data.toList

/-- A line is taken in and one is removed before the fourth fails. What follows it is not even text. -/
def brokenDraft : List UInt8 := "10 PRINT 1\n20 END\n10\nPRINT\n".toUTF8.data.toList ++ [255]

def drafts : Script where
  cues := []
  files := Directory.ofFiles [("good.bas", draft), ("bad.bas", brokenDraft)]

/-- What is left of the lines of `draft`. -/
def draftProgram : Program where
  listing := ⟨[(10, .print (.constant 1)), (30, .finish)]⟩
  pc := some 10

theorem load_all_or_nothing_drafts :
    (SourceFile.IsProgramOf draft draftProgram ∧ draftProgram.bindings = {} ∧ draftProgram.AtTop ∧
      (∀ session : Session, (respond Script.console session (.load "good.bas")).run drafts =
          (some (session.install draftProgram), drafts) ∧
        (session.install draftProgram).program = draftProgram) ∧
      ∀ run : Bool, ((start Script.console "good.bas" run).run drafts).1.program = draftProgram) ∧
    ∀ session : Session, (respond Script.console session (.load "bad.bas")).run drafts =
      (some session, drafts.writeText
        (bold "parse error: illegal line number; `PRINT`; in line 4 of bad.bas" ++ "\n")) := by
  have hgood : ((Script.console.contents "good.bas").run drafts).1 = .ok draft := rfl
  have hbad : ((Script.console.contents "bad.bas").run drafts).1 = .ok brokenDraft := rfl
  have hbegun : ((start Script.console "good.bas" false).run drafts).1.program = draftProgram := by
    decide +kernel
  have hwritten : ((start Script.console "bad.bas" false).run drafts).2 = drafts.writeText
      (bold "parse error: illegal line number; `PRINT`; in line 4 of bad.bas" ++ "\n") := by
    decide +kernel
  obtain ⟨hsource, hloaded, hkept, -⟩ := load_all_or_nothing hgood
  obtain ⟨-, -, hrefused, -⟩ := load_all_or_nothing hbad
  have hdraft : SourceFile.IsSource draft := by
    apply Classical.byContradiction
    intro hnot
    obtain ⟨failure, -, -, hstart⟩ := hkept hnot
    rw [hstart false] at hbegun
    cases hbegun
  have hbroken : ¬SourceFile.IsSource brokenDraft := by
    intro hall
    obtain ⟨text, -, hdecode, -⟩ := hall [255] (by decide +kernel)
    have hnotText : SourceFile.decode? [255] = none := by decide +kernel
    cases hnotText.symm.trans hdecode
  constructor
  · obtain ⟨program, hprogram⟩ := hsource.mp hdraft
    obtain ⟨hfile, hrespond, hstart⟩ := hloaded program hprogram
    have hstarted : ∀ run : Bool,
        ((start Script.console "good.bas" run).run drafts).1.program = program := by
      intro run
      obtain ⟨hrun, hheld⟩ := hstart run
      rw [hrun, hheld]
    obtain rfl : program = draftProgram := (hstarted false).symm.trans hbegun
    exact ⟨hfile, hfile.bindings, hfile.atTop, hrespond, hstarted⟩
  · obtain ⟨failure, -, hrespond, hstart⟩ := hrefused hbroken
    rw [hstart false] at hwritten
    intro session
    rw [hrespond session, ← hwritten]

end Shell

end NumberedBasic
