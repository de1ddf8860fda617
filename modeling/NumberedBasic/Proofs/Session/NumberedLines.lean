import NumberedBasic.Proofs.Listing.Storing
import NumberedBasic.Proofs.Session.Calls
import NumberedBasic.Session.History

/-!
# Typed lines with a number

A text that begins with a number is a line for the program, and typing it comes to the same as loading
it. A line is read without the line ends at its end, while the first token of a typed text is looked for
in all of it; but a number is no line end, so that it is still there when the line is read.
-/

namespace NumberedBasic

variable {text : String}

namespace SourceLine

theorem parse_eq_ok_none_iff :
    parse text = .ok none ↔ Token.scanChars (Text.trimEnd isLineEnd text.toList) = [] := by
  unfold parse
  cases Token.scanChars (Text.trimEnd isLineEnd text.toList) with
  | nil => simp
  | cons first body =>
      simp only [reduceCtorEq, iff_false]
      cases first.lineNumber with
      | error fault => exact nofun
      | ok number =>
          dsimp only
          split
          next => exact nofun
          next =>
            cases Statement.parse body with
            | error fault => exact nofun
            | ok statement => exact nofun

/-- A text with a number in it is not blank without its line ends. -/
theorem parse_ne_ok_none {token : Token} (hmem : token ∈ Token.scan text) (hnumber : token.isNumber) :
    parse text ≠ .ok none := by
  intro hparse
  have hblank := parse_eq_ok_none_iff.mp hparse
  have hleaf : Expression.IsLeaf token := .inl hnumber
  obtain ⟨c, hc⟩ := List.exists_mem_of_ne_nil _ (Token.toList_ne_nil_of_isLeaf hleaf)
  have hspace : Token.isSpace c = false := (Token.isUnit_of_isLeaf hleaf).isSpace_eq_false hc
  obtain ⟨ending, hending, hdropped⟩ := Text.exists_eq_trimEnd_append isLineEnd text.toList
  have hkept : c ∈ Text.trimEnd isLineEnd text.toList ++ ending :=
    hending ▸ Token.mem_of_mem_scanChars hmem hc
  rcases List.mem_append.mp hkept with hkept | hend
  · obtain ⟨other, hother, -⟩ := Token.exists_mem_scanChars hkept hspace
    rw [hblank] at hother
    cases hother
  · have honOneLine := Token.onOneLine_of_isLeaf hleaf c hc
    rw [hdropped c hend] at honOneLine
    cases honOneLine

end SourceLine

/-- No command is a number. -/
theorem Command.parse_of_isNumber {first : Token} {rest : List Token}
    (hscan : Token.scan text = first :: rest) (hnumber : first.isNumber) :
    parse text = (SourceLine.parse text).map (Option.map edit) := by
  rw [parse, hscan]
  obtain ⟨word⟩ := first
  dsimp only
  split
  case h_11 => rw [if_pos hnumber]
  all_goals exact absurd hnumber (by decide)

namespace Session

variable {session : Session}

/-- A line that can be read is put into the program by either way. -/
theorem edit_eq_load {line : SourceLine} (hparse : SourceLine.parse text = .ok (some line))
    (session : Session) :
    session.edit line = { session with program := (session.program.load text).2 } ∧
      (session.program.load text).1 = .ok () := by
  obtain ⟨after, hput⟩ :=
    Listing.exists_put (SourceLine.number_ne_zero hparse) session.program.listing line.statement
  have hload : session.program.listing.load text = .ok after := by
    rw [Listing.load, hparse]
    exact hput
  simp only [edit, Program.insert, Program.load, hput, hload, Program.edit, and_self]

/-- Typing a line with a number leaves the program that loading it leaves, reports the fault that loading
it has, and does nothing else. -/
theorem enter_eq_load (hpending : session.pending = none)
    (hnumber : (Token.scan text).head?.any Token.isNumber) :
    ∃ added,
      session.enter text =
        { session with
          program := (session.program.load text).2
          events := session.events ++ added } ∧
      (∀ fault, (session.program.load text).1 = .error fault ↔ added = [.fault fault]) ∧
      ((session.program.load text).1 = .ok () ↔ added = []) := by
  obtain ⟨first, hfirst, hnumber⟩ := (Option.any_eq_true _ _).mp hnumber
  obtain ⟨rest, hscan⟩ := List.head?_eq_some_iff.mp hfirst
  have hcommand := Command.parse_of_isNumber hscan hnumber
  have hmem : first ∈ Token.scan text := List.mem_of_mem_head? hfirst
  have hnotBlank := SourceLine.parse_ne_ok_none hmem hnumber
  cases hparse : SourceLine.parse text with
  | error fault =>
      rw [hparse] at hcommand
      have henter : session.enter text = session.report fault := by
        rw [enter, hpending, hcommand]
        rfl
      have hload : session.program.load text = (.error fault, session.program) := by
        rw [Program.load, Listing.load_of_parse_error hparse, Program.edit]
      rw [henter, hload]
      refine ⟨[.fault fault], rfl, ?_, ?_⟩
      · simp
      · simp
  | ok read =>
      cases read with
      | none => exact absurd hparse hnotBlank
      | some line =>
          rw [hparse] at hcommand
          have henter : session.enter text = session.edit line := by
            rw [enter, hpending, hcommand]
            rfl
          obtain ⟨hedit, hload⟩ := edit_eq_load hparse session
          rw [henter, hedit]
          refine ⟨[], ?_, ?_, ?_⟩
          · rw [List.append_nil]
          · simp [hload]
          · simp [hload]

/-- A line is removed by a text whose line end is a token of its own, and another text cannot be read. -/
theorem enter_eq_load_line_end :
    let session := (Session.replies {} [.enter "10 PRINT 1", .enter "20 END"]).2
    Token.scan "10 \r\n" = [⟨"10"⟩, ⟨"\r\n"⟩] ∧
      session.enter "10 \r\n" = { session with program := (session.program.load "10 \r\n").2 } ∧
      (session.enter "10 \r\n").program.text = "*20 END\n" ∧
      ∃ fault, (session.program.load "10 GOTO").1 = .error fault ∧ fault.line = some 10 ∧
        (session.enter "10 GOTO").events = [.fault fault] := by
  intro session
  have hpending : session.pending = none := by decide +kernel
  have hevents : session.events = [] := by decide +kernel
  refine ⟨by decide +kernel, ?_, by decide +kernel, ?_⟩
  · obtain ⟨added, henter, -, -⟩ := @enter_eq_load "10 \r\n" session hpending (by decide +kernel)
    have hqueue : (session.enter "10 \r\n").events = [] := by decide +kernel
    rw [henter] at hqueue
    obtain ⟨-, rfl⟩ := List.append_eq_nil_iff.mp hqueue
    rw [henter, List.append_nil]
  · obtain ⟨added, henter, hfault, -⟩ := @enter_eq_load "10 GOTO" session hpending (by decide +kernel)
    have hqueue : (session.enter "10 GOTO").events =
        [.fault ⟨.incompleteStatement, some 10, Keyword.goto.usage⟩] := by decide +kernel
    refine ⟨_, (hfault _).mpr ?_, rfl, hqueue⟩
    rw [henter, hevents] at hqueue
    exact hqueue

end Session

end NumberedBasic
