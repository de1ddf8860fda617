import NumberedBasic.Proofs.Listing.Reloading
import NumberedBasic.Proofs.Program.Counter
import NumberedBasic.Proofs.Program.Effect
import NumberedBasic.Proofs.Statement.TreeText

/-!
# The tree text determines the program

The tree text of a program is made of the tree texts of its lines, each behind a mark and a number. Each
can be told apart from the rest, so that all that was written is found again: the lines, and by the star
the line that is next.
-/

namespace NumberedBasic

namespace Listing

variable {marker marker' : Option LineNumber} {entry entry' : LineNumber × Statement}
  {lines lines' : List (LineNumber × Statement)} {rest rest' : List Char}

/-! ### One line -/

/-- What a stored line is in the tree text. -/
def treeEntry (marker : Option LineNumber) (entry : LineNumber × Statement) : List Char :=
  (marginMark marker entry.1).toList ++
    ((toString entry.1).toList ++ ' ' :: entry.2.treeText.toList)

theorem toList_treeText (listing : Listing) (marker : Option LineNumber) :
    (listing.treeText marker).toList = listing.lines.flatMap (treeEntry marker) := by
  have hspace : " ".toList = [' '] := rfl
  unfold treeText treeEntry
  simp only [String.toList_join, List.flatMap_map, String.toList_append, hspace, List.append_assoc,
    List.singleton_append]

theorem marginMark_eq_iff {line : LineNumber} :
    marginMark marker line = marginMark marker' line ↔ (marker = some line ↔ marker' = some line) := by
  unfold marginMark
  by_cases h : marker = some line
  · by_cases h' : marker' = some line
    · simp [h, h']
    · simp [h, h']
  · by_cases h' : marker' = some line
    · simp [h, h']
    · simp [h, h']

theorem eq_of_treeEntry_append (h : entry.2.Drawable) (h' : entry'.2.Drawable)
    (heq : treeEntry marker entry ++ rest = treeEntry marker' entry' ++ rest') :
    entry = entry' ∧ marginMark marker entry.1 = marginMark marker' entry'.1 ∧ rest = rest' := by
  obtain ⟨line, statement⟩ := entry
  obtain ⟨line', statement'⟩ := entry'
  obtain ⟨mark, hmark, -⟩ := exists_marginMark marker line
  obtain ⟨mark', hmark', -⟩ := exists_marginMark marker' line'
  simp only [treeEntry, hmark, hmark', List.cons_append, List.nil_append, List.append_assoc] at heq
  obtain ⟨rfl, hafterMark⟩ := List.cons.inj heq
  have hspace : ' ' ∉ (toString line).toList := Token.notMem_toString_lineNumber (by decide) line
  have hspace' : ' ' ∉ (toString line').toList := Token.notMem_toString_lineNumber (by decide) line'
  obtain ⟨hline, hafterNumber⟩ := eq_of_append_cons hspace hspace' hafterMark
  obtain rfl := Token.toString_lineNumber_inj.mp (String.toList_inj.mp hline)
  obtain ⟨rfl, hrest⟩ := h.eq_of_treeText_append h' hafterNumber
  exact ⟨rfl, String.toList_inj.mp (hmark.trans hmark'.symm), hrest⟩

/-! ### All lines -/

theorem eq_of_flatMap_treeEntry (h : ∀ entry ∈ lines, entry.2.Drawable)
    (h' : ∀ entry ∈ lines', entry.2.Drawable)
    (heq : lines.flatMap (treeEntry marker) = lines'.flatMap (treeEntry marker')) :
    lines = lines' ∧
      ∀ entry ∈ lines, marginMark marker entry.1 = marginMark marker' entry.1 := by
  have hne : ∀ (marker : Option LineNumber) (entry : LineNumber × Statement) (rest : List Char),
      treeEntry marker entry ++ rest ≠ [] := by
    intro marker entry rest
    simp [treeEntry]
  induction lines generalizing lines' with
  | nil =>
      cases lines' with
      | nil => exact ⟨rfl, nofun⟩
      | cons entry' others' =>
          rw [List.flatMap_cons] at heq
          exact absurd heq.symm (hne marker' entry' _)
  | cons entry others ih =>
      cases lines' with
      | nil =>
          rw [List.flatMap_cons] at heq
          exact absurd heq (hne marker entry _)
      | cons entry' others' =>
          obtain ⟨hentry, hothers⟩ := List.forall_mem_cons.mp h
          obtain ⟨hentry', hothers'⟩ := List.forall_mem_cons.mp h'
          rw [List.flatMap_cons, List.flatMap_cons] at heq
          obtain ⟨rfl, hmark, hrest⟩ := eq_of_treeEntry_append hentry hentry' heq
          obtain ⟨rfl, hmarks⟩ := ih hothers hothers' hrest
          exact ⟨rfl, List.forall_mem_cons.mpr ⟨hmark, hmarks⟩⟩

/-- The text tells the lines, and of each whether it is marked. -/
theorem eq_of_treeText_eq {listing other : Listing} (h : ∀ entry ∈ listing.lines, entry.2.Drawable)
    (h' : ∀ entry ∈ other.lines, entry.2.Drawable)
    (heq : listing.treeText marker = other.treeText marker') :
    listing = other ∧ ∀ line ∈ listing.numbers, marker = some line ↔ marker' = some line := by
  have hchars : (listing.treeText marker).toList = (other.treeText marker').toList := congrArg _ heq
  rw [toList_treeText, toList_treeText] at hchars
  obtain ⟨hlines, hmarks⟩ := eq_of_flatMap_treeEntry h h' hchars
  constructor
  · cases listing
    cases other
    exact congrArg _ hlines
  · intro line hline
    obtain ⟨entry, hentry, rfl⟩ := List.mem_map.mp hline
    exact marginMark_eq_iff.mp (hmarks entry hentry)

theorem Reloads.drawable (h : Reloads entry) : entry.2.Drawable := by
  obtain ⟨first, body, -, -, hform⟩ := SourceLine.parse_ok_iff.mp h.reads
  have hstatement : Statement.IsForm body entry.2 := hform
  apply hstatement.drawable
  intro hmem
  exact absurd (h.onOneLine _ hmem) (by decide)

end Listing

namespace Program

variable {program other : Program} {call : Call} {calls others : List Call}

/-! ### Histories -/

theorem reloads_reply (hlines : ∀ entry ∈ program.listing.lines, Listing.Reloads entry)
    (hcall : call.isLineByLine) :
    ∀ entry ∈ (program.reply call).2.listing.lines, Listing.Reloads entry := by
  cases call with
  | load text =>
      have htext : ∀ c ∈ text.toList, SourceLine.isLineEnd c = false := by
        simpa [Call.isLineByLine] using hcall
      rw [reply, Reply.map, load]
      cases hload : program.listing.load text with
      | error fault => exact hlines
      | ok after => exact Listing.reloads_of_load hlines htext hload
  | step skip =>
      rw [reply, Reply.map, step_listing]
      exact hlines
  | carryOutDirectly statement =>
      rw [reply, Reply.map, carryOutDirectly_listing]
      exact hlines
  | store _ _ | rewind => exact hlines
  | insert _ _ => cases hcall

theorem reloads_replies (hlines : ∀ entry ∈ program.listing.lines, Listing.Reloads entry)
    (hcalls : ∀ call ∈ calls, call.isLineByLine) :
    ∀ entry ∈ (program.replies calls).2.listing.lines, Listing.Reloads entry := by
  induction calls generalizing program with
  | nil => exact hlines
  | cons call rest ih =>
      obtain ⟨hcall, hrest⟩ := List.forall_mem_cons.mp hcalls
      exact ih (reloads_reply hlines hcall) hrest

/-! ### Programs -/

theorem WellPlaced.pc_eq_of_marks (h : program.WellPlaced) (h' : other.WellPlaced)
    (hlisting : program.listing = other.listing)
    (hmarks : ∀ line ∈ program.listing.numbers, program.pc = some line ↔ other.pc = some line) :
    program.pc = other.pc := by
  rcases h.counter with ⟨hnone, hempty⟩ | ⟨line, hline, hpc⟩
  · rw [hlisting] at hempty
    rw [hnone, h'.pc_eq_none_iff.mpr hempty]
  · rw [hpc, (hmarks line hline).mp hpc]

theorem WellPlaced.eq_of_treeText_eq (h : program.WellPlaced) (h' : other.WellPlaced)
    (hlines : ∀ entry ∈ program.listing.lines, entry.2.Drawable)
    (hlines' : ∀ entry ∈ other.listing.lines, entry.2.Drawable)
    (heq : program.treeText = other.treeText) :
    program.listing = other.listing ∧ program.pc = other.pc := by
  obtain ⟨hlisting, hmarks⟩ := Listing.eq_of_treeText_eq hlines hlines' heq
  exact ⟨hlisting, h.pc_eq_of_marks h' hlisting hmarks⟩

/-- Programs whose lines were read from source text have the same tree text only if they have the same
lines and the same line is next. -/
theorem treeText_eq_iff (hcalls : ∀ call ∈ calls, call.isLineByLine)
    (hothers : ∀ call ∈ others, call.isLineByLine) :
    (replies {} calls).2.treeText = (replies {} others).2.treeText ↔
      (replies {} calls).2.listing = (replies {} others).2.listing ∧
        (replies {} calls).2.pc = (replies {} others).2.pc := by
  have hplaced : ∀ calls : List Call, (replies {} calls).2.WellPlaced :=
    fun calls => (Reachable.initial.replies calls).wellPlaced
  have hdrawable : ∀ calls : List Call, (∀ call ∈ calls, call.isLineByLine) →
      ∀ entry ∈ (replies {} calls).2.listing.lines, entry.2.Drawable := by
    intro calls hcalls entry hentry
    exact (reloads_replies (by simp) hcalls entry hentry).drawable
  constructor
  · exact (hplaced calls).eq_of_treeText_eq (hplaced others) (hdrawable calls hcalls)
      (hdrawable others hothers)
  · rintro ⟨hlisting, hpc⟩
    rw [treeText, treeText, hlisting, hpc]

/-- Other blanks, parentheses, order and steps; the star is on the jump. -/
theorem treeText_eq_iff_respaced :
    let calls : List Call := [.load "20 IF X<1+2*3 THEN 10", .load "10 LET X = -1", .step false]
    let others : List Call := [.load "10 LET X=0-1", .store "X" 0, .load "20 END",
      .load "20 IF X < (1 + (2 * 3)) THEN 10", .step false, .step false, .rewind, .step false]
    (∀ call ∈ calls, call.isLineByLine) ∧ (∀ call ∈ others, call.isLineByLine) ∧
      (replies {} calls).2.treeText =
        " 10 LET =\n    X\n    -\n        0\n        1\n*20 IF THEN\n    X\n    <\n    +\n        1\n" ++
          "        *\n            2\n            3\n    10\n" ∧
      (replies {} calls).2.listing = (replies {} others).2.listing ∧
        (replies {} calls).2.pc = (replies {} others).2.pc := by
  intro calls others
  have hcalls : ∀ call ∈ calls, call.isLineByLine := by decide +kernel
  have hothers : ∀ call ∈ others, call.isLineByLine := by decide +kernel
  refine ⟨hcalls, hothers, by decide +kernel, ?_⟩
  apply (treeText_eq_iff hcalls hothers).mp
  decide +kernel

end Program

end NumberedBasic
