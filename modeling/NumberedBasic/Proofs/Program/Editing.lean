import NumberedBasic.Program.Editing
import NumberedBasic.Proofs.Listing.Storing
import NumberedBasic.Proofs.Program.Counter

/-!
# The last writer wins

A program that was only written consists of what the last successful call about each line has said,
whatever was said before and in whatever order the lines came. Its counter is on the lowest line.
-/

namespace NumberedBasic

theorem Listing.WellNumbered.tabulates {listing : Listing} {stored : LineNumber → Option Statement}
    (h : listing.WellNumbered) (hget : ∀ line, listing.get? line = stored line) :
    listing.Tabulates stored := by
  refine ⟨hget, ?_, h.ascending.numbers, h.ascending.numbers.imp UInt32.ne_of_lt, h.positive, ?_⟩
  · intro line statement
    rw [Listing.mem_lines_iff h.ascending, hget]
  · rw [Listing.size, Listing.numbers, List.length_map]

namespace Program

variable {program other : Program} {call : Call} {calls others : List Call} {line : LineNumber}

/-! ### One edit -/

/-- What an edit makes of a listing. -/
def Call.edited (listing : Listing) : Call → Except Fault Listing
  | insert line statement => listing.put line statement
  | load text => listing.load text
  | step _ | carryOutDirectly _ | store _ _ | rewind => .ok listing

theorem reply_of_isEdit (h : call.isEdit) (program : Program) :
    program.reply call = Reply.map (fun _ => none) (program.edit (call.edited program.listing)) := by
  cases call with
  | insert _ _ | load _ => rfl
  | step _ | carryOutDirectly _ | store _ _ | rewind => cases h

theorem isOk_reply_of_isEdit (h : call.isEdit) (program : Program) :
    (program.reply call).1.isOk = (call.edited program.listing).isOk := by
  rw [reply_of_isEdit h]
  cases call.edited program.listing with
  | error fault => rfl
  | ok after => rfl

/-- Whether an edit succeeds does not depend on what is there. -/
theorem isOk_edited (call : Call) (listing after : Listing) :
    (call.edited listing).isOk = (call.edited after).isOk := by
  cases call with
  | insert line statement =>
      unfold Call.edited Listing.put Listing.insert
      cases statement with
      | none => rfl
      | some statement =>
          dsimp only
          split
          · rfl
          · rfl
  | load text =>
      unfold Call.edited
      dsimp only
      cases hparse : SourceLine.parse text with
      | error fault =>
          rw [Listing.load_of_parse_error hparse, Listing.load_of_parse_error hparse]
      | ok read =>
          obtain ⟨first, hfirst⟩ := Listing.exists_load hparse listing
          obtain ⟨second, hsecond⟩ := Listing.exists_load hparse after
          rw [hfirst, hsecond]
          rfl
  | step _ | carryOutDirectly _ | store _ _ | rewind => rfl

theorem lastSaid?_append (earlier later : List Entry) (line : LineNumber) :
    lastSaid? (earlier ++ later) line = (lastSaid? later line).or (lastSaid? earlier line) := by
  unfold lastSaid?
  rw [List.filter_append, List.getLast?_append, Option.map_or]

theorem lastSaid?_singleton (entry : Entry) (line : LineNumber) :
    lastSaid? [entry] line = if line = entry.1 then some entry.2 else none := by
  unfold lastSaid?
  by_cases h : line = entry.1
  · simp [h]
  · simp [h, Ne.symm h]

theorem get?_of_edited {listing after : Listing} (h : Listing.Ascending listing.lines)
    (hedited : call.edited listing = .ok after) (line : LineNumber) :
    after.get? line = (lastSaid? call.about?.toList line).getD (listing.get? line) := by
  have hput : ∀ entry : Entry, listing.put entry.1 entry.2 = .ok after →
      after.get? line = (lastSaid? [entry] line).getD (listing.get? line) := by
    intro entry hentry
    rw [Listing.get?_put h hentry, lastSaid?_singleton]
    split
    · rfl
    · rfl
  cases call with
  | insert number statement => exact hput (number, statement) hedited
  | load text =>
      rcases Listing.load_cases hedited with ⟨hparse, rfl⟩ | ⟨read, hparse, hread⟩
      · simp [Call.about?, hparse, lastSaid?]
      · have hentry : (Call.load text).about? = some (read.number, read.statement) := by
          simp only [Call.about?, hparse]
        rw [hentry]
        exact hput (read.number, read.statement) hread
  | step _ | carryOutDirectly _ | store _ _ | rewind =>
      cases hedited
      rfl

/-- An edit gives the line what it says, if it succeeds, and changes no other line. -/
theorem get?_reply_of_isEdit (h : program.WellPlaced) (hedit : call.isEdit) (line : LineNumber) :
    (program.reply call).2.listing.get? line =
      (lastSaid? (program.written call) line).getD (program.listing.get? line) := by
  rw [written, isOk_reply_of_isEdit hedit, reply_of_isEdit hedit]
  cases hedited : call.edited program.listing with
  | error fault => rfl
  | ok after => exact get?_of_edited h.numbered.ascending hedited line

theorem atTop_reply_of_isEdit (h : program.WellPlaced) (htop : program.AtTop) (hedit : call.isEdit) :
    (program.reply call).2.AtTop := by
  have hafter := h.reply call
  apply atTop_of_first? hafter.numbered
  rw [reply_of_isEdit hedit]
  cases call.edited program.listing with
  | error fault => exact htop.pc_eq h.numbered
  | ok after => rfl

/-! ### Every history -/

theorem get?_replies (h : program.WellPlaced) (hcalls : ∀ call ∈ calls, call.isEdit)
    (line : LineNumber) :
    (program.replies calls).2.listing.get? line =
      (lastSaid? (program.entries calls) line).getD (program.listing.get? line) := by
  induction calls generalizing program with
  | nil => rfl
  | cons call rest ih =>
      obtain ⟨hcall, hrest⟩ := List.forall_mem_cons.mp hcalls
      rw [replies, entries, lastSaid?_append, ih (h.reply call) hrest, get?_reply_of_isEdit h hcall]
      cases lastSaid? ((program.reply call).2.entries rest) line with
      | none => rfl
      | some said => rfl

theorem atTop_replies (h : program.WellPlaced) (htop : program.AtTop)
    (hcalls : ∀ call ∈ calls, call.isEdit) : (program.replies calls).2.AtTop := by
  induction calls generalizing program with
  | nil => exact htop
  | cons call rest ih =>
      obtain ⟨hcall, hrest⟩ := List.forall_mem_cons.mp hcalls
      exact ih (h.reply call) (atTop_reply_of_isEdit h htop hcall) hrest

/-! ### Order of entry -/

theorem written_eq (h : call.isEdit) (program other : Program) :
    program.written call = other.written call := by
  rw [written, written, isOk_reply_of_isEdit h, isOk_reply_of_isEdit h,
    isOk_edited call program.listing other.listing]

theorem filter_written (program : Program) (call : Call) (line : LineNumber) :
    (program.written call).filter (·.1 = line) =
      if call.concerns line then program.written call else [] := by
  unfold written Call.concerns
  split
  · cases call.about? with
    | none => simp
    | some entry =>
        by_cases h : entry.1 = line
        · simp [h]
        · simp [h]
  · simp

/-- What is written about a line is decided by the calls about it. -/
theorem filter_entries (hcalls : ∀ call ∈ calls, call.isEdit) (line : LineNumber) :
    (program.entries calls).filter (·.1 = line) =
      (calls.filter (·.concerns line)).flatMap (written {}) := by
  induction calls generalizing program with
  | nil => rfl
  | cons call rest ih =>
      obtain ⟨hcall, hrest⟩ := List.forall_mem_cons.mp hcalls
      rw [entries, List.filter_append, filter_written, ih hrest, written_eq hcall program {},
        List.filter_cons]
      split
      · rw [List.flatMap_cons]
      · rw [List.nil_append]

theorem lastSaid?_entries_of_sameByLine (hcalls : ∀ call ∈ calls, call.isEdit)
    (hothers : ∀ call ∈ others, call.isEdit) (hsame : SameByLine calls others) (line : LineNumber) :
    lastSaid? (program.entries calls) line = lastSaid? (program.entries others) line := by
  unfold lastSaid?
  rw [filter_entries hcalls, filter_entries hothers, hsame line]

/-- Two neighbours that are not about the same line may change places. -/
theorem sameByLine_swap {first second : Call} (h : first.isApart second) (before after : List Call) :
    SameByLine (before ++ first :: second :: after) (before ++ second :: first :: after) := by
  intro line
  have hapart : first.concerns line → ¬ second.concerns line := by
    intro hfirst hsecond
    obtain ⟨entry, hentry, hline⟩ := (Option.any_eq_true _ _).mp hfirst
    obtain rfl : entry.1 = line := by simpa using hline
    have hnot := (Option.all_eq_true _ _).mp h entry hentry
    rw [hsecond] at hnot
    cases hnot
  simp only [List.filter_append, List.filter_cons]
  by_cases hfirst : first.concerns line
  · rw [if_pos hfirst, if_neg (hapart hfirst), if_neg (hapart hfirst), if_pos hfirst]
  · rw [if_neg hfirst, if_neg hfirst]

/-! ### The listing as a map -/

/-- The listing tells of each line what was said last, the counter is on the lowest line, and calls
about different lines may have come in any order. -/
theorem last_writer_wins (hcalls : ∀ call ∈ calls, call.isEdit) :
    (replies {} calls).2.listing.Tabulates (fun line => (lastSaid? (entries {} calls) line).join) ∧
      (replies {} calls).2.AtTop ∧
      ∀ others : List Call, (∀ call ∈ others, call.isEdit) → SameByLine calls others →
        (replies {} others).2.listing = (replies {} calls).2.listing ∧
          (replies {} others).2.text = (replies {} calls).2.text ∧
          (replies {} others).2.treeText = (replies {} calls).2.treeText := by
  have hget : ∀ calls : List Call, (∀ call ∈ calls, call.isEdit) → ∀ line,
      (replies {} calls).2.listing.get? line = (lastSaid? (entries {} calls) line).join := by
    intro calls hcalls line
    rw [get?_replies wellPlaced_empty hcalls]
    cases lastSaid? (entries {} calls) line with
    | none => rfl
    | some said => rfl
  have hnumbered : ∀ calls : List Call, (replies {} calls).2.listing.WellNumbered :=
    fun calls => (Reachable.initial.replies calls).wellPlaced.numbered
  have htop : ∀ calls : List Call, (∀ call ∈ calls, call.isEdit) → (replies {} calls).2.AtTop :=
    fun calls hcalls => atTop_replies wellPlaced_empty rfl hcalls
  refine ⟨(hnumbered calls).tabulates (hget calls hcalls), htop calls hcalls, ?_⟩
  intro others hothers hsame
  have hlisting : (replies {} others).2.listing = (replies {} calls).2.listing := by
    apply Listing.eq_of_get?_eq (hnumbered others).ascending (hnumbered calls).ascending
    intro line
    rw [hget others hothers, hget calls hcalls, lastSaid?_entries_of_sameByLine hcalls hothers hsame]
  have hpc : (replies {} others).2.pc = (replies {} calls).2.pc := by
    rw [(htop others hothers).pc_eq (hnumbered others), (htop calls hcalls).pc_eq (hnumbered calls),
      hlisting]
  refine ⟨hlisting, ?_, ?_⟩
  · rw [Program.text, Program.text, hlisting, hpc]
  · rw [Program.treeText, Program.treeText, hlisting, hpc]

/-- Line 10 is removed and line 30 replaced; a text that cannot be read, a statement for line 0 and a
blank text have no part in it. -/
def rewriting : List Call :=
  [.load "020 PRINT (", .insert 0 (some .finish), .insert 10 none, .load "30 END", .load "",
    .load "020 INPUT B"]

theorem last_writer_wins_rewriting :
    let calls := .load "30 PRINT A" :: .insert 10 (some .finish) :: rewriting
    let others := .insert 10 (some .finish) :: .load "30 PRINT A" :: rewriting
    (∀ call ∈ calls, call.isEdit) ∧ (∀ call ∈ others, call.isEdit) ∧ SameByLine calls others ∧
      (replies {} calls).2.listing.get? 10 = none ∧
      (replies {} calls).2.listing.get? 30 = some .finish ∧ (replies {} calls).2.AtTop ∧
      (replies {} others).2.text = "*20 INPUT B\n 30 END\n" := by
  intro calls others
  have hcalls : ∀ call ∈ calls, call.isEdit := by simp [calls, rewriting, Call.isEdit]
  have hothers : ∀ call ∈ others, call.isEdit := by simp [others, rewriting, Call.isEdit]
  have hsame : SameByLine calls others := by
    apply sameByLine_swap _ [] rewriting
    decide +kernel
  obtain ⟨htable, htop, horder⟩ := last_writer_wins hcalls
  refine ⟨hcalls, hothers, hsame, ?_, ?_, htop, ?_⟩
  · rw [htable.get?_eq]
    decide +kernel
  · rw [htable.get?_eq]
    decide +kernel
  · rw [(horder others hothers hsame).2.1]
    decide +kernel

end Program

end NumberedBasic
