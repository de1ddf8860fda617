import NumberedBasic.Listing.Source
import NumberedBasic.Proofs.Listing.Neighbours
import NumberedBasic.Proofs.SourceLine.Writing

/-!
# Reloading a listing

A listing that was loaded from lines without line ends has lines without line ends, each of which is
read again as itself. Its text falls apart into just these lines; and since they ascend, each is put
behind all that are there already.
-/

namespace NumberedBasic

namespace Listing

variable {listing after : Listing} {text : String} {line : LineNumber} {statement : Statement}

/-- The source text of a stored line. -/
def entryText (entry : LineNumber × Statement) : String := SourceLine.text ⟨entry.1, some entry.2⟩

/-- A stored line that is one line of text, and is read from it. -/
structure Reloads (entry : LineNumber × Statement) : Prop where
  reads : SourceLine.parse (entryText entry) = .ok (some ⟨entry.1, some entry.2⟩)
  onOneLine : ∀ c ∈ entry.2.text.toList, SourceLine.isLineEnd c = false

/-! ### Listings that were loaded -/

theorem reloads_of_parse
    (h : SourceLine.parse text = .ok (some ⟨line, some statement⟩))
    (htext : ∀ c ∈ text.toList, SourceLine.isLineEnd c = false) : Reloads (line, statement) := by
  have hstatement := SourceLine.isLineEnd_eq_false_of_parse h htext
  refine ⟨(SourceLine.parse_text_iff_of_parse h).mpr ?_, hstatement⟩
  rintro content rfl
  apply Text.trimEnd_of_getLast?
  intro c hc
  apply hstatement
  rw [Statement.text, String.toList_append]
  exact List.mem_append_right _ (List.mem_of_getLast? hc)

theorem reloads_of_load (hlisting : ∀ entry ∈ listing.lines, Reloads entry)
    (htext : ∀ c ∈ text.toList, SourceLine.isLineEnd c = false)
    (hload : listing.load text = .ok after) : ∀ entry ∈ after.lines, Reloads entry := by
  rcases load_cases hload with ⟨-, rfl⟩ | ⟨⟨number, _ | statement⟩, hparse, hput⟩
  · exact hlisting
  · cases hput
    intro entry hentry
    exact hlisting entry (List.mem_filter.mp hentry).1
  · obtain ⟨-, rfl⟩ := insert_eq_ok_iff.mp hput
    intro entry hentry
    rcases mem_place hentry with rfl | hold
    · exact reloads_of_parse hparse htext
    · exact hlisting entry hold

theorem feed_cons (listing : Listing) (text : String) (texts : List String) :
    listing.feed (text :: texts) = ((listing.load text).toOption.getD listing).feed texts := rfl

theorem feed_induction (motive : Listing → Prop) {texts : List String}
    (hload : ∀ listing, motive listing → ∀ text ∈ texts, ∀ after,
      listing.load text = .ok after → motive after)
    (hlisting : motive listing) : motive (listing.feed texts) := by
  induction texts generalizing listing with
  | nil => exact hlisting
  | cons text rest ih =>
      rw [feed_cons]
      apply ih
      · intro before hbefore other hmem
        exact hload before hbefore other (List.mem_cons_of_mem text hmem)
      · cases hafter : listing.load text with
        | error fault => exact hlisting
        | ok after => exact hload listing hlisting text List.mem_cons_self after hafter

/-! ### Lines of the listing text -/

theorem newline_notMem_entryText {entry : LineNumber × Statement} (h : Reloads entry) :
    '\n' ∉ (entryText entry).toList := by
  intro hmem
  rw [entryText, SourceLine.text, String.toList_append, String.toList_append] at hmem
  rcases List.mem_append.mp hmem with hfront | hstatement
  · rcases List.mem_append.mp hfront with hdigit | hspace
    · exact Token.notMem_toString_lineNumber (by decide) entry.1 hdigit
    · exact absurd hspace (by decide)
  · exact absurd (h.onOneLine _ hstatement) (by decide)

theorem exists_marginMark (marker : Option LineNumber) (line : LineNumber) :
    ∃ c, (marginMark marker line).toList = [c] ∧ c ≠ '\n' := by
  unfold marginMark
  split
  · exact ⟨'*', rfl, by decide⟩
  · exact ⟨' ', rfl, by decide⟩

theorem toList_text (listing : Listing) (marker : Option LineNumber) :
    (listing.text marker).toList = listing.lines.flatMap fun entry =>
      ((marginMark marker entry.1).toList ++ (entryText entry).toList) ++ ['\n'] := by
  have hnewline : "\n".toList = ['\n'] := rfl
  simp only [Listing.text, String.toList_join, List.flatMap_map, String.toList_append, entryText,
    SourceLine.text, hnewline, List.append_assoc]

theorem sourceLines_eq (h : ∀ entry ∈ listing.lines, Reloads entry) (marker : Option LineNumber) :
    listing.sourceLines marker = listing.lines.map entryText ++ [""] := by
  rw [sourceLines, toList_text]
  generalize listing.lines = lines at h
  induction lines with
  | nil => rfl
  | cons entry rest ih =>
      obtain ⟨hentry, hrest⟩ := List.forall_mem_cons.mp h
      obtain ⟨mark, hmark, hne⟩ := exists_marginMark marker entry.1
      have hline : '\n' ∉ (marginMark marker entry.1).toList ++ (entryText entry).toList := by
        rw [hmark, List.singleton_append, List.mem_cons]
        exact not_or.mpr ⟨hne.symm, newline_notMem_entryText hentry⟩
      rw [List.flatMap_cons, List.append_assoc, List.singleton_append,
        List.splitOn_append_cons_self_of_not_mem hline, List.map_cons, ih hrest, hmark]
      simp

/-! ### Loading them again -/

theorem load_entryText {lines : List (LineNumber × Statement)} {entry : LineNumber × Statement}
    (hbelow : ∀ other ∈ lines, other.1 < entry.1) (hpositive : entry.1 ≠ 0) (h : Reloads entry) :
    load ⟨lines⟩ (entryText entry) = .ok ⟨lines ++ [entry]⟩ := by
  rw [load, h.reads]
  apply insert_eq_ok_iff.mpr
  rw [place_of_forall_lt hbelow]
  exact ⟨hpositive, rfl⟩

theorem load_empty (listing : Listing) : listing.load "" = .ok listing := by
  have hchars : "".toList = [] := rfl
  rw [load, SourceLine.parse, hchars, Text.trimEnd_nil, Token.scanChars_nil]

theorem loadAll_append_empty {texts : List String} (h : loadAll listing texts = .ok after) :
    loadAll listing (texts ++ [""]) = .ok after := by
  have hlast : loadAll after [""] = .ok after := by
    rw [loadAll, List.foldlM_cons, load_empty]
    rfl
  rw [loadAll] at h ⊢
  rw [List.foldlM_append, h]
  exact hlast

theorem loadAll_entryTexts {before rest : List (LineNumber × Statement)}
    (hascending : Ascending (before ++ rest)) (hpositive : ∀ entry ∈ rest, entry.1 ≠ 0)
    (hreloads : ∀ entry ∈ rest, Reloads entry) :
    loadAll ⟨before⟩ (rest.map entryText) = .ok ⟨before ++ rest⟩ := by
  induction rest generalizing before with
  | nil =>
      rw [List.append_nil]
      rfl
  | cons entry rest ih =>
      obtain ⟨hentry, hrest⟩ := List.forall_mem_cons.mp hpositive
      obtain ⟨hreload, hothers⟩ := List.forall_mem_cons.mp hreloads
      have hbelow : ∀ other ∈ before, other.1 < entry.1 := by
        intro other hother
        exact (List.pairwise_append.mp hascending).2.2 other hother entry List.mem_cons_self
      have hload := load_entryText hbelow hentry hreload
      have hshift : before ++ entry :: rest = (before ++ [entry]) ++ rest := by simp
      rw [hshift] at hascending ⊢
      rw [List.map_cons, loadAll, List.foldlM_cons, hload]
      exact ih hascending hrest hothers

/-- A listing that comes from lines of source text comes again from the lines of its own text, whether
or not the blank one at the end is among them. -/
theorem loadAll_sourceLines {texts : List String}
    (h : ∀ text ∈ texts, '\r' ∉ text.toList ∧ '\n' ∉ text.toList) (marker : Option LineNumber) :
    loadAll {} ((feed {} texts).sourceLines marker) = .ok (feed {} texts) ∧
      loadAll {} ((feed {} texts).sourceLines marker).dropLast = .ok (feed {} texts) := by
  have hends : ∀ text ∈ texts, ∀ c ∈ text.toList, SourceLine.isLineEnd c = false := by
    intro text hmem c hc
    obtain ⟨hreturn, hnewline⟩ := h text hmem
    have hnotReturn : c ≠ '\r' := fun heq => hreturn (heq ▸ hc)
    have hnotNewline : c ≠ '\n' := fun heq => hnewline (heq ▸ hc)
    simp [SourceLine.isLineEnd, hnotReturn, hnotNewline]
  have hnumbered : (feed {} texts).WellNumbered := by
    apply feed_induction WellNumbered
    · intro listing hlisting text _ after hload
      exact hlisting.load hload
    · exact wellNumbered_empty
  have hreloads : ∀ entry ∈ (feed {} texts).lines, Reloads entry := by
    apply feed_induction fun listing => ∀ entry ∈ listing.lines, Reloads entry
    · intro listing hlisting text hmem after hload
      exact reloads_of_load hlisting (hends text hmem) hload
    · simp
  have hpositive : ∀ entry ∈ (feed {} texts).lines, entry.1 ≠ 0 := by
    intro entry hentry hzero
    exact hnumbered.positive (List.mem_map.mpr ⟨entry, hentry, hzero⟩)
  have hlines : loadAll {} ((feed {} texts).lines.map entryText) = .ok (feed {} texts) :=
    loadAll_entryTexts hnumbered.ascending hpositive hreloads
  rw [sourceLines_eq hreloads marker, List.dropLast_concat]
  exact ⟨loadAll_append_empty hlines, hlines⟩

/-- Lines out of order, one that replaces another, one that removes another, and two that fail. -/
theorem loadAll_sourceLines_edited :
    let texts := ["30 REM a  +b", "20 PRINT - x", "10 LET x = 5", "20 IF x > 1 THEN 30", "40 END",
      "LET x = 1", "50 PRINT (", "40"]
    (∀ text ∈ texts, '\r' ∉ text.toList ∧ '\n' ∉ text.toList) ∧
      (feed {} texts).sourceLines (some 20) =
        ["10 LET x = 5", "20 IF x > 1 THEN 30", "30 REM a + b", ""] ∧
      loadAll {} ((feed {} texts).sourceLines (some 20)) = .ok (feed {} texts) := by
  intro texts
  have hends : ∀ text ∈ texts, '\r' ∉ text.toList ∧ '\n' ∉ text.toList := by decide +kernel
  exact ⟨hends, by decide +kernel, (loadAll_sourceLines hends (some 20)).1⟩

end Listing

end NumberedBasic
