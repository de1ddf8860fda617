import Mathlib.Data.List.Forall2
import NumberedBasic.Proofs.Shell.Readings
import NumberedBasic.SourceFile.LineEnds

/-!
# Line ends do not matter

A carriage return at the end of a line is dropped with its line feed, and where it is left over, because
no line feed follows, it is trimmed when the line is read. A file is therefore loaded in the same way
however its lines end.
-/

namespace NumberedBasic

theorem SourceLine.parse_append_return (text : String) : parse (text ++ "\r") = parse text := by
  have hreturn : "\r".toList = ['\r'] := rfl
  rw [parse, parse, String.toList_append, hreturn, Text.trimEnd_append_singleton_of_pos rfl]

theorem Listing.load_congr {text other : String} (h : SourceLine.parse text = SourceLine.parse other)
    (listing : Listing) : listing.load text = listing.load other := by
  rw [load, load, h]

namespace SourceFile

variable {bytes : List UInt8} {content other : List UInt8}

/-- What stands in front of changed line ends may be any text. -/
theorem Respelled.append (text : List UInt8) (h : Respelled content other) :
    Respelled (text ++ content) (text ++ other) := by
  induction text with
  | nil => exact h
  | cons byte rest ih => exact .kept byte ih

/-! ### A return behind a line -/

/-- A carriage return is a character by itself, so that what stands in front of it is text if the whole
is. -/
theorem isValidUTF8_append_return_iff :
    (ByteArray.mk (bytes ++ [13]).toArray).IsValidUTF8 ↔ (ByteArray.mk bytes.toArray).IsValidUTF8 := by
  constructor
  · intro hvalid
    let text : String := ⟨_, hvalid⟩
    have hend : text.rawEndPos = ⟨bytes.length + 1⟩ := by
      simp [text, String.rawEndPos, String.utf8ByteSize, ByteArray.size]
    have hlt : (⟨bytes.length⟩ : String.Pos.Raw) < text.rawEndPos := by
      rw [hend]
      exact Nat.lt_succ_self _
    have hbyte : text.getUTF8Byte ⟨bytes.length⟩ hlt = 13 := by
      simp [text, String.getUTF8Byte, ByteArray.getElem_eq_getElem_data]
    have hfirst : (text.getUTF8Byte ⟨bytes.length⟩ hlt).IsUTF8FirstByte := by
      rw [hbyte]
      decide
    have hposition := String.Pos.Raw.isValid_iff_isUTF8FirstByte.mpr (.inr ⟨hlt, hfirst⟩)
    have hfront := (String.Pos.Raw.isValid_iff_isValidUTF8_extract_zero.mp hposition).2
    have hextract : text.toByteArray.extract 0 bytes.length = ⟨bytes.toArray⟩ := by
      simp [text, ByteArray.ext_iff]
    rwa [hextract] at hfront
  · intro hvalid
    have hpush : (ByteArray.mk bytes.toArray).push '\r'.toUInt8 = ⟨(bytes ++ [13]).toArray⟩ := by
      rw [ByteArray.ext_iff, ← List.append_toArray]
      rfl
    rw [← hpush]
    exact hvalid.push rfl

theorem decode?_append_return (bytes : List UInt8) :
    decode? (bytes ++ [13]) = (decode? bytes).map (· ++ "\r") := by
  unfold decode? String.fromUTF8?
  by_cases hvalid : (ByteArray.mk bytes.toArray).IsValidUTF8
  · rw [dif_pos hvalid, dif_pos (isValidUTF8_append_return_iff.mpr hvalid), Option.map_some,
      Option.some.injEq]
    apply String.toByteArray_inj.mp
    rw [String.toByteArray_append, ByteArray.ext_iff, ByteArray.data_append]
    exact (List.append_toArray bytes [13]).symm
  · have hreturn : ¬(ByteArray.mk (bytes ++ [13]).toArray).IsValidUTF8 := fun hwhole =>
      hvalid (isValidUTF8_append_return_iff.mp hwhole)
    rw [dif_neg hvalid, dif_neg hreturn, Option.map_none]

/-- Both are read as the same line, or neither is text. -/
def ReadsAlike (bytes other : List UInt8) : Prop :=
  (decode? bytes).map SourceLine.parse = (decode? other).map SourceLine.parse

theorem readsAlike_append_return (bytes : List UInt8) : ReadsAlike bytes (bytes ++ [13]) := by
  have hparse : SourceLine.parse ∘ (· ++ "\r") = SourceLine.parse :=
    funext SourceLine.parse_append_return
  rw [ReadsAlike, decode?_append_return, Option.map_map, hparse]

/-! ### Lines -/

/-- The same line, but for a return behind it. -/
def EndsAlike (bytes other : List UInt8) : Prop := other = bytes ∨ other = bytes ++ [13]

theorem EndsAlike.readsAlike {other : List UInt8} (h : EndsAlike bytes other) :
    ReadsAlike bytes other := by
  rcases h with rfl | rfl
  · rfl
  · exact readsAlike_append_return bytes

theorem EndsAlike.cons {other : List UInt8} (h : EndsAlike bytes other) (byte : UInt8) :
    EndsAlike (byte :: bytes) (byte :: other) :=
  h.imp (congrArg _) (congrArg _)

theorem lines_cons_of_nil {byte : UInt8} {rest : List UInt8} (hfeed : byte ≠ 10)
    (hreturn : ∀ tail, byte = 13 → rest ≠ 10 :: tail) (hrest : lines rest = []) :
    lines (byte :: rest) = [[byte]] := by
  rw [lines, hrest]
  · exact hreturn
  · exact hfeed

theorem lines_cons_of_cons {byte : UInt8} {rest line : List UInt8} {others : List (List UInt8)}
    (hfeed : byte ≠ 10) (hreturn : ∀ tail, byte = 13 → rest ≠ 10 :: tail)
    (hrest : lines rest = line :: others) : lines (byte :: rest) = (byte :: line) :: others := by
  rw [lines, hrest]
  · exact hreturn
  · exact hfeed

/-- Without a line feed there is one line, with any carriage returns in it. -/
theorem lines_of_notMem (hne : bytes ≠ []) (hfeed : 10 ∉ bytes) : lines bytes = [bytes] := by
  induction bytes with
  | nil => exact absurd rfl hne
  | cons byte rest ih =>
      obtain ⟨hbyte, hrest⟩ := List.ne_and_not_mem_of_not_mem_cons hfeed
      have hreturn : ∀ tail, byte = 13 → rest ≠ 10 :: tail := by
        rintro tail - rfl
        exact hrest List.mem_cons_self
      by_cases hempty : rest = []
      · subst hempty
        exact lines_cons_of_nil hbyte.symm hreturn rfl
      · exact lines_cons_of_cons hbyte.symm hreturn (ih hempty hrest)

theorem endsAlike_lines (h : Respelled content other) (hreturn : 13 ∉ content) :
    List.Forall₂ EndsAlike (lines content) (lines other) := by
  induction h with
  | done => exact .nil
  | @kept rest other byte _ ih =>
      obtain ⟨hbyte, hrest⟩ := List.ne_and_not_mem_of_not_mem_cons hreturn
      have hlines := ih hrest
      by_cases hfeed : byte = 10
      · subst hfeed
        exact .cons (.inl rfl) hlines
      · have hplain : ∀ {tail : List UInt8} after, byte = 13 → tail ≠ 10 :: after :=
          fun _ heq => absurd heq.symm hbyte
        generalize hfirst : lines rest = first, hsecond : lines other = second at hlines
        cases hlines with
        | nil =>
            rw [lines_cons_of_nil hfeed hplain hfirst, lines_cons_of_nil hfeed hplain hsecond]
            exact .cons (.inl rfl) .nil
        | cons hline hothers =>
            rw [lines_cons_of_cons hfeed hplain hfirst, lines_cons_of_cons hfeed hplain hsecond]
            exact .cons (hline.cons byte) hothers
  | ended _ ih =>
      obtain ⟨-, hrest⟩ := List.ne_and_not_mem_of_not_mem_cons hreturn
      exact .cons (.inl rfl) (ih hrest)
  | @unended line hne hfeed =>
      have hfeedBehind : 10 ∉ line ++ [13] := by simpa using hfeed
      rw [lines_of_notMem hne hfeed, lines_of_notMem (by simp) hfeedBehind]
      exact .cons (.inr rfl) .nil

/-! ### Files -/

theorem loadLines_congr {lines others : List (List UInt8)} (h : List.Forall₂ ReadsAlike lines others)
    (position : Nat) (program : Program) :
    loadLines position program lines = loadLines position program others := by
  induction h generalizing position program with
  | nil => rfl
  | @cons bytes other _ _ hline _ ih =>
      unfold ReadsAlike at hline
      rw [loadLines, loadLines]
      cases hdecode : decode? bytes with
      | none =>
          rw [hdecode, Option.map_none] at hline
          rw [Option.map_eq_none_iff.mp hline.symm]
      | some text =>
          rw [hdecode, Option.map_some] at hline
          obtain ⟨twin, hother, hparse⟩ := Option.map_eq_some_iff.mp hline.symm
          rw [hother]
          simp only [Program.load, Listing.load_congr hparse, ih]

theorem load_eq_of_respelled (h : Respelled content other) (hreturn : 13 ∉ content) :
    load content = load other :=
  loadLines_congr ((endsAlike_lines h hreturn).imp fun _ _ => EndsAlike.readsAlike) 1 {}

end SourceFile

namespace Shell

variable {σ : Type} {console : Console (StateM σ)} {world later : σ} {file : String}
  {content other : List UInt8}

/-- A file that has no carriage return is loaded in the same way when its line ends are changed: as the
same program, or with the same complaint. -/
theorem loadFile_eq_of_respelled (h : SourceFile.Respelled content other) (hreturn : 13 ∉ content)
    (hcontent : ((console.contents file).run world).1 = .ok content)
    (hother : ((console.contents file).run later).1 = .ok other) :
    ((loadFile console file).run later).1 = ((loadFile console file).run world).1 := by
  have hload := SourceFile.load_eq_of_respelled h hreturn
  rw [loadFile_of_contents hcontent, loadFile_of_contents hother, hload]

def encode (text : String) : List UInt8 := text.toUTF8.data.toList

/-- A line is stored and removed again, a blank line and a remark stand in between, and the last line is
not ended. -/
def notes (first second last : List UInt8) : List UInt8 :=
  encode "10 PRINT 1" ++ (first ++ (encode "\n20 REM A\n10" ++ (second ++ (encode "30 END" ++ last))))

/-- The second line is no statement. -/
def brokenNotes (first second : List UInt8) : List UInt8 :=
  encode "10 END" ++ (first ++ (encode "20 PLINT 1" ++ second))

def folder (notes broken : List UInt8) : Script where
  cues := []
  files := Directory.ofFiles [("notes.bas", notes), ("broken.bas", broken)]

/-- Two folders of the same files, with different line ends. -/
theorem loadFile_eq_of_respelled_mixed :
    let plain := folder (notes [10] [10] []) (brokenNotes [10] [10])
    let mixed := folder (notes [13, 10] [10] [13]) (brokenNotes [10] [13, 10])
    SourceFile.Respelled (notes [10] [10] []) (notes [13, 10] [10] [13]) ∧
      13 ∉ notes [10] [10] [] ∧
      SourceFile.Respelled (brokenNotes [10] [10]) (brokenNotes [10] [13, 10]) ∧
      13 ∉ brokenNotes [10] [10] ∧
      ((loadFile Script.console "notes.bas").run mixed).1 =
        ((loadFile Script.console "notes.bas").run plain).1 ∧
      ((loadFile Script.console "broken.bas").run mixed).1 =
        ((loadFile Script.console "broken.bas").run plain).1 ∧
      ((loadFile Script.console "notes.bas").run mixed).1.toOption.map (·.listing.numbers) =
        some [20, 30] ∧
      ((loadFile Script.console "broken.bas").run mixed).1.toOption = none := by
  intro plain mixed
  have hnotes : SourceFile.Respelled (notes [10] [10] []) (notes [13, 10] [10] [13]) := by
    refine .append (encode "10 PRINT 1") (.ended (.append (encode "\n20 REM A\n10") (.kept 10 ?_)))
    exact .unended (by decide +kernel) (by decide +kernel)
  have hnoReturn : 13 ∉ notes [10] [10] [] := by decide +kernel
  have hbroken : SourceFile.Respelled (brokenNotes [10] [10]) (brokenNotes [10] [13, 10]) :=
    .append (encode "10 END") (.kept 10 (.append (encode "20 PLINT 1") (.ended .done)))
  have hbrokenNoReturn : 13 ∉ brokenNotes [10] [10] := by decide +kernel
  refine ⟨hnotes, hnoReturn, hbroken, hbrokenNoReturn, ?_, ?_, ?_, ?_⟩
  · exact loadFile_eq_of_respelled hnotes hnoReturn rfl rfl
  · exact loadFile_eq_of_respelled hbroken hbrokenNoReturn rfl rfl
  · decide +kernel
  · decide +kernel

end Shell

end NumberedBasic
