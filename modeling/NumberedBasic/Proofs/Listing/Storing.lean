import NumberedBasic.Proofs.Listing.Neighbours
import NumberedBasic.Proofs.SourceLine.Writing

/-!
# Storing lines

What is put into a listing is found under its number, and nothing else is changed. Whether it can be put
there does not depend on the listing. What is found under each number is all that there is to a listing.
-/

namespace NumberedBasic

theorem SourceLine.number_ne_zero {text : String} {line : SourceLine}
    (h : parse text = .ok (some line)) : line.number ≠ 0 := by
  obtain ⟨first, body, -, hnumber, -⟩ := parse_ok_iff.mp h
  exact UInt32.pos_iff_ne_zero.mp (Token.pos_of_lineNumber hnumber)

namespace Listing

variable {listing other after : Listing} {line : LineNumber} {text : String}

/-! ### What can be put in -/

theorem exists_put (h : line ≠ 0) (listing : Listing) (statement : Option Statement) :
    ∃ after, listing.put line statement = .ok after := by
  cases statement with
  | some statement => exact ⟨_, insert_eq_ok_iff.mpr ⟨h, rfl⟩⟩
  | none => exact ⟨_, rfl⟩

/-- What is read can be put into any listing. -/
theorem exists_load {read : Option SourceLine} (h : SourceLine.parse text = .ok read)
    (listing : Listing) : ∃ after, listing.load text = .ok after := by
  unfold load
  rw [h]
  cases read with
  | none => exact ⟨listing, rfl⟩
  | some line => exact exists_put (SourceLine.number_ne_zero h) listing line.statement

theorem load_of_parse_error {fault : Fault} (h : SourceLine.parse text = .error fault)
    (listing : Listing) : listing.load text = .error fault := by
  rw [load, h]

/-! ### What is found -/

theorem get?_put {statement : Option Statement} (h : Ascending listing.lines)
    (hput : listing.put line statement = .ok after) (number : LineNumber) :
    after.get? number = if number = line then statement else listing.get? number := by
  cases statement with
  | none =>
      cases hput
      exact get?_erase listing line number
  | some statement =>
      obtain ⟨-, rfl⟩ := insert_eq_ok_iff.mp hput
      exact lookup_place line number statement h

theorem mem_lines_iff {statement : Statement} (h : Ascending listing.lines) :
    (line, statement) ∈ listing.lines ↔ listing.get? line = some statement := by
  refine ⟨fun hmem => ?_, mem_of_get?⟩
  obtain ⟨before, rest, hlines⟩ := List.append_of_mem hmem
  apply List.lookup_eq_some_iff.mpr
  refine ⟨before, rest, hlines, fun entry hentry => ?_⟩
  have hbelow : entry.1 < line := by
    rw [Ascending, hlines] at h
    exact (List.pairwise_append.mp h).2.2 entry hentry _ List.mem_cons_self
  exact bne_iff_ne.mpr (UInt32.ne_of_lt hbelow).symm

theorem Ascending.nodup (h : Ascending listing.lines) : listing.lines.Nodup := by
  apply List.Pairwise.imp _ h
  rintro entry other hlt rfl
  exact UInt32.lt_irrefl _ hlt

theorem eq_of_get?_eq (h : Ascending listing.lines) (hother : Ascending other.lines)
    (hget : ∀ line, listing.get? line = other.get? line) : listing = other := by
  have hmem : ∀ entry, entry ∈ listing.lines ↔ entry ∈ other.lines := by
    rintro ⟨line, statement⟩
    rw [mem_lines_iff h, mem_lines_iff hother, hget]
  have hperm : listing.lines.Perm other.lines :=
    (List.perm_ext_iff_of_nodup h.nodup hother.nodup).mpr hmem
  have hlines : listing.lines = other.lines := by
    apply hperm.eq_of_pairwise _ h hother
    intro entry entry' _ _ hlt hgt
    exact absurd hgt (UInt32.lt_asymm hlt)
  cases listing
  cases other
  exact congrArg _ hlines

end Listing

end NumberedBasic
