import NumberedBasic.Listing.Walk
import NumberedBasic.Proofs.Listing.Neighbours

/-!
# The walk visits every line

Going from each line to the one after it comes past all stored lines in the order in which they are
listed, past each of them once, and ends at the last one.
-/

namespace NumberedBasic

namespace Listing

variable {listing : Listing} {line other : LineNumber} {count index : Nat}

theorem WellNumbered.edited {edit : Edit} {after : Listing} (h : WellNumbered listing)
    (hafter : listing.edited edit = .ok after) : WellNumbered after := by
  cases edit with
  | insert line statement => exact h.insert hafter
  | erase line =>
      cases hafter
      exact h.erase line
  | load text => exact h.load hafter

theorem WellNumbered.editAll (h : WellNumbered listing) (edits : List Edit) :
    WellNumbered (listing.editAll edits) := by
  induction edits generalizing listing with
  | nil => exact h
  | cons edit rest ih =>
      have hfirst : WellNumbered ((listing.edited edit).toOption.getD listing) := by
        cases hafter : listing.edited edit with
        | error fault => exact h
        | ok after => exact h.edited hafter
      exact ih hfirst

/-! ### Places in the order -/

theorem lt_iff_of_getElem? (h : Ascending listing.lines) (hline : listing.numbers[count]? = some line)
    (hother : listing.numbers[index]? = some other) : line < other ↔ count < index := by
  obtain ⟨hcount, rfl⟩ := List.getElem?_eq_some_iff.mp hline
  obtain ⟨hindex, rfl⟩ := List.getElem?_eq_some_iff.mp hother
  have hascends := List.pairwise_iff_getElem.mp h.numbers
  constructor
  · intro hlt
    rcases Nat.lt_trichotomy count index with hbefore | rfl | hbehind
    · exact hbefore
    · exact absurd hlt (UInt32.lt_irrefl _)
    · exact absurd hlt (UInt32.lt_asymm (hascends index count hindex hcount hbehind))
  · exact hascends count index hcount hindex

/-- The line after a stored one is the next one in the list. -/
theorem after?_of_getElem? (h : Ascending listing.lines)
    (hline : listing.numbers[count]? = some line) :
    listing.after? line = listing.numbers[count + 1]? := by
  cases hnext : listing.numbers[count + 1]? with
  | none =>
      rw [after?_eq_none_iff]
      intro other hmem hlt
      obtain ⟨index, hother⟩ := List.mem_iff_getElem?.mp hmem
      have hcount := (lt_iff_of_getElem? h hline hother).mp hlt
      obtain ⟨hindex, -⟩ := List.getElem?_eq_some_iff.mp hother
      have hlength := List.getElem?_eq_none_iff.mp hnext
      omega
  | some next =>
      rw [after?_eq_some_iff h]
      refine ⟨List.mem_iff_getElem?.mpr ⟨_, hnext⟩, ?_, ?_⟩
      · exact (lt_iff_of_getElem? h hline hnext).mpr (Nat.lt_succ_self count)
      · intro other hmem hlt
        obtain ⟨index, hother⟩ := List.mem_iff_getElem?.mp hmem
        have hcount := (lt_iff_of_getElem? h hline hother).mp hlt
        apply UInt32.not_lt.mp
        rw [lt_iff_of_getElem? h hother hnext]
        omega

/-! ### The walk -/

theorem visit?_eq (h : Ascending listing.lines) (count : Nat) :
    listing.visit? count = listing.numbers[count]? := by
  induction count with
  | zero => rw [visit?, first?, List.head?_eq_getElem?]
  | succ count ih =>
      rw [visit?, ih]
      cases hline : listing.numbers[count]? with
      | none =>
          have hlength := List.getElem?_eq_none_iff.mp hline
          exact (List.getElem?_eq_none (Nat.le_succ_of_le hlength)).symm
      | some line => exact after?_of_getElem? h hline

/-- After any edits the line after a number is the least stored one above it, and the walk visits the
stored lines one after the other until it has been at the last. -/
theorem visit?_editAll (edits : List Edit) :
    let listing := editAll {} edits
    (∀ line next, listing.after? line = some next ↔ next ∈ listing.numbers ∧ line < next ∧
        ∀ other ∈ listing.numbers, line < other → next ≤ other) ∧
      (∀ line, listing.after? line = none ↔ ∀ number ∈ listing.numbers, number ≤ line) ∧
      (∀ count, listing.visit? count = listing.numbers[count]?) ∧
      listing.numbers.Nodup ∧
      (∀ count, listing.visit? count = none ↔ listing.size ≤ count) ∧
      listing.visit? (listing.size - 1) = listing.last? := by
  intro listing
  have hascending : Ascending listing.lines := (wellNumbered_empty.editAll edits).ascending
  have hsize : listing.numbers.length = listing.size := by rw [numbers, List.length_map, size]
  refine ⟨fun _ _ => after?_eq_some_iff hascending, ?_, visit?_eq hascending, ?_, ?_, ?_⟩
  · intro line
    rw [after?_eq_none_iff]
    simp only [UInt32.not_lt]
  · exact hascending.numbers.imp UInt32.ne_of_lt
  · intro count
    rw [visit?_eq hascending, List.getElem?_eq_none_iff, hsize]
  · rw [visit?_eq hascending, last?, List.getLast?_eq_getElem?, hsize]

/-- Numbers at both ends of the range, with a gap where a line was removed. -/
example : (List.range 4).map (editAll {} [.load "4294967295 END", .insert 1 .finish, .load "7 REM",
    .insert 0 .finish, .load "5 PRINT A", .erase 7]).visit? = [some 1, some 5, some 4294967295, none] := by
  decide +kernel

end Listing

end NumberedBasic
