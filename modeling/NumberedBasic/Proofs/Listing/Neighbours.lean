import NumberedBasic.Listing

/-!
# Neighbours of a line

The stored numbers ascend and none of them is 0, whatever lines are put in. The line after a number is
the least one above it, and a stored line that is not the last one has a line after it.
-/

namespace NumberedBasic

namespace Listing

variable {listing : Listing} {line next : LineNumber}

/-! ### Stored numbers -/

theorem mem_numbers_iff : line ∈ listing.numbers ↔ (listing.get? line).isSome := by
  unfold numbers get?
  induction listing.lines with
  | nil => simp
  | cons entry rest ih =>
      obtain ⟨number, statement⟩ := entry
      by_cases h : line = number
      · simp [h]
      · have hbeq : (line == number) = false := beq_eq_false_iff_ne.mpr h
        simp [List.lookup_cons, hbeq, h, ih]

theorem mem_of_get? {statement : Statement} (h : listing.get? line = some statement) :
    (line, statement) ∈ listing.lines := by
  obtain ⟨before, rest, hlines, -⟩ := List.lookup_eq_some_iff.mp h
  rw [hlines]
  exact List.mem_append_right before List.mem_cons_self

theorem numbers_eq_nil_iff : listing.numbers = [] ↔ listing.isEmpty := by
  simp [numbers, isEmpty]

theorem first?_eq_none_iff : listing.first? = none ↔ listing.numbers = [] := by
  simp [first?]

theorem mem_of_first? (h : listing.first? = some line) : line ∈ listing.numbers :=
  List.mem_of_mem_head? h

theorem resolve_eq_ok_iff {target : LineNumber} :
    listing.resolve target = .ok line ↔ line = target ∧ target ∈ listing.numbers := by
  unfold resolve
  rw [mem_numbers_iff]
  split
  next h => simp [h, eq_comm]
  next h => simp [h]

/-- The numbers ascend, and none of them is 0. -/
structure WellNumbered (listing : Listing) : Prop where
  ascending : Ascending listing.lines
  positive : 0 ∉ listing.numbers

theorem insert_eq_ok_iff {statement : Statement} {after : Listing} :
    listing.insert line statement = .ok after ↔
      line ≠ 0 ∧ after = ⟨place line statement listing.lines⟩ := by
  unfold insert
  split
  next h => simp [h]
  next h => simp [h, eq_comm]

theorem load_cases {text : String} {after : Listing} (h : listing.load text = .ok after) :
    (SourceLine.parse text = .ok none ∧ after = listing) ∨
      ∃ read, SourceLine.parse text = .ok (some read) ∧
        listing.put read.number read.statement = .ok after := by
  unfold load at h
  split at h
  next => cases h
  next hparse =>
    cases h
    exact .inl ⟨hparse, rfl⟩
  next read hparse => exact .inr ⟨read, hparse, h⟩

theorem wellNumbered_empty : WellNumbered {} := ⟨List.Pairwise.nil, by simp [numbers]⟩

theorem WellNumbered.insert {statement : Statement} {after : Listing} (h : WellNumbered listing)
    (hinsert : listing.insert line statement = .ok after) : WellNumbered after := by
  obtain ⟨hline, rfl⟩ := insert_eq_ok_iff.mp hinsert
  refine ⟨h.ascending.place line statement, fun hzero => ?_⟩
  obtain ⟨entry, hentry, hnumber⟩ := List.mem_map.mp hzero
  rcases mem_place hentry with rfl | hold
  · exact hline hnumber
  · exact h.positive (List.mem_map.mpr ⟨entry, hold, hnumber⟩)

theorem WellNumbered.erase (h : WellNumbered listing) (line : LineNumber) :
    WellNumbered (listing.erase line) := by
  refine ⟨h.ascending.erase line, fun hzero => ?_⟩
  obtain ⟨entry, hentry, hnumber⟩ := List.mem_map.mp hzero
  exact h.positive (List.mem_map.mpr ⟨entry, (List.mem_filter.mp hentry).1, hnumber⟩)

theorem WellNumbered.put {statement : Option Statement} {after : Listing}
    (h : WellNumbered listing) (hput : listing.put line statement = .ok after) :
    WellNumbered after := by
  cases statement with
  | some statement => exact h.insert hput
  | none =>
      cases hput
      exact h.erase line

theorem WellNumbered.load {text : String} {after : Listing} (h : WellNumbered listing)
    (hload : listing.load text = .ok after) : WellNumbered after := by
  rcases load_cases hload with ⟨-, rfl⟩ | ⟨read, -, hput⟩
  · exact h
  · exact h.put hput

/-- A line above all others is put behind them. -/
theorem place_of_forall_lt {statement : Statement} {lines : List (LineNumber × Statement)}
    (h : ∀ entry ∈ lines, entry.1 < line) :
    place line statement lines = lines ++ [(line, statement)] := by
  induction lines with
  | nil => rfl
  | cons first rest ih =>
      obtain ⟨hfirst, hrest⟩ := List.forall_mem_cons.mp h
      have hnotBelow : ¬ line < first.1 := UInt32.lt_asymm hfirst
      have hother : line ≠ first.1 := fun heq => UInt32.lt_irrefl _ (heq ▸ hfirst)
      rw [place, if_neg hnotBelow, if_neg hother, ih hrest, List.cons_append]

/-! ### The line after a number -/

theorem Ascending.numbers (h : Ascending listing.lines) : listing.numbers.Pairwise (· < ·) :=
  List.pairwise_map.mpr h

theorem after?_eq_none_iff : listing.after? line = none ↔ ∀ number ∈ listing.numbers, ¬ line < number := by
  simp [after?]

theorem mem_of_after? (h : listing.after? line = some next) :
    next ∈ listing.numbers ∧ line < next := by
  unfold after? at h
  exact ⟨List.mem_of_find?_eq_some h, by simpa using List.find?_some h⟩

/-- A stored line is the last one, or there is a line after it. -/
theorem exists_after?_of_ne_last (hascending : Ascending listing.lines)
    (hmem : line ∈ listing.numbers) (hlast : listing.last? ≠ some line) :
    ∃ next, listing.after? line = some next := by
  cases hafter : listing.after? line with
  | some next => exact ⟨next, rfl⟩
  | none =>
      exfalso
      obtain ⟨before, last, hnumbers⟩ :=
        (List.eq_nil_or_concat listing.numbers).resolve_left (List.ne_nil_of_mem hmem)
      rw [List.concat_eq_append] at hnumbers
      have hpairwise := hascending.numbers
      rw [hnumbers] at hpairwise hmem
      rcases List.mem_append.mp hmem with hbefore | hline
      · have hlt : line < last :=
          (List.pairwise_append.mp hpairwise).2.2 line hbefore last List.mem_cons_self
        exact after?_eq_none_iff.mp hafter last (by simp [hnumbers]) hlt
      · obtain rfl := List.mem_singleton.mp hline
        exact hlast (by simp [last?, hnumbers])

/-! ### Neighbours by order alone -/

theorem first?_eq_some_iff (hascending : Ascending listing.lines) :
    listing.first? = some line ↔
      line ∈ listing.numbers ∧ ∀ other ∈ listing.numbers, line ≤ other := by
  have hpairwise := hascending.numbers
  unfold first?
  cases hnumbers : listing.numbers with
  | nil => simp
  | cons first rest =>
      rw [hnumbers] at hpairwise
      obtain ⟨hbelow, -⟩ := List.pairwise_cons.mp hpairwise
      rw [List.head?_cons, Option.some.injEq]
      constructor
      · rintro rfl
        refine ⟨List.mem_cons_self, fun other hother => ?_⟩
        rcases List.mem_cons.mp hother with rfl | hrest
        · exact UInt32.le_refl _
        · exact UInt32.le_of_lt (hbelow other hrest)
      · rintro ⟨hmem, hleast⟩
        rcases List.mem_cons.mp hmem with rfl | hrest
        · rfl
        · exact absurd (hbelow line hrest) (UInt32.not_lt.mpr (hleast first List.mem_cons_self))

theorem after?_eq_some_iff (hascending : Ascending listing.lines) :
    listing.after? line = some next ↔ next ∈ listing.numbers ∧ line < next ∧
      ∀ other ∈ listing.numbers, line < other → next ≤ other := by
  have hleast : ∀ found, listing.after? line = some found →
      ∀ other ∈ listing.numbers, line < other → found ≤ other := by
    intro found hfound other hother habove
    obtain ⟨-, before, rest, hnumbers, hbefore⟩ := List.find?_eq_some_iff_append.mp hfound
    have hpairwise := hascending.numbers
    rw [hnumbers] at hpairwise hother
    obtain ⟨-, hrest, -⟩ := List.pairwise_append.mp hpairwise
    rcases List.mem_append.mp hother with hearlier | hlater
    · have hnot : ¬ line < other := by simpa using hbefore other hearlier
      exact absurd habove hnot
    · rcases List.mem_cons.mp hlater with rfl | hlater
      · exact UInt32.le_refl _
      · exact UInt32.le_of_lt ((List.pairwise_cons.mp hrest).1 other hlater)
  constructor
  · intro h
    obtain ⟨hmem, habove⟩ := mem_of_after? h
    exact ⟨hmem, habove, hleast next h⟩
  · rintro ⟨hmem, habove, hnext⟩
    cases hafter : listing.after? line with
    | none => exact absurd habove (after?_eq_none_iff.mp hafter next hmem)
    | some found =>
        obtain ⟨hfound, hfoundAbove⟩ := mem_of_after? hafter
        have hle := hnext found hfound hfoundAbove
        have hge := hleast found hafter next hmem habove
        rw [UInt32.le_antisymm hge hle]

/-- A stored line is the last one just if no line comes after it. -/
theorem last?_eq_some_iff_after?_eq_none (hascending : Ascending listing.lines)
    (hmem : line ∈ listing.numbers) :
    listing.last? = some line ↔ listing.after? line = none := by
  constructor
  · intro hlast
    rw [after?_eq_none_iff]
    intro other hother
    obtain ⟨before, hnumbers⟩ := List.getLast?_eq_some_iff.mp hlast
    have hpairwise := hascending.numbers
    rw [hnumbers] at hpairwise hother
    rcases List.mem_append.mp hother with hbefore | hline
    · have hlt : other < line :=
        (List.pairwise_append.mp hpairwise).2.2 other hbefore line List.mem_cons_self
      exact UInt32.lt_asymm hlt
    · rw [List.mem_singleton.mp hline]
      exact UInt32.lt_irrefl _
  · intro hafter
    apply Classical.byContradiction
    intro hlast
    obtain ⟨next, hnext⟩ := exists_after?_of_ne_last hascending hmem hlast
    rw [hafter] at hnext
    cases hnext

/-! ### The lines from a number on -/

theorem filter_le_eq_cons (hascending : Ascending listing.lines) (hmem : line ∈ listing.numbers) :
    listing.numbers.filter (line ≤ ·) = line :: listing.numbers.filter (line < ·) := by
  obtain ⟨before, rest, hnumbers⟩ := List.append_of_mem hmem
  have hpairwise := hascending.numbers
  rw [hnumbers] at hpairwise ⊢
  obtain ⟨-, hrest, hcross⟩ := List.pairwise_append.mp hpairwise
  obtain ⟨habove, -⟩ := List.pairwise_cons.mp hrest
  have hbelow : ∀ number ∈ before, number < line := fun number hnumber =>
    hcross number hnumber line List.mem_cons_self
  have hbeforeLe : before.filter (line ≤ ·) = [] :=
    List.filter_eq_nil_iff.mpr fun number hnumber => by simpa using hbelow number hnumber
  have hbeforeLt : before.filter (line < ·) = [] :=
    List.filter_eq_nil_iff.mpr fun number hnumber => by
      simpa using UInt32.le_of_lt (hbelow number hnumber)
  have hrestLe : rest.filter (line ≤ ·) = rest :=
    List.filter_eq_self.mpr fun number hnumber => by
      simpa using UInt32.le_of_lt (habove number hnumber)
  have hrestLt : rest.filter (line < ·) = rest :=
    List.filter_eq_self.mpr fun number hnumber => by simpa using habove number hnumber
  simp [hbeforeLe, hbeforeLt, hrestLe, hrestLt]

theorem filter_lt_of_after?_eq_none (hafter : listing.after? line = none) :
    listing.numbers.filter (line < ·) = [] :=
  List.filter_eq_nil_iff.mpr fun number hnumber => by
    simpa using after?_eq_none_iff.mp hafter number hnumber

theorem filter_lt_of_after?_eq_some (hascending : Ascending listing.lines)
    (hafter : listing.after? line = some next) :
    listing.numbers.filter (line < ·) = listing.numbers.filter (next ≤ ·) := by
  obtain ⟨-, habove, hleast⟩ := (after?_eq_some_iff hascending).mp hafter
  apply List.filter_congr
  intro number hnumber
  rw [decide_eq_decide]
  exact ⟨hleast number hnumber, UInt32.lt_of_lt_of_le habove⟩

end Listing

end NumberedBasic
