import NumberedBasic.Proofs.Token.Units

/-!
# One way to divide a text

A text is written with its own units, and with no others. The writer has to put a blank between two
units just where the scanner would go on past the end of the first, so that both agree on when a unit
is over; the rest is an induction along the text.
-/

namespace NumberedBasic

namespace Token

variable {unit next blanks text : List Char} {units : List (List Char)} {c : Char}

theorem isDelimiter_of_isSpace (h : isSpace c) : isDelimiter c := by
  obtain rfl : c = ' ' := by simpa [isSpace] using h
  decide

/-! ### What a written text begins with -/

/-- A text with a unit in it begins with a blank or with its first unit. -/
theorem Written.exists_head (h : Written (next :: units) text) :
    IsUnit next ∧ ∃ c, text.head? = some c ∧ (isSpace c ∨ next.head? = some c) := by
  cases h with
  | @unit blanks _ after _ hblanks hunit _ _ =>
      refine ⟨hunit, ?_⟩
      cases blanks with
      | cons c others => exact ⟨c, rfl, .inl (hblanks c List.mem_cons_self)⟩
      | nil =>
          obtain ⟨c, others, rfl⟩ := List.exists_cons_of_ne_nil hunit.ne_nil
          exact ⟨c, rfl, .inr rfl⟩

theorem Written.isSpace_of_nil (h : Written [] text) : ∀ c ∈ text, isSpace c := by
  cases h with
  | blanks hblanks => exact hblanks

/-- A unit that begins with a character of a word is a word. -/
theorem IsUnit.isWord (h : IsUnit unit) (hhead : unit.head? = some c) (hc : ¬ isDelimiter c) :
    IsWord unit := by
  cases h with
  | word hword => exact hword
  | power =>
      cases hhead
      exact absurd (by decide) hc
  | delimiter hdelimiter _ =>
      cases hhead
      exact absurd hdelimiter hc

theorem IsWord.not_isDelimiter_head (h : IsWord unit) (hhead : unit.head? = some c) :
    ¬ isDelimiter c := h.2 c (List.mem_of_head? hhead)

/-! ### Where a unit is over -/

theorem ends_of_isSpace (hhead : text.head? = some c) (hc : isSpace c) : Ends unit text := by
  constructor
  · intro _ d hd
    obtain rfl : c = d := Option.some.inj (hhead.symm.trans hd)
    exact isDelimiter_of_isSpace hc
  · rintro - hstar
    obtain rfl : c = '*' := Option.some.inj (hhead.symm.trans hstar)
    exact absurd hc (by decide)

theorem ends_of_not_joins (hunit : IsUnit next) (hfirst : next.head? = some c)
    (hhead : text.head? = some c) (h : ¬ Joins unit next) : Ends unit text := by
  constructor
  · intro hword d hd
    obtain rfl : c = d := Option.some.inj (hhead.symm.trans hd)
    by_cases hc : isDelimiter c
    · exact hc
    · exact absurd (.inl ⟨hword, hunit.isWord hfirst hc⟩) h
  · rintro rfl hstar
    exact h (.inr ⟨rfl, hfirst.trans (hhead.symm.trans hstar)⟩)

theorem Ends.not_joins (h : Ends unit text) (hhead : text.head? = some c)
    (hfirst : next.head? = some c) : ¬ Joins unit next := by
  rintro (⟨hword, hnext⟩ | ⟨rfl, hstar⟩)
  · exact hnext.not_isDelimiter_head hfirst (h.word hword c hhead)
  · exact h.star rfl (hhead.trans (hfirst.symm.trans hstar))

/-- A unit is over before a written text just if a blank begins the text, wherever one is needed. -/
theorem ends_iff_spaced (h : Written units text) :
    Ends unit text ↔ ∀ next ∈ units.head?, Joins unit next → text.head?.any isSpace := by
  cases units with
  | nil =>
      refine ⟨fun _ => by simp, fun _ => ?_⟩
      cases text with
      | nil => exact ends_nil unit
      | cons c rest => exact ends_of_isSpace rfl (h.isSpace_of_nil c List.mem_cons_self)
  | cons next others =>
      obtain ⟨hunit, c, hhead, hc⟩ := h.exists_head
      simp only [List.head?_cons, Option.mem_some_iff, forall_eq', hhead, Option.any_some]
      constructor
      · intro hends hjoins
        apply hc.resolve_right
        intro hfirst
        exact hends.not_joins hhead hfirst hjoins
      · intro hspaced
        by_cases hspace : isSpace c
        · exact ends_of_isSpace hhead hspace
        · exact ends_of_not_joins hunit (hc.resolve_left hspace) hhead fun hjoins =>
            hspace (hspaced hjoins)

/-! ### The units of a written text -/

theorem lexemes_append_of_isSpace (h : ∀ c ∈ blanks, isSpace c) (rest : List Char) :
    lexemes (blanks ++ rest) = lexemes rest := by
  induction blanks with
  | nil => rfl
  | cons c others ih =>
      obtain ⟨hc, hothers⟩ := List.forall_mem_cons.mp h
      obtain rfl : c = ' ' := by simpa [isSpace] using hc
      rw [List.cons_append, lexemes_space, ih hothers]

theorem Written.lexemes_eq (h : Written units text) : lexemes text = units := by
  induction h with
  | @blanks text hblanks =>
      have happend := lexemes_append_of_isSpace hblanks []
      rwa [List.append_nil, lexemes] at happend
  | @unit blanks unit text units hblanks hunit htext hspaced ih =>
      have hends : Ends unit text := (ends_iff_spaced htext).mpr hspaced
      rw [List.append_assoc, lexemes_append_of_isSpace hblanks, lexemes_unit hunit hends, ih]

theorem Written.space (h : Written units text) : Written units (' ' :: text) := by
  cases h with
  | blanks hblanks => exact .blanks (List.forall_mem_cons.mpr ⟨rfl, hblanks⟩)
  | @unit blanks unit after units hblanks hunit hafter hspaced =>
      exact .unit (List.forall_mem_cons.mpr ⟨rfl, hblanks⟩) hunit hafter hspaced

theorem written_lexemes (text : List Char) : Written (lexemes text) text := by
  induction text using units_induction with
  | hnil =>
      rw [lexemes]
      exact .blanks (List.forall_mem_nil _)
  | hspace rest ih =>
      rw [lexemes_space]
      exact ih.space
  | hunit unit rest hunit hends ih =>
      have hspaced := (ends_iff_spaced ih).mp hends
      rw [lexemes_unit hunit hends]
      exact @Written.unit [] unit rest _ (List.forall_mem_nil _) hunit ih hspaced

/-! ### The tokens of a text -/

theorem toList_text_scan (text : String) :
    (scan text).map (·.text.toList) = lexemes text.toList := by
  rw [scan, scanChars, List.map_map]
  simp [Function.comp_def]

/-- The tokens of a text are the one sequence of units that it is written with. -/
theorem scan_eq_iff_written (text : String) (tokens : List Token) :
    scan text = tokens ↔ Written (tokens.map (·.text.toList)) text.toList := by
  constructor
  · rintro rfl
    rw [toList_text_scan]
    exact written_lexemes text.toList
  · intro h
    have hunits : (scan text).map (·.text.toList) = tokens.map (·.text.toList) := by
      rw [toList_text_scan, h.lexemes_eq]
    have hinj : ∀ left right : Token, left.text.toList = right.text.toList → left = right := by
      rintro ⟨left⟩ ⟨right⟩ heq
      obtain rfl : left = right := String.toList_inj.mp heq
      rfl
    exact (List.map_inj_right hinj).mp hunits

end Token

end NumberedBasic
