import NumberedBasic.Token.Spacing

/-!
# Division into units

A text is empty, or it begins with a blank or with a unit that does not go on. What holds of the rest
and comes back in both cases holds of every text, and in this way the units of a text are found to be
units, and to be all of it but the blanks.

A blank or a closing parenthesis ends whatever is before it, so that a text may be divided in two
there.
-/

namespace NumberedBasic

/-- A run of items that go on ends where one comes that does not. -/
theorem takeWhile_dropWhile_append {α : Type} {before after : List α} {goesOn : α → Bool}
    (hbefore : ∀ item ∈ before, goesOn item = true)
    (hafter : ∀ item ∈ after.head?, goesOn item = false) :
    (before ++ after).takeWhile goesOn = before ∧ (before ++ after).dropWhile goesOn = after := by
  rw [List.takeWhile_append_of_pos hbefore, List.dropWhile_append_of_pos hbefore]
  cases after with
  | nil => simp
  | cons stop rest =>
      have hstop : goesOn stop = false := hafter stop rfl
      simp [hstop]

/-- Where a run of items that go on ends is decided by the items alone. -/
theorem eq_of_append_stop {α : Type} {left left' after after' : List α} {stop stop' : α}
    {goesOn : α → Bool} (hleft : ∀ item ∈ left, goesOn item = true) (hstop : goesOn stop = false)
    (hleft' : ∀ item ∈ left', goesOn item = true) (hstop' : goesOn stop' = false)
    (h : left ++ stop :: after = left' ++ stop' :: after') :
    left = left' ∧ stop = stop' ∧ after = after' := by
  have hhead : ∀ item ∈ (stop :: after).head?, goesOn item = false := by simpa using hstop
  have hhead' : ∀ item ∈ (stop' :: after').head?, goesOn item = false := by simpa using hstop'
  obtain ⟨htake, hdrop⟩ := takeWhile_dropWhile_append hleft hhead
  obtain ⟨htake', hdrop'⟩ := takeWhile_dropWhile_append hleft' hhead'
  rw [h] at htake hdrop
  exact ⟨htake.symm.trans htake', List.cons.inj (hdrop.symm.trans hdrop')⟩

theorem eq_of_append_cons {α : Type} [BEq α] [LawfulBEq α] {before before' after after' : List α}
    {stop : α} (h : stop ∉ before) (h' : stop ∉ before')
    (heq : before ++ stop :: after = before' ++ stop :: after') : before = before' ∧ after = after' := by
  have hgoesOn : ∀ {items : List α}, stop ∉ items → ∀ item ∈ items, (item != stop) = true := by
    intro items hnot item hitem
    apply bne_iff_ne.mpr
    rintro rfl
    exact hnot hitem
  have hstop : (stop != stop) = false := bne_self_eq_false stop
  obtain ⟨hbefore, -, hafter⟩ := eq_of_append_stop (hgoesOn h) hstop (hgoesOn h') hstop heq
  exact ⟨hbefore, hafter⟩

namespace Token

variable {unit rest cs : List Char} {c : Char}

/-- No character of the rest belongs to the unit before it. -/
structure Ends (unit rest : List Char) : Prop where
  word : IsWord unit → ∀ c ∈ rest.head?, isDelimiter c
  star : unit = ['*'] → rest.head? ≠ some '*'

theorem IsUnit.ne_nil (h : IsUnit unit) : unit ≠ [] := by
  cases h with
  | word hword => exact hword.1
  | power => simp
  | delimiter _ _ => simp

/-! ### The first unit -/

theorem lexemes_space (rest : List Char) : lexemes (' ' :: rest) = lexemes rest := by
  rw [lexemes]

theorem lexemes_delimiter (hc : isDelimiter c) (hspace : ¬ isSpace c)
    (hstar : c = '*' → rest.head? ≠ some '*') : lexemes (c :: rest) = [c] :: lexemes rest := by
  have hblank : c ≠ ' ' := by simpa [isSpace] using hspace
  rw [lexemes]
  · rw [if_pos hc]
  · exact hblank
  · rintro others rfl rfl
    exact hstar rfl rfl

theorem lexemes_word (hword : IsWord unit) (hrest : ∀ c ∈ rest.head?, isDelimiter c) :
    lexemes (unit ++ rest) = unit :: lexemes rest := by
  obtain ⟨hne, hchars⟩ := hword
  obtain ⟨first, others, rfl⟩ := List.exists_cons_of_ne_nil hne
  obtain ⟨hfirst, hothers⟩ := List.forall_mem_cons.mp hchars
  have hkeep : ∀ c ∈ others, (!isDelimiter c) = true := by simpa using hothers
  have hstop : ∀ c ∈ rest.head?, (!isDelimiter c) = false := by simpa using hrest
  obtain ⟨htake, hdrop⟩ := takeWhile_dropWhile_append hkeep hstop
  rw [List.cons_append, lexemes]
  · rw [if_neg hfirst, htake, hdrop]
  · rintro rfl
    exact hfirst (by decide)
  · rintro _ rfl -
    exact hfirst (by decide)

theorem lexemes_unit (hunit : IsUnit unit) (hends : Ends unit rest) :
    lexemes (unit ++ rest) = unit :: lexemes rest := by
  cases hunit with
  | word hword => exact lexemes_word hword (hends.word hword)
  | power =>
      have hstep : lexemes ('*' :: '*' :: rest) = ['*', '*'] :: lexemes rest := by rw [lexemes]
      exact hstep
  | delimiter hc hspace =>
      apply lexemes_delimiter hc hspace
      rintro rfl
      exact hends.star rfl

/-! ### All units -/

theorem isWord_takeWhile (hc : ¬ isDelimiter c) (rest : List Char) :
    IsWord (c :: rest.takeWhile (!isDelimiter ·)) := by
  refine ⟨List.cons_ne_nil c _, fun d hd => ?_⟩
  rcases List.mem_cons.mp hd with rfl | hd
  · exact hc
  · have hkeep : (rest.takeWhile (!isDelimiter ·)).all (!isDelimiter ·) := List.all_takeWhile
    simpa using List.all_eq_true.mp hkeep d hd

theorem ends_takeWhile (hc : ¬ isDelimiter c) (rest : List Char) :
    Ends (c :: rest.takeWhile (!isDelimiter ·)) (rest.dropWhile (!isDelimiter ·)) := by
  refine ⟨fun _ d hd => ?_, fun hstar => ?_⟩
  · have hstop := List.head?_dropWhile_not (!isDelimiter ·) rest
    rw [Option.mem_def.mp hd] at hstop
    simpa using hstop
  · obtain ⟨rfl, -⟩ := List.cons.inj hstar
    exact absurd (by decide) hc

theorem ends_delimiter (hc : isDelimiter c) (hstar : c = '*' → rest.head? ≠ some '*') :
    Ends [c] rest := by
  refine ⟨fun hword => ?_, fun heq => hstar (List.singleton_inj.mp heq)⟩
  exact absurd hc (hword.2 c List.mem_cons_self)

theorem ends_nil (unit : List Char) : Ends unit [] := by
  constructor <;> simp

theorem ends_power (rest : List Char) : Ends ['*', '*'] rest := by
  refine ⟨fun hword => ?_, nofun⟩
  exact absurd (by decide) (hword.2 '*' List.mem_cons_self)

/-- A text that is not empty begins with a blank or with a unit. -/
theorem begins_cases (cs : List Char) :
    cs = [] ∨ (∃ rest, cs = ' ' :: rest) ∨
      ∃ unit rest, IsUnit unit ∧ Ends unit rest ∧ cs = unit ++ rest := by
  cases cs with
  | nil => exact .inl rfl
  | cons c rest =>
      right
      by_cases hblank : c = ' '
      · exact .inl ⟨rest, by rw [hblank]⟩
      right
      by_cases hc : isDelimiter c
      · by_cases hpower : c = '*' ∧ rest.head? = some '*'
        · obtain ⟨rfl, hhead⟩ := hpower
          obtain ⟨after, rfl⟩ := List.head?_eq_some_iff.mp hhead
          exact ⟨['*', '*'], after, .power, ends_power after, rfl⟩
        · have hspace : ¬ isSpace c := by simpa [isSpace] using hblank
          have hstar : c = '*' → rest.head? ≠ some '*' := fun hc hhead => hpower ⟨hc, hhead⟩
          exact ⟨[c], rest, .delimiter hc hspace, ends_delimiter hc hstar, rfl⟩
      · -- The word goes on to the next delimiter.
        refine ⟨_, _, .word (isWord_takeWhile hc rest), ends_takeWhile hc rest, ?_⟩
        rw [List.cons_append, List.takeWhile_append_dropWhile]

theorem units_induction {motive : List Char → Prop} (hnil : motive [])
    (hspace : ∀ rest, motive rest → motive (' ' :: rest))
    (hunit : ∀ unit rest, IsUnit unit → Ends unit rest → motive rest → motive (unit ++ rest))
    (cs : List Char) : motive cs := by
  rcases begins_cases cs with rfl | ⟨rest, rfl⟩ | ⟨unit, rest, hfirst, hends, rfl⟩
  · exact hnil
  · exact hspace rest (units_induction hnil hspace hunit rest)
  · exact hunit unit rest hfirst hends (units_induction hnil hspace hunit rest)
termination_by cs.length
decreasing_by
  all_goals subst_vars
  · simp
  · have hpositive := List.length_pos_iff.mpr hfirst.ne_nil
    simp only [List.length_append]
    omega

theorem isUnit_of_mem_lexemes (cs : List Char) : ∀ unit ∈ lexemes cs, IsUnit unit := by
  induction cs using units_induction with
  | hnil => simp [lexemes]
  | hspace rest ih => rwa [lexemes_space]
  | hunit unit rest hunit hends ih =>
      rw [lexemes_unit hunit hends]
      exact List.forall_mem_cons.mpr ⟨hunit, ih⟩

theorem IsUnit.isSpace_eq_false (h : IsUnit unit) (hc : c ∈ unit) : isSpace c = false := by
  rw [Bool.eq_false_iff]
  intro hspace
  obtain rfl : c = ' ' := by simpa [isSpace] using hspace
  cases h with
  | word hword => exact hword.2 ' ' hc (by decide)
  | power => exact absurd hc (by decide)
  | delimiter hdelimiter hblank =>
      rw [← List.mem_singleton.mp hc] at hblank
      exact hblank rfl

/-- Nothing but blanks is lost. -/
theorem flatten_lexemes (cs : List Char) : (lexemes cs).flatten = cs.filter (!isSpace ·) := by
  induction cs using units_induction with
  | hnil => simp [lexemes]
  | hspace rest ih =>
      rw [lexemes_space, ih]
      rfl
  | hunit unit rest hunit hends ih =>
      have hkeep : unit.filter (!isSpace ·) = unit :=
        List.filter_eq_self.mpr fun c hc => by simp [hunit.isSpace_eq_false hc]
      rw [lexemes_unit hunit hends, List.flatten_cons, ih, List.filter_append, hkeep]

/-! ### Division in two -/

/-- What follows a unit here begins no other unit that the two could be read as. -/
def Apart (rest : List Char) : Prop := ∀ c ∈ rest.head?, c = ' ' ∨ c = ')'

theorem Ends.append (hends : Ends unit cs) (hrest : Apart rest) : Ends unit (cs ++ rest) := by
  cases cs with
  | cons c after => exact ⟨hends.word, hends.star⟩
  | nil =>
      refine ⟨fun _ c hc => ?_, fun _ hhead => ?_⟩
      · rcases hrest c hc with rfl | rfl
        · decide
        · decide
      · rcases hrest '*' hhead with h | h
        · exact absurd h (by decide)
        · exact absurd h (by decide)

theorem lexemes_append (cs : List Char) (hrest : Apart rest) :
    lexemes (cs ++ rest) = lexemes cs ++ lexemes rest := by
  induction cs using units_induction with
  | hnil => simp [lexemes]
  | hspace others ih => rw [List.cons_append, lexemes_space, lexemes_space, ih]
  | hunit unit others hunit hends ih =>
      rw [List.append_assoc, lexemes_unit hunit (hends.append hrest), lexemes_unit hunit hends, ih,
        List.cons_append]

/-! ### Tokens -/

theorem isUnit_of_mem_scanChars {token : Token} (h : token ∈ scanChars cs) :
    IsUnit token.text.toList := by
  obtain ⟨unit, hmem, rfl⟩ := List.mem_map.mp h
  rw [String.toList_ofList]
  exact isUnit_of_mem_lexemes cs unit hmem

@[simp] theorem scanChars_nil : scanChars [] = [] := by
  rw [scanChars, lexemes, List.map_nil]

theorem scanChars_append (cs : List Char) (hrest : Apart rest) :
    scanChars (cs ++ rest) = scanChars cs ++ scanChars rest := by
  rw [scanChars, lexemes_append cs hrest, List.map_append, scanChars, scanChars]

theorem scanChars_space (rest : List Char) : scanChars (' ' :: rest) = scanChars rest := by
  rw [scanChars, lexemes_space, scanChars]

theorem scanChars_append_space (cs rest : List Char) :
    scanChars (cs ++ ' ' :: rest) = scanChars cs ++ scanChars rest := by
  have hapart : Apart (' ' :: rest) := by simp [Apart]
  rw [scanChars_append cs hapart, scanChars_space]

theorem scanChars_unit {token : Token} (h : IsUnit token.text.toList) :
    scanChars token.text.toList = [token] := by
  have hlexemes := lexemes_unit h (ends_nil token.text.toList)
  rw [List.append_nil] at hlexemes
  rw [scanChars, hlexemes, lexemes, List.map_singleton, String.ofList_toList]

theorem scan_unit {token : Token} (h : IsUnit token.text.toList) : scan token.text = [token] :=
  scanChars_unit h

theorem scan_spaced (left right : String) : scan (left ++ " " ++ right) = scan left ++ scan right := by
  have hspace : " ".toList = [' '] := rfl
  rw [scan, String.toList_append, String.toList_append, hspace, List.append_assoc,
    List.singleton_append, scanChars_append_space, scan, scan]

theorem scan_group (inner : String) :
    scan ("(" ++ inner ++ ")") = ⟨"("⟩ :: scan inner ++ [⟨")"⟩] := by
  have hopening : "(".toList = ['('] := rfl
  have hclosing : ")".toList = [')'] := rfl
  have hapart : Apart [')'] := by simp [Apart]
  have hfirst : lexemes ('(' :: inner.toList) = ['('] :: lexemes inner.toList :=
    lexemes_delimiter (by decide) (by decide) nofun
  have hlast : scanChars [')'] = [⟨")"⟩] := by decide +kernel
  rw [scan, String.toList_append, String.toList_append, hopening, hclosing, List.singleton_append,
    scanChars_append _ hapart, scanChars, hfirst, List.map_cons, hlast, scan, scanChars]

/-- Units that are joined by blanks are found again. -/
theorem scan_intercalate {tokens : List Token} (h : ∀ token ∈ tokens, IsUnit token.text.toList) :
    scan (" ".intercalate (tokens.map Token.text)) = tokens := by
  induction tokens with
  | nil => exact scanChars_nil
  | cons first rest ih =>
      obtain ⟨hfirst, hrest⟩ := List.forall_mem_cons.mp h
      cases rest with
      | nil =>
          have hone : " ".intercalate ([first].map Token.text) = first.text := rfl
          rw [hone, scan_unit hfirst]
      | cons second others =>
          rw [List.map_cons, List.map_cons, String.intercalate_cons_cons, scan_spaced, scan_unit hfirst,
            ← List.map_cons, ih hrest, List.singleton_append]

/-- Two texts with the same tokens differ in their blanks only. -/
theorem flatMap_scanChars (cs : List Char) :
    (scanChars cs).flatMap (·.text.toList) = cs.filter (!isSpace ·) := by
  have hchars : ∀ units : List (List Char),
      (units.map fun unit => (⟨String.ofList unit⟩ : Token)).flatMap (·.text.toList) =
        units.flatten := by
    intro units
    simp [List.flatMap, Function.comp_def]
  rw [scanChars, hchars, flatten_lexemes]

end Token

end NumberedBasic
