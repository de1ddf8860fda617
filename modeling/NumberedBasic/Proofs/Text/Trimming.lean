import NumberedBasic.Text.Blank

/-!
# Trimming

A text is what is left of it when it is trimmed, with what was taken off around it. Trimming takes off
whatever may go at either end and stops at the first character that may not.
-/

namespace NumberedBasic

namespace Text

variable {drop : Char → Bool} {cs before body after : List Char} {c : Char}

/-! ### At the end -/

theorem trimEnd_of_getLast? (h : ∀ c ∈ cs.getLast?, drop c = false) : trimEnd drop cs = cs := by
  rcases List.eq_nil_or_concat cs with rfl | ⟨before, last, rfl⟩
  · rfl
  · rw [List.concat_eq_append] at h ⊢
    apply trimEnd_append_singleton_of_neg
    have hlast := h last (by simp)
    simp [hlast]

theorem trimEnd_eq_self_iff : trimEnd drop cs = cs ↔ ∀ c ∈ cs.getLast?, drop c = false := by
  refine ⟨fun h c hc => ?_, trimEnd_of_getLast?⟩
  have hlast := List.head?_dropWhile_not drop cs.reverse
  rw [← List.reverse_reverse (cs.reverse.dropWhile drop), ← trimEnd, h, List.head?_reverse,
    Option.mem_def.mp hc] at hlast
  simpa using hlast

theorem trimEnd_append_cons (h : drop c = false) (before after : List Char) :
    trimEnd drop (before ++ c :: after) = before ++ c :: trimEnd drop after := by
  have hreverse : (before ++ c :: after).reverse = after.reverse ++ c :: before.reverse := by simp
  have hstop : (c :: before.reverse).dropWhile drop = c :: before.reverse :=
    List.dropWhile_cons_of_neg (by simp [h])
  rw [trimEnd, hreverse, List.dropWhile_append, trimEnd]
  split
  next hempty =>
    have hnil : after.reverse.dropWhile drop = [] := by simpa using hempty
    rw [hstop, hnil]
    simp
  next => simp

theorem trimEnd_append_of_forall (h : ∀ c ∈ after, drop c) (cs : List Char) :
    trimEnd drop (cs ++ after) = trimEnd drop cs := by
  have hdropped : ∀ c ∈ after.reverse, drop c := fun c hc => h c (List.mem_reverse.mp hc)
  rw [trimEnd, List.reverse_append, List.dropWhile_append_of_pos hdropped, trimEnd]

theorem exists_eq_trimEnd_append (drop : Char → Bool) (cs : List Char) :
    ∃ ending, cs = trimEnd drop cs ++ ending ∧ ∀ c ∈ ending, drop c = true := by
  refine ⟨(cs.reverse.takeWhile drop).reverse, ?_, ?_⟩
  · rw [trimEnd, ← List.reverse_append, List.takeWhile_append_dropWhile, List.reverse_reverse]
  · intro c hc
    exact List.all_eq_true.mp List.all_takeWhile c (List.mem_reverse.mp hc)

/-! ### At both ends -/

theorem trim_of_forall (h : ∀ c ∈ cs, isBlank c = false) : trim cs = cs := by
  have hdrop : cs.dropWhile isBlank = cs := by
    cases cs with
    | nil => rfl
    | cons c rest => exact List.dropWhile_cons_of_neg (by simp [h c List.mem_cons_self])
  rw [trim, hdrop]
  apply trimEnd_of_getLast?
  intro c hc
  exact h c (List.mem_of_getLast? hc)

theorem trim_append_of_forall (hbefore : ∀ c ∈ before, isBlank c) (hafter : ∀ c ∈ after, isBlank c)
    (body : List Char) : trim (before ++ body ++ after) = trim body := by
  rw [trim, trim, List.append_assoc, List.dropWhile_append_of_pos hbefore, List.dropWhile_append]
  split
  next hempty =>
    have hnil : body.dropWhile isBlank = [] := by simpa using hempty
    have hdropped : (after ++ []).dropWhile isBlank = [].dropWhile isBlank :=
      List.dropWhile_append_of_pos hafter
    rw [List.append_nil] at hdropped
    rw [hdropped, hnil]
    rfl
  next => exact trimEnd_append_of_forall hafter _

theorem exists_eq_append_trim (cs : List Char) :
    ∃ before after, cs = before ++ trim cs ++ after ∧ (∀ c ∈ before, isBlank c) ∧
      ∀ c ∈ after, isBlank c := by
  obtain ⟨after, hafter, hblank⟩ := exists_eq_trimEnd_append isBlank (cs.dropWhile isBlank)
  refine ⟨cs.takeWhile isBlank, after, ?_, ?_, hblank⟩
  · rw [List.append_assoc, trim, ← hafter, List.takeWhile_append_dropWhile]
  · exact List.all_eq_true.mp List.all_takeWhile

end Text

end NumberedBasic
