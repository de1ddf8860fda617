import NumberedBasic.Proofs.Expression.Writing
import NumberedBasic.Statement.Grammar

/-!
# The forms of a statement

Tokens are read as a statement just if they are one of its forms. The parts of a conditional jump are
found by looking for the first comparator and the first `THEN` after it; an expression holds no
comparator, and the right side no `THEN`, so that these are the ones that divide it.
-/

namespace NumberedBasic

namespace Expression

variable {limit : Option Nat} {tokens : List Token} {e : Expression}

/-- An expression holds no comparator. -/
theorem isComparator_eq_false_of_parseWithin (h : parseWithin limit tokens = .ok e) :
    ∀ token ∈ tokens, token.isComparator = false := by
  intro token hmem
  obtain ⟨symbol, hsymbol⟩ := Parser.exists_symbol_of_parseWithin h token hmem
  rw [Bool.eq_false_iff]
  intro hcomparator
  obtain ⟨comparator, hread⟩ := Option.isSome_iff_exists.mp hcomparator
  obtain rfl := Comparator.ofToken?_eq_some_iff.mp hread
  have hrefused : Parser.Symbol.ofToken comparator.token = .error (.unexpected comparator.symbol) := by
    cases comparator <;> rfl
  rw [hrefused] at hsymbol
  cases hsymbol

theorem ne_nil_of_parseWithin (h : parseWithin limit tokens = .ok e) : tokens ≠ [] := by
  rintro rfl
  cases h

end Expression

theorem Comparator.token_inj {comparator comparator' : Comparator} :
    comparator.token = comparator'.token ↔ comparator = comparator' := by
  refine ⟨fun h => ?_, congrArg _⟩
  have hread := Comparator.ofToken?_eq_some_iff.mpr h
  rw [Comparator.ofToken?_eq_some_iff.mpr rfl] at hread
  exact Option.some.inj hread

namespace Statement

variable {tokens body : List Token} {statement : Statement}

/-! ### Parts -/

theorem variableName_eq_ok_iff {token : Token} {name : String} :
    token.variableName = .ok name ↔ token.isName ∧ name = token.text := by
  unfold Token.variableName
  split
  next hname => simp [hname, eq_comm]
  next hname => simp [hname]

theorem parse_keyword (keyword : Keyword) (body : List Token) :
    parse (keyword.token :: body) = parseBody keyword body := by
  cases keyword <;> rfl

theorem exists_keyword_of_parse (h : parse tokens = .ok statement) :
    ∃ keyword body, tokens = keyword.token :: body ∧ parseBody keyword body = .ok statement := by
  cases tokens with
  | nil => cases h
  | cons first body =>
      rw [parse] at h
      split at h
      next keyword hkeyword =>
        exact ⟨keyword, body, by rw [Keyword.ofToken?_eq_some_iff.mp hkeyword], h⟩
      next => cases h

/-! ### Conditional jumps -/

theorem text_ne_target_iff {token : Token} :
    token.text ≠ Keyword.target.text ↔ token ≠ Keyword.target.token := by
  cases token with
  | mk text => simp [Keyword.token]

theorem eq_append_of_dropWhile {stop : Token} {after : List Token} {goesOn : Token → Bool}
    (h : body.dropWhile goesOn = stop :: after) :
    body = body.takeWhile goesOn ++ stop :: after ∧ goesOn stop = false := by
  constructor
  · rw [← h, List.takeWhile_append_dropWhile]
  · have hstop := List.head?_dropWhile_not goesOn body
    rw [h] at hstop
    simpa using hstop

theorem isForm_of_parseBranch (h : parseBranch body = .ok statement) :
    IsForm (Keyword.branch.token :: body) statement := by
  unfold parseBranch at h
  split at h
  next => cases h
  next =>
    split at h
    next => cases h
    next sign rest hsign =>
      split at h
      next comparator wall number hcomparator hwall =>
        obtain rfl := Comparator.ofToken?_eq_some_iff.mp hcomparator
        obtain ⟨hbody, -⟩ := eq_append_of_dropWhile hsign
        obtain ⟨hrest, hstop⟩ := eq_append_of_dropWhile hwall
        obtain rfl : wall = Keyword.target.token := by simpa [text_ne_target_iff] using hstop
        have hright : Keyword.target.token ∉ rest.takeWhile (·.text ≠ Keyword.target.text) := by
          intro hmem
          have hkeep := List.all_eq_true.mp List.all_takeWhile _ hmem
          exact absurd hkeep (by decide)
        obtain ⟨lhs, hlhs, h⟩ := bind_eq_ok_iff.mp h
        obtain ⟨rhs, hrhs, h⟩ := bind_eq_ok_iff.mp h
        obtain ⟨target, htarget, h⟩ := bind_eq_ok_iff.mp h
        cases h
        rw [hbody, hrest]
        have hform := @IsForm.branch _ _ _ _ comparator _ _ hlhs hrhs htarget hright
        simpa using hform
      next => cases h

theorem parseBranch_of_parts {left right : List Token} {lhs rhs : Expression}
    {comparator : Comparator} {number : Token} {target : LineNumber}
    (hleft : Expression.parse left = .ok lhs) (hright : Expression.parse right = .ok rhs)
    (htarget : number.lineNumber = .ok target) (hwall : Keyword.target.token ∉ right) :
    parseBranch (left ++ comparator.token :: (right ++ [Keyword.target.token, number])) =
      .ok (.branch lhs comparator rhs target) := by
  have hcomparator : comparator.token.isComparator = true := by cases comparator <;> rfl
  have hread : Comparator.ofToken? comparator.token = some comparator :=
    Comparator.ofToken?_eq_some_iff.mpr rfl
  have hbefore : ∀ token ∈ left, (!token.isComparator) = true := by
    intro token hmem
    simp [Expression.isComparator_eq_false_of_parseWithin hleft token hmem]
  have hbetween : ∀ token ∈ right, decide (token.text ≠ Keyword.target.text) = true := by
    intro token hmem
    have hne : token ≠ Keyword.target.token := fun heq => hwall (heq ▸ hmem)
    simp [text_ne_target_iff.mpr hne]
  have hsign : ∀ token ∈ (comparator.token :: (right ++ [Keyword.target.token, number])).head?,
      (!token.isComparator) = false := by simp [hcomparator]
  have hthen : ∀ token ∈ [Keyword.target.token, number].head?,
      decide (token.text ≠ Keyword.target.text) = false := by simp [Keyword.token]
  obtain ⟨htakeLeft, hdropLeft⟩ := takeWhile_dropWhile_append hbefore hsign
  obtain ⟨htakeRight, hdropRight⟩ := takeWhile_dropWhile_append hbetween hthen
  have hlength :
      ¬ (left ++ comparator.token :: (right ++ [Keyword.target.token, number])).length < 5 := by
    have hl := List.length_pos_iff.mpr (Expression.ne_nil_of_parseWithin hleft)
    have hr := List.length_pos_iff.mpr (Expression.ne_nil_of_parseWithin hright)
    simp only [List.length_append, List.length_cons, List.length_nil]
    omega
  rw [parseBranch, if_neg hlength, hdropLeft]
  simp only [hread, hdropRight, htakeLeft, htakeRight, hleft, hright, htarget]
  rfl

/-! ### All forms -/

theorem IsForm.parse (h : IsForm tokens statement) : Statement.parse tokens = .ok statement := by
  cases h with
  | remark body => exact parse_keyword .remark body
  | @assign name tokens value hname hvalue =>
      obtain ⟨first, rest, rfl⟩ :=
        List.exists_cons_of_ne_nil (Expression.ne_nil_of_parseWithin hvalue)
      have hread := variableName_eq_ok_iff.mpr ⟨hname, rfl⟩
      have hequal : Comparator.equal.token = ⟨"="⟩ := rfl
      rw [parse_keyword, hequal, parseBody, hread]
      simp only [hvalue]
      rfl
  | @print tokens value hvalue =>
      have hempty : tokens.isEmpty = false := by
        simpa using Expression.ne_nil_of_parseWithin hvalue
      rw [parse_keyword, parseBody, hempty, hvalue]
      rfl
  | input hname =>
      have hread := variableName_eq_ok_iff.mpr ⟨hname, rfl⟩
      rw [parse_keyword, parseBody, hread]
      rfl
  | goto htarget =>
      rw [parse_keyword, parseBody, htarget]
      rfl
  | @branch left right _ _ comparator number target hleft hright htarget hwall =>
      rw [List.cons_append, List.cons_append, List.append_assoc, List.cons_append, parse_keyword]
      exact parseBranch_of_parts hleft hright htarget hwall
  | finish => exact parse_keyword .finish []

theorem isForm_of_parse (h : Statement.parse tokens = .ok statement) : IsForm tokens statement := by
  obtain ⟨keyword, body, rfl, hbody⟩ := exists_keyword_of_parse h
  cases keyword with
  | finish =>
      cases body with
      | nil =>
          cases hbody
          exact .finish
      | cons first rest => cases hbody
  | goto =>
      match body, hbody with
      | [number], hbody =>
          obtain ⟨target, htarget, heq⟩ := map_eq_ok_iff.mp hbody
          cases heq
          exact .goto htarget
  | branch => exact isForm_of_parseBranch hbody
  | input =>
      match body, hbody with
      | [name], hbody =>
          obtain ⟨read, hread, heq⟩ := map_eq_ok_iff.mp hbody
          cases heq
          obtain ⟨hname, rfl⟩ := variableName_eq_ok_iff.mp hread
          exact .input hname
  | assign =>
      simp only [parseBody] at hbody
      split at hbody
      next name first rest =>
        obtain ⟨read, hread, hbody⟩ := bind_eq_ok_iff.mp hbody
        obtain ⟨value, hvalue, hbody⟩ := bind_eq_ok_iff.mp hbody
        cases hbody
        obtain ⟨hname, rfl⟩ := variableName_eq_ok_iff.mp hread
        exact .assign hname hvalue
      next => cases hbody
  | print =>
      rw [parseBody] at hbody
      split at hbody
      next => cases hbody
      next =>
        obtain ⟨value, hvalue, heq⟩ := map_eq_ok_iff.mp hbody
        cases heq
        exact .print hvalue
  | remark =>
      cases hbody
      exact .remark body
  | target => cases hbody

/-! ### One division of a conditional jump -/

theorem BranchParts.Divides.goesOn_left {parts : BranchParts} (h : parts.Divides tokens) :
    ∀ token ∈ parts.left, (!token.isComparator) = true := by
  obtain ⟨lhs, hlhs⟩ := h.left_reads
  intro token hmem
  rw [Expression.isComparator_eq_false_of_parseWithin hlhs token hmem, Bool.not_false]

theorem BranchParts.Divides.goesOn_right {parts : BranchParts} (h : parts.Divides tokens) :
    ∀ token ∈ parts.right, decide (token ≠ Keyword.target.token) = true := by
  intro token hmem
  apply decide_eq_true
  rintro rfl
  exact h.target_notMem hmem

theorem isComparator_token (comparator : Comparator) : comparator.token.isComparator = true := by
  cases comparator <;> rfl

/-- The first comparator and the first `THEN` behind it are the only ones that divide. -/
theorem BranchParts.Divides.eq {parts parts' : BranchParts} (h : parts.Divides tokens)
    (h' : parts'.Divides tokens) : parts = parts' := by
  have htokens := h.tokens_eq.symm.trans h'.tokens_eq
  obtain ⟨left, comparator, right, number⟩ := parts
  obtain ⟨left', comparator', right', number'⟩ := parts'
  simp only [List.cons_append, List.append_assoc, List.cons.injEq, true_and] at htokens
  obtain ⟨rfl, hsign, hrest⟩ := eq_of_append_stop h.goesOn_left (by simp [isComparator_token])
    h'.goesOn_left (by simp [isComparator_token]) htokens
  obtain rfl := Comparator.token_inj.mp hsign
  obtain ⟨rfl, -, hnumber⟩ := eq_of_append_stop h.goesOn_right (by simp) h'.goesOn_right
    (by simp) hrest
  obtain rfl := List.singleton_inj.mp hnumber
  rfl

/-- A statement is read from its forms and from nothing else, and no conditional jump has two divisions
into parts. -/
theorem parse_eq_ok_iff_isForm (tokens : List Token) :
    (∀ statement, parse tokens = .ok statement ↔ IsForm tokens statement) ∧
      ∀ parts parts' : BranchParts, parts.Divides tokens → parts'.Divides tokens →
        parts = parts' := by
  refine ⟨fun statement => ⟨isForm_of_parse, IsForm.parse⟩, ?_⟩
  intro parts parts' h h'
  exact h.eq h'

/-- A variable named `THEN` is compared; only the second `THEN` divides. -/
theorem parse_eq_ok_iff_isForm_compared_then :
    parse [⟨"IF"⟩, ⟨"THEN"⟩, ⟨"="⟩, ⟨"1"⟩, ⟨"THEN"⟩, ⟨"20"⟩] =
        .ok (.branch (.var "THEN") .equal (.constant 1) 20) ∧
      ∀ parts : BranchParts,
        parts.Divides [⟨"IF"⟩, ⟨"THEN"⟩, ⟨"="⟩, ⟨"1"⟩, ⟨"THEN"⟩, ⟨"20"⟩] →
          parts = ⟨[⟨"THEN"⟩], .equal, [⟨"1"⟩], ⟨"20"⟩⟩ := by
  obtain ⟨hforms, hparts⟩ := parse_eq_ok_iff_isForm
    [⟨"IF"⟩, ⟨"THEN"⟩, ⟨"="⟩, ⟨"1"⟩, ⟨"THEN"⟩, ⟨"20"⟩]
  constructor
  · apply (hforms _).mpr
    exact @IsForm.branch [⟨"THEN"⟩] [⟨"1"⟩] _ _ .equal _ _ rfl rfl rfl (by decide)
  · intro parts h
    apply hparts parts _ h
    exact ⟨rfl, ⟨_, rfl⟩, ⟨_, rfl⟩, by decide⟩

end Statement

end NumberedBasic
