import NumberedBasic.Proofs.Statement.Writing

/-!
# Reading a line from its text

Reading takes the line ends off a line, and writing puts none on it. A line that was read is therefore
read again from its listing text as itself, but for a remark that ends in the end of a line, which is
then taken off.
-/

namespace NumberedBasic

namespace SourceLine

variable {source : String} {line : SourceLine}

/-! ### Lines that are read -/

/-- What is read after the line number. -/
def Reads (tokens : List Token) : Option Statement → Prop
  | none => tokens = []
  | some statement => Statement.IsForm tokens statement

theorem parse_ok_iff :
    parse source = .ok (some line) ↔
      ∃ first body, Token.scanChars (Text.trimEnd isLineEnd source.toList) = first :: body ∧
        first.lineNumber = .ok line.number ∧ Reads body line.statement := by
  obtain ⟨number, statement⟩ := line
  unfold parse
  cases Token.scanChars (Text.trimEnd isLineEnd source.toList) with
  | nil => simp
  | cons first body =>
      simp only [List.cons.injEq]
      constructor
      · intro h
        refine ⟨first, body, ⟨rfl, rfl⟩, ?_⟩
        cases hnumber : first.lineNumber with
        | error fault =>
            rw [hnumber] at h
            cases h
        | ok found =>
            simp only [hnumber] at h
            split at h
            next hempty =>
              cases h
              exact ⟨rfl, List.isEmpty_iff.mp hempty⟩
            next =>
              cases hstatement : Statement.parse body with
              | error fault =>
                  rw [hstatement] at h
                  cases h
              | ok read =>
                  rw [hstatement] at h
                  cases h
                  exact ⟨rfl, Statement.isForm_of_parse hstatement⟩
      · rintro ⟨_, _, ⟨rfl, rfl⟩, hnumber, hreads⟩
        simp only [hnumber]
        cases statement with
        | none =>
            have hnil : body = [] := hreads
            simp [hnil]
        | some read =>
            have hparse := Statement.IsForm.parse hreads
            have hne : body ≠ [] := by
              rintro rfl
              cases hparse
            simp [hparse, hne]

theorem isUnit_of_parse {first : Token} {body : List Token}
    (h : Token.scanChars (Text.trimEnd isLineEnd source.toList) = first :: body) :
    ∀ token ∈ body, Token.IsUnit token.text.toList := by
  intro token hmem
  apply Token.isUnit_of_mem_scanChars
  rw [h]
  exact List.mem_cons_of_mem first hmem

/-! ### Lines that are written -/

section Number

variable {number : LineNumber} {statement : Statement}

theorem trimEnd_number (number : LineNumber) :
    Text.trimEnd isLineEnd (toString number).toList = (toString number).toList := by
  apply Text.trimEnd_of_getLast?
  intro c hc
  have hleaf := Token.onOneLine_of_isLeaf (.inl (Token.isNumber_toString_lineNumber number))
  exact hleaf c (List.mem_of_getLast? hc)

theorem parse_text_none (h : 0 < number) :
    parse (text ⟨number, none⟩) = .ok (some ⟨number, none⟩) := by
  apply parse_ok_iff.mpr
  refine ⟨⟨toString number⟩, [], ?_, Token.lineNumber_toString h, rfl⟩
  have htext : text ⟨number, none⟩ = toString number := rfl
  rw [htext, trimEnd_number]
  exact Token.scanChars_unit
    (Token.isUnit_of_isLeaf (.inl (Token.isNumber_toString_lineNumber number)))

/-- What is read back is decided by the text of the statement without the line ends at its end. -/
theorem parse_text_some_iff (h : 0 < number) :
    parse (text ⟨number, some statement⟩) = .ok (some ⟨number, some statement⟩) ↔
      Statement.IsForm (Token.scanChars (Text.trimEnd isLineEnd statement.text.toList)) statement := by
  have hunit : Token.IsUnit (toString number).toList :=
    Token.isUnit_of_isLeaf (.inl (Token.isNumber_toString_lineNumber number))
  have hspace : " ".toList = [' '] := rfl
  have hchars : (text ⟨number, some statement⟩).toList =
      (toString number).toList ++ ' ' :: statement.text.toList := by
    rw [text, String.toList_append, String.toList_append, hspace, List.append_assoc]
    rfl
  have hscan : Token.scanChars (Text.trimEnd isLineEnd (text ⟨number, some statement⟩).toList) =
      ⟨toString number⟩ ::
        Token.scanChars (Text.trimEnd isLineEnd statement.text.toList) := by
    rw [hchars, Text.trimEnd_append_cons (by decide), Token.scanChars_append_space]
    have hfirst : Token.scanChars (toString number).toList = [⟨toString number⟩] :=
      @Token.scanChars_unit ⟨toString number⟩ hunit
    rw [hfirst, List.singleton_append]
  rw [parse_ok_iff, hscan]
  constructor
  · rintro ⟨first, body, heq, -, hreads⟩
    obtain ⟨rfl, rfl⟩ := List.cons.inj heq
    exact hreads
  · intro hform
    exact ⟨_, _, rfl, Token.lineNumber_toString h, hform⟩

end Number

/-! ### Remarks -/

theorem exists_body_of_isForm_remark {tokens : List Token} {content : String}
    (h : Statement.IsForm tokens (.remark content)) :
    ∃ body, tokens = Keyword.remark.token :: body ∧
      content = " ".intercalate (body.map Token.text) := by
  cases h with
  | remark body => exact ⟨body, rfl, rfl⟩

theorem isForm_remark_iff {body : List Token} {content : String} :
    Statement.IsForm (Keyword.remark.token :: body) (.remark content) ↔
      content = " ".intercalate (body.map Token.text) := by
  constructor
  · intro h
    obtain ⟨rest, heq, hcontent⟩ := exists_body_of_isForm_remark h
    obtain ⟨-, rfl⟩ := List.cons.inj heq
    exact hcontent
  · rintro rfl
    exact .remark body

theorem scanChars_trimEnd_remark (content : String) :
    Token.scanChars (Text.trimEnd isLineEnd (Statement.remark content).text.toList) =
      Keyword.remark.token :: Token.scanChars (Text.trimEnd isLineEnd content.toList) := by
  have hchars : (Statement.remark content).text.toList =
      Keyword.remark.token.text.toList ++ ' ' :: content.toList := by
    have hkeyword : "REM ".toList = Keyword.remark.token.text.toList ++ [' '] := rfl
    rw [Statement.text, String.toList_append, hkeyword, List.append_assoc, List.singleton_append]
  rw [hchars, Text.trimEnd_append_cons (by decide), Token.scanChars_append_space,
    Token.scanChars_unit (Token.isUnit_keyword _), List.singleton_append]

/-- If the content is what the shorter text is read as, then no more than blanks were taken off. -/
theorem trimEnd_eq_self_of_intercalate {content : String}
    (h : content = " ".intercalate
      ((Token.scanChars (Text.trimEnd isLineEnd content.toList)).map Token.text)) :
    Text.trimEnd isLineEnd content.toList = content.toList := by
  have hscan : Token.scanChars content.toList =
      Token.scanChars (Text.trimEnd isLineEnd content.toList) := by
    have hread := @Token.scan_intercalate
      (Token.scanChars (Text.trimEnd isLineEnd content.toList))
      (fun token hmem => Token.isUnit_of_mem_scanChars hmem)
    rw [← h] at hread
    exact hread
  have hfilter := Token.flatMap_scanChars content.toList
  rw [hscan, Token.flatMap_scanChars] at hfilter
  obtain ⟨ending, hending, hdropped⟩ := Text.exists_eq_trimEnd_append isLineEnd content.toList
  have hkept : ending.filter (!Token.isSpace ·) = ending := by
    apply List.filter_eq_self.mpr
    intro c hc
    have hend := hdropped c hc
    rw [Bool.not_eq_true', Bool.eq_false_iff]
    intro hspace
    obtain rfl : c = ' ' := by simpa [Token.isSpace] using hspace
    exact absurd hend (by decide)
  generalize Text.trimEnd isLineEnd content.toList = kept at hfilter hending
  rw [hending, List.filter_append, hkept] at hfilter
  have hnil : ending = [] := List.self_eq_append_right.mp hfilter
  rw [hending, hnil, List.append_nil]

/-- A remark loses what is taken off its end. -/
theorem isForm_trimEnd_remark_iff {body : List Token} {content : String}
    (hform : Statement.IsForm body (.remark content))
    (hunits : ∀ token ∈ body, Token.IsUnit token.text.toList) :
    Statement.IsForm
        (Token.scanChars (Text.trimEnd isLineEnd (Statement.remark content).text.toList))
        (.remark content) ↔
      Text.trimEnd isLineEnd content.toList = content.toList := by
  rw [scanChars_trimEnd_remark, isForm_remark_iff]
  refine ⟨trimEnd_eq_self_of_intercalate, fun htrim => ?_⟩
  obtain ⟨rest, rfl, hcontent⟩ := exists_body_of_isForm_remark hform
  have hread := Token.scan_intercalate (List.forall_mem_cons.mp hunits).2
  rw [← hcontent] at hread
  rw [htrim]
  exact hcontent.trans (congrArg _ (congrArg _ hread.symm))

/-! ### Lines that are read again -/

section Statement

variable {number : LineNumber} {statement : Statement}

theorem parse_text_iff_of_parse (h : parse source = .ok (some ⟨number, some statement⟩)) :
    parse (text ⟨number, some statement⟩) = .ok (some ⟨number, some statement⟩) ↔
      ∀ content, statement = .remark content →
        Text.trimEnd isLineEnd content.toList = content.toList := by
  obtain ⟨first, body, hscan, hnumber, hform⟩ := parse_ok_iff.mp h
  have hunits := isUnit_of_parse hscan
  rw [parse_text_some_iff (Token.pos_of_lineNumber hnumber)]
  by_cases hremark : ∃ content, statement = .remark content
  · obtain ⟨content, rfl⟩ := hremark
    rw [isForm_trimEnd_remark_iff hform hunits]
    simp
  · have htrim : Text.trimEnd isLineEnd statement.text.toList = statement.text.toList := by
      apply Text.trimEnd_of_getLast?
      intro c hc
      rw [Bool.eq_false_iff]
      intro hend
      exact hremark (hform.exists_of_isLineEnd hunits (List.mem_of_getLast? hc) hend).1
    rw [htrim]
    constructor
    · intro _ content heq
      exact absurd ⟨content, heq⟩ hremark
    · intro _
      exact hform.scan_text hunits

/-- A line without line ends is read as a statement without line ends. -/
theorem isLineEnd_eq_false_of_parse (h : parse source = .ok (some ⟨number, some statement⟩))
    (hsource : ∀ c ∈ source.toList, isLineEnd c = false) :
    ∀ c ∈ statement.text.toList, isLineEnd c = false := by
  obtain ⟨first, body, hscan, -, hform⟩ := parse_ok_iff.mp h
  intro c hc
  rw [Bool.eq_false_iff]
  intro hend
  obtain ⟨-, token, htoken, hmem⟩ := hform.exists_of_isLineEnd (isUnit_of_parse hscan) hc hend
  have hscanned : token ∈ Token.scanChars (Text.trimEnd isLineEnd source.toList) := by
    rw [hscan]
    exact List.mem_cons_of_mem first htoken
  have hkept : c ∈ Text.trimEnd isLineEnd source.toList := Token.mem_of_mem_scanChars hscanned hmem
  obtain ⟨ending, hending, -⟩ := Text.exists_eq_trimEnd_append isLineEnd source.toList
  have hfalse := hsource c (hending ▸ List.mem_append_left ending hkept)
  rw [hend] at hfalse
  cases hfalse

end Statement

/-- A line that was read is read again from its text, unless it is a remark and the text ends in the
end of a line. -/
theorem parse_text_iff (h : parse source = .ok (some line)) :
    parse line.text = .ok (some line) ↔
      ¬ ∃ content c, line.statement = some (.remark content) ∧
        content.toList.getLast? = some c ∧ isLineEnd c := by
  obtain ⟨number, statement⟩ := line
  cases statement with
  | none =>
      obtain ⟨first, body, -, hnumber, -⟩ := parse_ok_iff.mp h
      simp [parse_text_none (Token.pos_of_lineNumber hnumber)]
  | some statement =>
      rw [parse_text_iff_of_parse h]
      simp only [Text.trimEnd_eq_self_iff]
      constructor
      · rintro hkept ⟨content, c, heq, hlast, hend⟩
        have hfalse := hkept content (Option.some.inj heq) c hlast
        rw [hend] at hfalse
        cases hfalse
      · intro hnone content heq c hlast
        rw [Bool.eq_false_iff]
        intro hend
        exact hnone ⟨content, c, congrArg some heq, hlast, hend⟩

theorem parse_eq_ok_of_toOption {read : Option SourceLine} (h : (parse source).toOption = some read) :
    parse source = .ok read := by
  cases hparse : parse source with
  | error fault =>
      rw [hparse] at h
      cases h
  | ok found =>
      rw [hparse] at h
      exact congrArg _ (Option.some.inj h)

/-- A jump whose left side is a variable with the name `THEN`, and a remark with a carriage return that
only a blank at the end had kept. -/
theorem parse_text_iff_jump_remark :
    (∃ line, parse "010 IF THEN<-x**2 THEN 020" = .ok (some line) ∧
      line.text = "10 IF THEN < (0 - (x ** 2)) THEN 20" ∧ parse line.text = .ok (some line)) ∧
    ∃ line, parse "5 REM a \r " = .ok (some line) ∧ line.text = "5 REM a \r" ∧
      parse line.text ≠ .ok (some line) := by
  constructor
  · let power : Expression := .compound .power (.var "x") (.constant 2)
    let jump : Statement := .branch (.var "THEN") .less (.compound .subtract (.constant 0) power) 20
    have hread : parse "010 IF THEN<-x**2 THEN 020" = .ok (some ⟨10, some jump⟩) :=
      parse_eq_ok_of_toOption (by decide +kernel)
    refine ⟨_, hread, by decide +kernel, (parse_text_iff hread).mpr ?_⟩
    rintro ⟨content, c, heq, -⟩
    simp [jump] at heq
  · have hread : parse "5 REM a \r " = .ok (some ⟨5, some (.remark "a \r")⟩) :=
      parse_eq_ok_of_toOption (by decide +kernel)
    refine ⟨_, hread, by decide +kernel, fun hagain => ?_⟩
    exact (parse_text_iff hread).mp hagain ⟨"a \r", '\r', rfl, by decide, by decide⟩

end SourceLine

end NumberedBasic
