import NumberedBasic.Proofs.Statement.Grammar
import NumberedBasic.SourceLine

/-!
# Reading a statement from its text

The listing text of a statement that was read is a form of the same statement. What is in it besides
blanks is in its tokens, and only a remark can hold the end of a line.
-/

namespace NumberedBasic

namespace Token

variable {token : Token} {cs : List Char} {c : Char}

/-! ### Characters of a token -/

theorem isUnit_keyword (keyword : Keyword) : IsUnit keyword.token.text.toList := by
  apply isUnit_of_isLeaf
  right
  cases keyword <;> decide

theorem scan_keyword (keyword : Keyword) (rest : String) :
    scan (keyword.token.text ++ " " ++ rest) = keyword.token :: scan rest := by
  rw [scan_spaced, scan_unit (isUnit_keyword keyword), List.singleton_append]

/-- Every character but a blank belongs to a token. -/
theorem exists_mem_scanChars (hmem : c ∈ cs) (hspace : isSpace c = false) :
    ∃ token ∈ scanChars cs, c ∈ token.text.toList := by
  have hkept : c ∈ cs.filter (!isSpace ·) := List.mem_filter.mpr ⟨hmem, by simp [hspace]⟩
  rw [← flatMap_scanChars] at hkept
  exact List.mem_flatMap.mp hkept

theorem mem_of_mem_scanChars (htoken : token ∈ scanChars cs) (hmem : c ∈ token.text.toList) :
    c ∈ cs := by
  have hkept : c ∈ (scanChars cs).flatMap (·.text.toList) := List.mem_flatMap.mpr ⟨token, htoken, hmem⟩
  rw [flatMap_scanChars] at hkept
  exact (List.mem_filter.mp hkept).1

/-- No character of the token ends a line. -/
def OnOneLine (token : Token) : Prop := ∀ c ∈ token.text.toList, SourceLine.isLineEnd c = false

instance (token : Token) : Decidable token.OnOneLine :=
  decidable_of_iff (token.text.toList.all (!SourceLine.isLineEnd ·) = true) (by simp [OnOneLine])

theorem OnOneLine.newline_notMem (h : token.OnOneLine) : '\n' ∉ token.text.toList := by
  intro hmem
  exact absurd (h _ hmem) (by decide)

theorem onOneLine_of_isLeaf (h : Expression.IsLeaf token) : token.OnOneLine := by
  intro c hc
  have hplain := isPlain_of_isLeaf h c hc
  rw [Bool.eq_false_iff]
  intro hend
  have hcases : c = '\r' ∨ c = '\n' := by simpa [SourceLine.isLineEnd] using hend
  rcases hcases with rfl | rfl
  · exact absurd hplain (by decide)
  · exact absurd hplain (by decide)

theorem onOneLine_of_symbol {symbol : Expression.Parser.Symbol}
    (h : Expression.Parser.Symbol.ofToken token = .ok symbol) : token.OnOneLine := by
  rcases Expression.Parser.Symbol.ofToken_cases h with
    ⟨hleaf, -⟩ | ⟨op, rfl, -⟩ | ⟨rfl, -⟩ | ⟨rfl, -⟩
  · exact onOneLine_of_isLeaf hleaf
  · cases op <;> decide
  · decide
  · decide

end Token

theorem Expression.onOneLine_of_parseWithin {limit : Option Nat} {tokens : List Token}
    {e : Expression} (h : parseWithin limit tokens = .ok e) : ∀ token ∈ tokens, token.OnOneLine := by
  intro token hmem
  obtain ⟨symbol, hsymbol⟩ := Parser.exists_symbol_of_parseWithin h token hmem
  exact Token.onOneLine_of_symbol hsymbol

theorem Token.isNumber_of_lineNumber {token : Token} {line : LineNumber}
    (h : token.lineNumber = .ok line) : token.isNumber := by
  obtain ⟨n, hn, -⟩ := lineNumber_eq_ok_iff.mp h
  exact (Text.numeral?_eq_some_iff.mp hn).1

namespace Statement

variable {tokens body : List Token} {statement : Statement}

/-! ### Tokens of the listing text -/

theorem scan_text_remark (h : ∀ token ∈ body, Token.IsUnit token.text.toList) :
    Token.scan (remark (" ".intercalate (body.map Token.text))).text =
      Keyword.remark.token :: body := by
  have htext : ∀ content, (remark content).text = Keyword.remark.token.text ++ " " ++ content :=
    fun content => rfl
  rw [htext, Token.scan_keyword, Token.scan_intercalate h]

theorem scan_text_branch {lhs rhs : Expression} {comparator : Comparator} {target : LineNumber}
    (hlhs : lhs.Writable) (hrhs : rhs.Writable) :
    Token.scan (branch lhs comparator rhs target).text =
      Keyword.branch.token :: lhs.tokens ++ comparator.token :: rhs.tokens ++
        [Keyword.target.token, ⟨toString target⟩] := by
  have hnumber := Token.isUnit_of_isLeaf (.inl (Token.isNumber_toString_lineNumber target))
  have hif : "IF " = Keyword.branch.token.text ++ " " := rfl
  have hthen : " THEN " = " " ++ Keyword.target.token.text ++ " " := rfl
  have htext : (branch lhs comparator rhs target).text = Keyword.branch.token.text ++ " " ++
      (lhs.text ++ " " ++ comparator.token.text ++ " " ++ rhs.text ++ " " ++
        (Keyword.target.token.text ++ " " ++ toString target)) := by
    simp only [text, hif, hthen, Comparator.token, String.append_assoc]
  rw [htext, Token.scan_keyword, Token.scan_spaced, Token.scan_keyword, Token.scan_spaced,
    Token.scan_spaced, Token.scan_unit (Token.isUnit_comparator _), Token.scan_unit hnumber,
    hlhs.scan_text, hrhs.scan_text]
  simp

/-- What was read from units is read again from its listing text. -/
theorem IsForm.scan_text (h : IsForm tokens statement)
    (hunits : ∀ token ∈ tokens, Token.IsUnit token.text.toList) :
    IsForm (Token.scan statement.text) statement := by
  cases h with
  | remark body =>
      rw [scan_text_remark (List.forall_mem_cons.mp hunits).2]
      exact .remark body
  | @assign name tokens value hname hvalue =>
      have hlet : "LET " = Keyword.assign.token.text ++ " " := rfl
      have hequal : " = " = " " ++ Comparator.equal.token.text ++ " " := rfl
      have htext : (Statement.assign name.text value).text = Keyword.assign.token.text ++ " " ++
          (name.text ++ " " ++ Comparator.equal.token.text ++ " " ++ value.text) := by
        simp only [text, hlet, hequal, String.append_assoc]
      rw [htext, Token.scan_keyword, Token.scan_spaced, Token.scan_spaced,
        Token.scan_unit (Token.isUnit_comparator _),
        Token.scan_unit (Token.isUnit_of_isLeaf (.inr hname))]
      exact .assign hname (Expression.parse_scan_text_of_parse hvalue)
  | @print tokens value hvalue =>
      have htext : (Statement.print value).text = Keyword.print.token.text ++ " " ++ value.text := rfl
      rw [htext, Token.scan_keyword]
      exact .print (Expression.parse_scan_text_of_parse hvalue)
  | @input name hname =>
      have htext : (Statement.input name.text).text =
          Keyword.input.token.text ++ " " ++ name.text := rfl
      rw [htext, Token.scan_keyword, Token.scan_unit (Token.isUnit_of_isLeaf (.inr hname))]
      exact .input hname
  | @goto number target htarget =>
      have htext : (Statement.goto target).text =
          Keyword.goto.token.text ++ " " ++ toString target := rfl
      have hnumber := Token.isUnit_of_isLeaf (.inl (Token.isNumber_toString_lineNumber target))
      rw [htext, Token.scan_keyword, Token.scan_unit hnumber]
      exact .goto (Token.lineNumber_toString (Token.pos_of_lineNumber htarget))
  | @branch left right lhs rhs comparator number target hlhs hrhs htarget hwall =>
      have hleft : lhs.Writable := Expression.writable_of_parseWithin hlhs
      have hright : rhs.Writable := Expression.writable_of_parseWithin hrhs
      -- A name of the right side is a token that was read there, and so is not `THEN`.
      have hwritten : Keyword.target.token ∉ rhs.tokens := by
        intro hmem
        have hvar := Expression.var_mem_leaves hright (by decide) hmem
        exact hwall (Expression.mem_of_var_mem_leaves hrhs hvar)
      rw [scan_text_branch hleft hright]
      apply IsForm.branch
      · rw [← hleft.scan_text]
        exact Expression.parse_scan_text_of_parse hlhs
      · rw [← hright.scan_text]
        exact Expression.parse_scan_text_of_parse hrhs
      · exact Token.lineNumber_toString (Token.pos_of_lineNumber htarget)
      · exact hwritten
  | finish =>
      have htext : Statement.finish.text = Keyword.finish.token.text := rfl
      rw [htext, Token.scan_unit (Token.isUnit_keyword _)]
      exact .finish

/-! ### Ends of lines -/

theorem IsForm.onOneLine (h : IsForm tokens statement)
    (hremark : ∀ content, statement ≠ .remark content) : ∀ token ∈ tokens, token.OnOneLine := by
  have hkeyword : ∀ keyword : Keyword, keyword.token.OnOneLine := by
    intro keyword
    cases keyword <;> decide
  have hcomparator : ∀ comparator : Comparator, comparator.token.OnOneLine := by
    intro comparator
    cases comparator <;> decide
  cases h with
  | remark body => exact absurd rfl (hremark _)
  | @assign name tokens value hname hvalue =>
      simp only [List.forall_mem_cons]
      exact ⟨hkeyword _, Token.onOneLine_of_isLeaf (.inr hname), hcomparator _,
        Expression.onOneLine_of_parseWithin hvalue⟩
  | print hvalue =>
      exact List.forall_mem_cons.mpr ⟨hkeyword _, Expression.onOneLine_of_parseWithin hvalue⟩
  | input hname =>
      simp only [List.forall_mem_cons]
      exact ⟨hkeyword _, Token.onOneLine_of_isLeaf (.inr hname), by simp⟩
  | goto htarget =>
      have hnumber := Token.onOneLine_of_isLeaf (.inl (Token.isNumber_of_lineNumber htarget))
      simp only [List.forall_mem_cons]
      exact ⟨hkeyword _, hnumber, by simp⟩
  | branch hleft hright htarget _ =>
      have hnumber := Token.onOneLine_of_isLeaf (.inl (Token.isNumber_of_lineNumber htarget))
      intro token hmem
      simp only [List.cons_append, List.append_assoc, List.mem_cons, List.mem_append, List.not_mem_nil,
        or_false] at hmem
      rcases hmem with rfl | hmem | rfl | hmem | rfl | rfl
      · exact hkeyword _
      · exact Expression.onOneLine_of_parseWithin hleft token hmem
      · exact hcomparator _
      · exact Expression.onOneLine_of_parseWithin hright token hmem
      · exact hkeyword _
      · exact hnumber
  | finish => simpa using hkeyword .finish

/-- A text that was read holds the end of a line only if it is a remark with one in its tokens. -/
theorem IsForm.exists_of_isLineEnd (h : IsForm tokens statement)
    (hunits : ∀ token ∈ tokens, Token.IsUnit token.text.toList) {c : Char}
    (hc : c ∈ statement.text.toList) (hend : SourceLine.isLineEnd c) :
    (∃ content, statement = .remark content) ∧ ∃ token ∈ tokens, c ∈ token.text.toList := by
  have hspace : Token.isSpace c = false := by
    rw [Bool.eq_false_iff]
    intro hspace
    obtain rfl : c = ' ' := by simpa [Token.isSpace] using hspace
    exact absurd hend (by decide)
  obtain ⟨token, htoken, hmem⟩ := Token.exists_mem_scanChars hc hspace
  have hremark : ∃ content, statement = .remark content := by
    apply Classical.byContradiction
    intro hnone
    have honOneLine := (h.scan_text hunits).onOneLine (fun content heq => hnone ⟨content, heq⟩)
    have hfalse := honOneLine token htoken c hmem
    rw [hend] at hfalse
    cases hfalse
  refine ⟨hremark, token, ?_, hmem⟩
  obtain ⟨content, rfl⟩ := hremark
  cases h with
  | remark body =>
      have hscan := scan_text_remark (List.forall_mem_cons.mp hunits).2
      rw [← hscan]
      exact htoken

end Statement

end NumberedBasic
