import NumberedBasic.Proofs.Statement.Writing

/-!
# Telling a tree text from what follows it

A tree text says itself where it ends: a node is one line, and the line tells by an operator that two
operands follow and by a number or a name that none does. So nothing that comes after a tree text could
be taken for a part of it, and it is the text of one tree only.
-/

namespace NumberedBasic

/-! ### Lines -/

/-- One line of a tree text. -/
def treeLine (level : Nat) (label : String) : List Char :=
  List.replicate (4 * level) ' ' ++ (label.toList ++ ['\n'])

theorem toList_treeLine (level : Nat) (label : String) :
    (margin level ++ label ++ "\n").toList = treeLine level label := by
  rw [String.toList_append, String.toList_append, List.append_assoc, margin, String.toList_ofList]
  rfl

theorem eq_of_treeLine_append {level : Nat} {label label' : String} {rest rest' : List Char}
    (h : '\n' ∉ label.toList) (h' : '\n' ∉ label'.toList)
    (heq : treeLine level label ++ rest = treeLine level label' ++ rest') :
    label = label' ∧ rest = rest' := by
  simp only [treeLine, List.append_assoc, List.singleton_append] at heq
  obtain ⟨hlabel, hrest⟩ := eq_of_append_cons h h' (List.append_cancel_left heq)
  exact ⟨String.toList_inj.mp hlabel, hrest⟩

/-! ### Expressions -/

namespace Expression

variable {e e' : Expression} {level : Nat} {rest rest' : List Char}

/-- What stands on the line of the top node. -/
def label : Expression → String
  | constant value => toString value
  | var name => name
  | compound op _ _ => op.symbol

/-- What the label is read as. -/
def symbol : Expression → Parser.Symbol
  | constant value => .leaf (constant value)
  | var name => .leaf (var name)
  | compound op _ _ => .operator op

/-- What stands below the line of the top node. -/
def treeBody (level : Nat) : Expression → List Char
  | constant _ | var _ => []
  | compound _ lhs rhs => (lhs.treeText (level + 1)).toList ++ (rhs.treeText (level + 1)).toList

theorem toList_treeText (level : Nat) (e : Expression) :
    (e.treeText level).toList = treeLine level e.label ++ e.treeBody level := by
  cases e with
  | constant value => rw [treeText, toList_treeLine, treeBody, List.append_nil, label]
  | var name => rw [treeText, toList_treeLine, treeBody, List.append_nil, label]
  | compound op lhs rhs =>
      rw [treeText, String.toList_append, String.toList_append, toList_treeLine, treeBody, label,
        List.append_assoc]

theorem Writable.ofToken_label (h : e.Writable) :
    Parser.Symbol.ofToken ⟨e.label⟩ = .ok e.symbol := by
  cases e with
  | constant value => exact Parser.Symbol.ofToken_leaf (isLeaf_constant h) h.read?_form
  | var name => exact Parser.Symbol.ofToken_leaf (isLeaf_var h) h.read?_form
  | compound op lhs rhs => exact Parser.Symbol.ofToken_operator op

/-- The line of the top node is told apart, and tells what the node is. -/
theorem Writable.symbol_eq_of_append (h : e.Writable) (h' : e'.Writable)
    (heq : (e.treeText level).toList ++ rest = (e'.treeText level).toList ++ rest') :
    e.symbol = e'.symbol ∧ e.treeBody level ++ rest = e'.treeBody level ++ rest' := by
  rw [toList_treeText, toList_treeText, List.append_assoc, List.append_assoc] at heq
  have hline := (Token.onOneLine_of_symbol h.ofToken_label).newline_notMem
  have hline' := (Token.onOneLine_of_symbol h'.ofToken_label).newline_notMem
  obtain ⟨hlabel, hbody⟩ : e.label = e'.label ∧
      e.treeBody level ++ rest = e'.treeBody level ++ rest' :=
    eq_of_treeLine_append hline hline' heq
  have hsymbol := h.ofToken_label
  rw [hlabel, h'.ofToken_label] at hsymbol
  exact ⟨(Except.ok.inj hsymbol).symm, hbody⟩

theorem Writable.eq_of_treeText_append (h : e.Writable) (h' : e'.Writable)
    (heq : (e.treeText level).toList ++ rest = (e'.treeText level).toList ++ rest') :
    e = e' ∧ rest = rest' := by
  induction e generalizing e' level rest rest' with
  | constant value =>
      obtain ⟨hsymbol, hbody⟩ := h.symbol_eq_of_append h' heq
      cases e' with
      | constant _ =>
          cases hsymbol
          exact ⟨rfl, hbody⟩
      | var _ | compound _ _ _ => cases hsymbol
  | var name =>
      obtain ⟨hsymbol, hbody⟩ := h.symbol_eq_of_append h' heq
      cases e' with
      | var _ =>
          cases hsymbol
          exact ⟨rfl, hbody⟩
      | constant _ | compound _ _ _ => cases hsymbol
  | compound op lhs rhs ihl ihr =>
      obtain ⟨hsymbol, hbody⟩ := h.symbol_eq_of_append h' heq
      cases e' with
      | constant _ | var _ => cases hsymbol
      | compound op' lhs' rhs' =>
          cases hsymbol
          -- What comes after the left operand begins with the right one.
          simp only [treeBody, List.append_assoc] at hbody
          obtain ⟨rfl, hright⟩ := ihl h.1 h'.1 hbody
          obtain ⟨rfl, hrest⟩ := ihr h.2 h'.2 hright
          exact ⟨rfl, hrest⟩

end Expression

/-! ### Statements -/

namespace Statement

variable {statement statement' : Statement} {rest rest' : List Char}

/-- The first line of the tree text. -/
def headline : Statement → String
  | remark _ => "REM"
  | assign _ _ => "LET ="
  | print _ => "PRINT"
  | input _ => "INPUT"
  | goto _ => "GOTO"
  | branch _ _ _ _ => "IF THEN"
  | finish => "END"

/-- What stands below the first line. -/
def treeBody : Statement → List Char
  | remark content => treeLine 1 content
  | assign name value => treeLine 1 name ++ (value.treeText 1).toList
  | print value => (value.treeText 1).toList
  | input name => treeLine 1 name
  | goto target => treeLine 1 (toString target)
  | branch lhs comparator rhs target =>
      (lhs.treeText 1).toList ++
        (treeLine 1 comparator.symbol ++ ((rhs.treeText 1).toList ++ treeLine 1 (toString target)))
  | finish => []

/-- A remark is on one line, and what else there is could be written. -/
def Drawable : Statement → Prop
  | remark content => '\n' ∉ content.toList
  | assign name value => Token.isName ⟨name⟩ ∧ value.Writable
  | print value => value.Writable
  | input name => Token.isName ⟨name⟩
  | branch lhs _ rhs _ => lhs.Writable ∧ rhs.Writable
  | goto _ | finish => True

theorem toList_treeText (statement : Statement) :
    statement.treeText.toList = treeLine 0 statement.headline ++ statement.treeBody := by
  have hline : ∀ label : String,
      treeLine 1 label = (margin 1).toList ++ (label.toList ++ "\n".toList) := by
    intro label
    rw [← toList_treeLine, String.toList_append, String.toList_append, List.append_assoc]
  unfold treeText
  cases statement with
  | remark _ | assign _ _ | print _ | input _ | goto _ | branch _ _ _ _ =>
      simp only [treeBody, headline, String.toList_append, List.append_assoc, hline]
      -- Only the first lines are left, which are constants.
      exact congrArg (· ++ _) rfl
  | finish => rfl

theorem newline_notMem_headline (statement : Statement) : '\n' ∉ statement.headline.toList := by
  unfold headline
  split <;> decide

theorem newline_notMem_name {name : String} (h : Token.isName ⟨name⟩) : '\n' ∉ name.toList :=
  (Token.onOneLine_of_isLeaf (.inr h)).newline_notMem

theorem newline_notMem_symbol (comparator : Comparator) : '\n' ∉ comparator.symbol.toList := by
  cases comparator <;> decide

theorem eq_of_lineNumber_append {target target' : LineNumber}
    (heq : treeLine 1 (toString target) ++ rest = treeLine 1 (toString target') ++ rest') :
    target = target' ∧ rest = rest' := by
  have hline : '\n' ∉ (toString target).toList := Token.notMem_toString_lineNumber (by decide) target
  have hline' : '\n' ∉ (toString target').toList := Token.notMem_toString_lineNumber (by decide) target'
  obtain ⟨htarget, hrest⟩ := eq_of_treeLine_append hline hline' heq
  exact ⟨Token.toString_lineNumber_inj.mp htarget, hrest⟩

theorem Drawable.eq_of_treeText_append (h : statement.Drawable) (h' : statement'.Drawable)
    (heq : statement.treeText.toList ++ rest = statement'.treeText.toList ++ rest') :
    statement = statement' ∧ rest = rest' := by
  rw [toList_treeText, toList_treeText, List.append_assoc, List.append_assoc] at heq
  obtain ⟨hheadline, hbody⟩ := eq_of_treeLine_append (newline_notMem_headline statement)
    (newline_notMem_headline statement') heq
  cases statement with
  | remark content =>
      cases statement' with
      | remark content' =>
          obtain ⟨rfl, hrest⟩ := eq_of_treeLine_append h h' hbody
          exact ⟨rfl, hrest⟩
      | assign _ _ | print _ | input _ | goto _ | branch _ _ _ _ | finish =>
          simp [headline] at hheadline
  | assign name value =>
      cases statement' with
      | assign name' value' =>
          simp only [treeBody, List.append_assoc] at hbody
          obtain ⟨rfl, hvalue⟩ :=
            eq_of_treeLine_append (newline_notMem_name h.1) (newline_notMem_name h'.1) hbody
          obtain ⟨rfl, hrest⟩ := h.2.eq_of_treeText_append h'.2 hvalue
          exact ⟨rfl, hrest⟩
      | remark _ | print _ | input _ | goto _ | branch _ _ _ _ | finish =>
          simp [headline] at hheadline
  | print value =>
      cases statement' with
      | print value' =>
          obtain ⟨rfl, hrest⟩ := Expression.Writable.eq_of_treeText_append h h' hbody
          exact ⟨rfl, hrest⟩
      | remark _ | assign _ _ | input _ | goto _ | branch _ _ _ _ | finish =>
          simp [headline] at hheadline
  | input name =>
      cases statement' with
      | input name' =>
          obtain ⟨rfl, hrest⟩ :=
            eq_of_treeLine_append (newline_notMem_name h) (newline_notMem_name h') hbody
          exact ⟨rfl, hrest⟩
      | remark _ | assign _ _ | print _ | goto _ | branch _ _ _ _ | finish =>
          simp [headline] at hheadline
  | goto target =>
      cases statement' with
      | goto target' =>
          obtain ⟨rfl, hrest⟩ := eq_of_lineNumber_append hbody
          exact ⟨rfl, hrest⟩
      | remark _ | assign _ _ | print _ | input _ | branch _ _ _ _ | finish =>
          simp [headline] at hheadline
  | branch lhs comparator rhs target =>
      cases statement' with
      | branch lhs' comparator' rhs' target' =>
          simp only [treeBody, List.append_assoc] at hbody
          obtain ⟨rfl, hafterLeft⟩ := h.1.eq_of_treeText_append h'.1 hbody
          obtain ⟨hsymbol, hafterSign⟩ := eq_of_treeLine_append (newline_notMem_symbol comparator)
            (newline_notMem_symbol comparator') hafterLeft
          obtain rfl := Comparator.token_inj.mp (congrArg Token.mk hsymbol)
          obtain ⟨rfl, hafterRight⟩ := h.2.eq_of_treeText_append h'.2 hafterSign
          obtain ⟨rfl, hrest⟩ := eq_of_lineNumber_append hafterRight
          exact ⟨rfl, hrest⟩
      | remark _ | assign _ _ | print _ | input _ | goto _ | finish =>
          simp [headline] at hheadline
  | finish =>
      cases statement' with
      | finish => exact ⟨rfl, hbody⟩
      | remark _ | assign _ _ | print _ | input _ | goto _ | branch _ _ _ _ =>
          simp [headline] at hheadline

/-- A statement that was read is drawable, as long as a remark is on one line. -/
theorem IsForm.drawable {tokens : List Token} (h : IsForm tokens statement)
    (htext : '\n' ∉ statement.text.toList) : statement.Drawable := by
  cases h with
  | remark body =>
      intro hmem
      apply htext
      rw [text, String.toList_append]
      exact List.mem_append_right _ hmem
  | assign hname hvalue => exact ⟨hname, Expression.writable_of_parseWithin hvalue⟩
  | print hvalue => exact Expression.writable_of_parseWithin hvalue
  | input hname => exact hname
  | goto _ | finish => trivial
  | branch hleft hright _ _ =>
      exact ⟨Expression.writable_of_parseWithin hleft, Expression.writable_of_parseWithin hright⟩

end Statement

end NumberedBasic
