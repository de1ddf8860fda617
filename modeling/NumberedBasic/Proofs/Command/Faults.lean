import NumberedBasic.Command
import NumberedBasic.Proofs.Expression.Symbol

/-!
# Faults of a text

Whatever is wrong with a text is a fault of the text itself: reading a number, a name, an expression, a
statement, a source line or a command never fails with a fault of execution.
-/

namespace NumberedBasic

/-- All faults of a reading are faults of the text. -/
def IsReading {α : Type} (read : Except Fault α) : Prop :=
  ∀ fault, read = .error fault → fault.kind = .parse

section

variable {α β : Type} {read : Except Fault α}

theorem isReading_ok (found : α) : IsReading (.ok found) := by
  intro fault h
  cases h

theorem isReading_error {fault : Fault} (h : fault.kind = .parse) :
    IsReading (.error fault : Except Fault α) := by
  intro other hother
  cases hother
  exact h

theorem IsReading.bind {next : α → Except Fault β} (hread : IsReading read)
    (hnext : ∀ found, IsReading (next found)) : IsReading (read >>= next) := by
  intro fault h
  cases hfound : read with
  | error other =>
      rw [hfound] at h
      cases h
      exact hread fault hfound
  | ok found =>
      rw [hfound] at h
      exact hnext found fault h

theorem IsReading.map (h : IsReading read) (make : α → β) : IsReading (read.map make) := by
  intro fault hfault
  cases hfound : read with
  | error other =>
      rw [hfound] at hfault
      cases hfault
      exact h fault hfound
  | ok found =>
      rw [hfound] at hfault
      cases hfault

end

/-! ### Tokens -/

namespace Token

theorem isReading_value (token : Token) : IsReading token.value := by
  unfold value
  split
  · exact isReading_error rfl
  · split
    · exact isReading_error rfl
    · exact isReading_ok _

theorem isReading_lineNumber (token : Token) : IsReading token.lineNumber := by
  unfold lineNumber
  split
  · exact isReading_error rfl
  · exact isReading_ok _

theorem isReading_variableName (token : Token) : IsReading token.variableName := by
  unfold variableName
  split
  · exact isReading_ok _
  · exact isReading_error rfl

end Token

/-! ### Expressions -/

namespace Expression

namespace Parser

variable {limit : Option Nat}

theorem isReading_ofToken (token : Token) : IsReading (Symbol.ofToken token) := by
  unfold Symbol.ofToken
  split
  · exact token.isReading_value.map _
  split
  · exact isReading_ok _
  split
  · exact isReading_ok _
  split
  · exact isReading_ok _
  split
  · exact isReading_ok _
  · exact isReading_error rfl

theorem isReading_combine (op : Operator) (operands : List Operand) :
    IsReading (combine limit op operands) := by
  unfold combine
  split
  · dsimp only
    split
    · exact isReading_error rfl
    · exact isReading_ok _
  · exact isReading_error rfl

theorem isReading_reduce (applies : Operator → Bool) (waiting : List Waiting)
    (operands : List Operand) : IsReading (reduce limit applies waiting operands) := by
  induction waiting generalizing operands with
  | nil => exact isReading_ok _
  | cons top rest ih =>
      cases top with
      | opening => exact isReading_ok _
      | operator op =>
          rw [reduce]
          split
          · have hcombine := @isReading_combine limit op operands
            cases hcombined : combine limit op operands with
            | error fault => exact isReading_error (hcombine fault hcombined)
            | ok combined => exact ih combined
          · exact isReading_ok _

theorem isReading_push (state : Stacks) (symbol : Symbol) : IsReading (push limit state symbol) := by
  cases symbol with
  | leaf expression => exact isReading_ok _
  | opening => exact isReading_ok _
  | operator op =>
      have hreduce := @isReading_reduce limit (·.appliesBefore op) state.waiting state.operands
      rw [push]
      split
      next => exact isReading_ok _
      next fault hfault => exact isReading_error (hreduce fault hfault)
  | closing =>
      have hreduce := @isReading_reduce limit (fun _ => true) state.waiting state.operands
      rw [push]
      split
      next => exact isReading_ok _
      next => exact isReading_error rfl
      next fault hfault => exact isReading_error (hreduce fault hfault)

theorem isReading_pushAll (state : Stacks) (tokens : List Token) :
    IsReading (pushAll limit state tokens) := by
  induction tokens generalizing state with
  | nil => exact isReading_ok _
  | cons token rest ih =>
      rw [pushAll]
      split
      next fault hfault => exact isReading_error (isReading_ofToken token fault hfault)
      next symbol _ =>
        split
        next fault hfault => exact isReading_error (isReading_push state symbol fault hfault)
        next pushed _ => exact ih pushed

theorem isReading_conclude (state : Stacks) : IsReading (conclude limit state) := by
  unfold conclude
  split
  next fault hfault => exact isReading_error (isReading_reduce _ _ _ fault hfault)
  next => exact isReading_ok _
  next => exact isReading_error rfl
  next => exact isReading_error rfl

end Parser

theorem isReading_parseWithin (limit : Option Nat) (tokens : List Token) :
    IsReading (parseWithin limit tokens) := by
  unfold parseWithin
  split
  · exact isReading_error rfl
  · split
    next fault hfault => exact isReading_error (Parser.isReading_pushAll _ _ fault hfault)
    next state _ => exact Parser.isReading_conclude state

theorem isReading_parse (tokens : List Token) : IsReading (parse tokens) :=
  isReading_parseWithin (some depthLimit) tokens

end Expression

/-! ### Statements -/

namespace Statement

theorem isReading_incomplete (keyword : Keyword) : IsReading (incomplete keyword) :=
  isReading_error rfl

theorem isReading_parseBranch (body : List Token) : IsReading (parseBranch body) := by
  unfold parseBranch
  split
  · exact isReading_incomplete .branch
  split
  · exact isReading_incomplete .branch
  split
  next =>
    apply (Expression.isReading_parse _).bind
    intro lhs
    apply (Expression.isReading_parse _).bind
    intro rhs
    apply (Token.isReading_lineNumber _).bind
    intro line
    exact isReading_ok _
  next => exact isReading_incomplete .branch

theorem isReading_parseBody (keyword : Keyword) (body : List Token) :
    IsReading (parseBody keyword body) := by
  cases keyword with
  | remark => exact isReading_ok _
  | target => exact isReading_error rfl
  | branch => exact isReading_parseBranch body
  | assign =>
      unfold parseBody
      dsimp only
      split
      · apply (Token.isReading_variableName _).bind
        intro name
        apply (Expression.isReading_parse _).bind
        intro value
        exact isReading_ok _
      · exact isReading_incomplete .assign
  | print =>
      unfold parseBody
      dsimp only
      split
      · exact isReading_incomplete .print
      · exact (Expression.isReading_parse body).map print
  | input =>
      unfold parseBody
      dsimp only
      split
      · exact (Token.isReading_variableName _).map input
      · exact isReading_incomplete .input
  | goto =>
      unfold parseBody
      dsimp only
      split
      · exact (Token.isReading_lineNumber _).map goto
      · exact isReading_incomplete .goto
  | finish =>
      unfold parseBody
      dsimp only
      split
      · exact isReading_ok _
      · exact isReading_incomplete .finish

theorem isReading_parse (tokens : List Token) : IsReading (parse tokens) := by
  unfold parse
  split
  · exact isReading_error rfl
  · split
    · exact isReading_parseBody _ _
    · exact isReading_error rfl

end Statement

/-! ### Lines -/

theorem SourceLine.isReading_parse (text : String) : IsReading (parse text) := by
  unfold parse
  split
  next => exact isReading_ok _
  next first body _ =>
    split
    next fault hfault => exact isReading_error (first.isReading_lineNumber fault hfault)
    next number _ =>
      split
      · exact isReading_ok _
      · split
        next fault hfault =>
          apply isReading_error
          rw [Fault.kind_inLine]
          exact Statement.isReading_parse body fault hfault
        next => exact isReading_ok _

namespace Command

theorem isReading_parse (text : String) : IsReading (parse text) := by
  unfold parse
  split
  next => exact isReading_ok _
  next first rest _ =>
    split
    case h_2 =>
      dsimp only
      split
      · exact isReading_error rfl
      · exact isReading_ok _
    case h_8 | h_9 | h_10 => exact (Statement.isReading_parse _).map _
    case h_11 =>
      split
      · exact (SourceLine.isReading_parse text).map _
      · exact isReading_error rfl
    all_goals exact isReading_ok _

end Command

/-! ### Statements without a number -/

/-- A statement that may stand without a line number. -/
def Statement.isDirect : Statement → Bool
  | .assign _ _ | .print _ | .input _ => true
  | .remark _ | .goto _ | .branch _ _ _ _ | .finish => false

theorem Statement.isDirect_of_parseBody {keyword : Keyword} {body : List Token}
    {statement : Statement} (hkeyword : keyword ∈ [.assign, .print, Keyword.input])
    (h : parseBody keyword body = .ok statement) : statement.isDirect = true := by
  cases keyword with
  | assign =>
      unfold parseBody at h
      dsimp only at h
      split at h
      · obtain ⟨name, -, h⟩ := bind_eq_ok_iff.mp h
        obtain ⟨value, -, h⟩ := bind_eq_ok_iff.mp h
        cases h
        rfl
      · cases h
  | print =>
      unfold parseBody at h
      dsimp only at h
      split at h
      · cases h
      · obtain ⟨value, -, rfl⟩ := map_eq_ok_iff.mp h
        rfl
  | input =>
      unfold parseBody at h
      dsimp only at h
      split at h
      · obtain ⟨name, -, rfl⟩ := map_eq_ok_iff.mp h
        rfl
      · cases h
  | remark | goto | branch | finish | target => simp at hkeyword

theorem Command.isDirect_of_parse {text : String} {statement : Statement}
    (h : parse text = .ok (some (.direct statement))) : statement.isDirect = true := by
  unfold parse at h
  split at h
  next => cases h
  next first rest _ =>
    have hbody : ∀ keyword ∈ [.assign, .print, Keyword.input],
        (Statement.parseBody keyword rest).map (fun found => some (direct found)) =
          .ok (some (direct statement)) → statement.isDirect = true := by
      intro keyword hkeyword hread
      obtain ⟨found, hparse, hfound⟩ := map_eq_ok_iff.mp hread
      cases hfound
      exact Statement.isDirect_of_parseBody hkeyword hparse
    obtain ⟨word⟩ := first
    split at h
    case h_2 =>
      dsimp only at h
      split at h <;> cases h
    case h_8 hword =>
      obtain rfl : word = "LET" := hword
      exact hbody .assign (by simp) h
    case h_9 hword =>
      obtain rfl : word = "PRINT" := hword
      exact hbody .print (by simp) h
    case h_10 hword =>
      obtain rfl : word = "INPUT" := hword
      exact hbody .input (by simp) h
    case h_11 =>
      split at h
      · obtain ⟨line, -, hline⟩ := map_eq_ok_iff.mp h
        cases line <;> cases hline
      · cases h
    all_goals cases h

end NumberedBasic
