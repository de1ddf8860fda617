import NumberedBasic.Number

/-!
# Faults

What can go wrong, with the wording of every complaint. A fault has a code, the line it came from
once that is known, and a detail that its cause supplies; `message` is the only place where these
become one text.
-/

namespace NumberedBasic

namespace Fault

/-- Whether a fault belongs to the reading of a text or to its execution. -/
inductive Kind where
  | parse
  | runtime
deriving DecidableEq, Repr

inductive Code where
  | illegalExpression
  | unmatchedParenthesis
  | incompleteExpression
  | illegalNumber
  | illegalStatement
  | incompleteStatement
  | illegalVariable
  | illegalLineNumber
  | illegalCommand
  | notDeclared
  | divisionByZero
  | overflow
  | undefinedLine
  | unknownStatement
  | interrupted
  | internal
deriving DecidableEq, Repr

def Kind.text : Kind → String
  | .parse => "parse error"
  | .runtime => "runtime error"

def Code.kind : Code → Kind
  | .illegalExpression | .unmatchedParenthesis | .incompleteExpression | .illegalNumber
  | .illegalStatement | .incompleteStatement | .illegalVariable | .illegalLineNumber
  | .illegalCommand => .parse
  | .notDeclared | .divisionByZero | .overflow | .undefinedLine | .unknownStatement
  | .interrupted | .internal => .runtime

def Code.description : Code → String
  | .illegalExpression => "illegal expression"
  | .unmatchedParenthesis => "unmatched parenthesis"
  | .incompleteExpression => "incomplete expression"
  | .illegalNumber => "illegal number"
  | .illegalStatement => "illegal statement"
  | .incompleteStatement => "incomplete statement"
  | .illegalVariable => "illegal variable name"
  | .illegalLineNumber => "illegal line number"
  | .illegalCommand => "illegal command"
  | .notDeclared => "not declared"
  | .divisionByZero => "divide by zero"
  | .overflow => "overflow"
  | .undefinedLine => "no matching line number"
  | .unknownStatement => "unknown statement"
  | .interrupted => "break"
  | .internal => "internal error"

end Fault

/-- A complaint. The detail is empty where the code says it all. -/
structure Fault where
  code : Fault.Code
  line : Option LineNumber := none
  detail : String := ""
deriving DecidableEq, Repr

namespace Fault

def kind (fault : Fault) : Kind := fault.code.kind

/-- Says which line a fault came from. A fault that knows its line keeps it. -/
def inLine (fault : Fault) (line : Option LineNumber) : Fault :=
  match fault.line with
  | some _ => fault
  | none => { fault with line }

/-- The kind and the code, then the line if there is one, then the detail if there is one. -/
def message (fault : Fault) : String :=
  let place :=
    match fault.line with
    | some line => " in " ++ toString line
    | none => ""
  let remark := if fault.detail.isEmpty then "" else "; " ++ fault.detail
  fault.kind.text ++ ": " ++ fault.code.description ++ place ++ remark

/-- The message inside the braces of a record, for logs. -/
def debugText (fault : Fault) : String :=
  "Error \x7b " ++ fault.message ++ " \x7d"

/-- Source text inside a detail stands between grave accents. -/
def quote (text : String) : String := "`" ++ text ++ "`"

/-! ### Causes -/

def emptyParentheses : Fault := { code := .illegalExpression, detail := "empty parentheses" }

def tooComplex : Fault := { code := .illegalExpression, detail := "expression too complex" }

def unexpected (token : String) : Fault :=
  { code := .illegalExpression, detail := "unexpected " ++ quote token }

/-- Several values stand side by side, or none at all. -/
def notOneValue : Fault := { code := .illegalExpression }

def unopenedParenthesis : Fault :=
  { code := .unmatchedParenthesis, detail := "expected \"(\" to match \")\"" }

def unclosedParenthesis : Fault :=
  { code := .unmatchedParenthesis, detail := "expected \")\" to match \"(\"" }

def missingOperand : Fault := { code := .incompleteExpression }

def notNumber (token : String) : Fault :=
  { code := .illegalNumber, detail := quote token ++ " is not a number" }

def numberOutOfRange (token : String) : Fault :=
  { code := .illegalNumber, detail := quote token ++ " is out of range" }

def badAnswer : Fault := { code := .illegalNumber, detail := "usage: ? <int>" }

def noStatement : Fault := { code := .illegalStatement }

def thenWithoutIf : Fault := { code := .illegalStatement, detail := "THEN without IF" }

def incompleteStatement (usage : String) : Fault :=
  { code := .incompleteStatement, detail := usage }

def illegalVariable (token : String) : Fault :=
  { code := .illegalVariable, detail := quote token }

def illegalLineNumber (token : String) : Fault :=
  { code := .illegalLineNumber, detail := quote token }

def illegalCommand (token : String) : Fault :=
  { code := .illegalCommand, detail := quote token }

def missingFileName : Fault := { code := .illegalCommand, detail := "usage: LOAD <file>" }

def notDeclared (name : String) : Fault := { code := .notDeclared, detail := quote name }

def divisionByZero : Fault := { code := .divisionByZero }

def overflow : Fault := { code := .overflow }

def undefinedLine (target : LineNumber) : Fault :=
  { code := .undefinedLine, detail := "line " ++ toString target }

/-- An operator was to be applied where none waits. -/
def operatorStackUnderflow : Fault := { code := .internal, detail := "operator stack underflow" }

/-- A statement that needs a program around it was given without a line number. -/
def unknownStatement (text : String) : Fault := { code := .unknownStatement, detail := text }

def interruption (line : Option LineNumber) : Fault := { code := .interrupted, line }

def programCounterLost : Fault := { code := .internal, detail := "program counter lost" }

@[simp] theorem inLine_none (fault : Fault) : fault.inLine none = fault := by
  cases fault with
  | mk code line detail => cases line <;> rfl

theorem code_inLine (fault : Fault) (line : Option LineNumber) :
    (fault.inLine line).code = fault.code := by
  unfold inLine
  split <;> rfl

theorem kind_inLine (fault : Fault) (line : Option LineNumber) :
    (fault.inLine line).kind = fault.kind :=
  congrArg Code.kind (fault.code_inLine line)

end Fault

end NumberedBasic
