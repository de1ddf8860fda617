import NumberedBasic.Token

/-!
# Keywords

The reserved words that begin a statement, and `THEN`, with the usage that is shown when a statement
lacks one of its parts. `THEN` belongs to the conditional jump and shares its usage.
-/

namespace NumberedBasic

inductive Keyword where
  | finish
  | goto
  | branch
  | input
  | assign
  | print
  | remark
  | target
deriving DecidableEq, Repr

namespace Keyword

def text : Keyword → String
  | .finish => "END"
  | .goto => "GOTO"
  | .branch => "IF"
  | .input => "INPUT"
  | .assign => "LET"
  | .print => "PRINT"
  | .remark => "REM"
  | .target => "THEN"

def ofToken? (token : Token) : Option Keyword :=
  match token.text with
  | "END" => some .finish
  | "GOTO" => some .goto
  | "IF" => some .branch
  | "INPUT" => some .input
  | "LET" => some .assign
  | "PRINT" => some .print
  | "REM" => some .remark
  | "THEN" => some .target
  | _ => none

def token (keyword : Keyword) : Token := ⟨keyword.text⟩

def usage : Keyword → String
  | .finish => "usage: END"
  | .goto => "usage: GOTO <linenumber>"
  | .branch | .target =>
      "usage: IF <expression> <operator> <expression> THEN <linenumber>"
  | .input => "usage: INPUT <varname>"
  | .assign => "usage: LET <varname> = <expression>"
  | .print => "usage: PRINT <expression>"
  | .remark => "usage: REM [content]"

theorem ofToken?_eq_some_iff {token : Token} {keyword : Keyword} :
    ofToken? token = some keyword ↔ token = keyword.token := by
  constructor
  · intro h
    cases token with
    | mk text =>
        simp only [ofToken?] at h
        split at h <;> cases h <;> rfl
  · rintro rfl
    cases keyword <;> rfl

end Keyword

end NumberedBasic
