import NumberedBasic.Expression
import NumberedBasic.Keyword

/-!
# Statements

What a line of a program does, with its listing text and its tree text.
-/

namespace NumberedBasic

inductive Statement where
  | remark (content : String)
  | assign (name : String) (value : Expression)
  | print (value : Expression)
  | input (name : String)
  | goto (target : LineNumber)
  | branch (lhs : Expression) (comparator : Comparator) (rhs : Expression) (target : LineNumber)
  | finish
deriving DecidableEq, Repr

namespace Statement

def text : Statement → String
  | remark content => "REM " ++ content
  | assign name value => "LET " ++ name ++ " = " ++ value.text
  | print value => "PRINT " ++ value.text
  | input name => "INPUT " ++ name
  | goto target => "GOTO " ++ toString target
  | branch lhs comparator rhs target =>
      "IF " ++ lhs.text ++ " " ++ comparator.symbol ++ " " ++ rhs.text ++
        " THEN " ++ toString target
  | finish => "END"

def treeText : Statement → String
  | remark content => "REM\n" ++ margin 1 ++ content ++ "\n"
  | assign name value => "LET =\n" ++ margin 1 ++ name ++ "\n" ++ value.treeText 1
  | print value => "PRINT\n" ++ value.treeText 1
  | input name => "INPUT\n" ++ margin 1 ++ name ++ "\n"
  | goto target => "GOTO\n" ++ margin 1 ++ toString target ++ "\n"
  | branch lhs comparator rhs target =>
      "IF THEN\n" ++ lhs.treeText 1 ++ margin 1 ++ comparator.symbol ++ "\n" ++
        rhs.treeText 1 ++ margin 1 ++ toString target ++ "\n"
  | finish => "END\n"

end Statement

end NumberedBasic
