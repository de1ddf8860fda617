import NumberedBasic.Session.History

/-!
# Answers

Which texts answer a question, with the value that they give, and what may be typed before one of them.
-/

namespace NumberedBasic

namespace Text

/-- At most one sign and then at least one digit, with the number that they stand for. -/
inductive IsInteger : List Char → Int → Prop where
  | unsigned {digits : List Char} :
      isNumeral digits → IsInteger digits (Nat.ofDigitChars 10 digits 0)
  | positive {digits : List Char} :
      isNumeral digits → IsInteger ('+' :: digits) (Nat.ofDigitChars 10 digits 0)
  | negative {digits : List Char} :
      isNumeral digits → IsInteger ('-' :: digits) (-(Nat.ofDigitChars 10 digits 0 : Int))

end Text

namespace Session

/-- An integer that is a value, with nothing but white space before and after it. -/
def IsAnswer (text : String) (value : Value) : Prop :=
  ∃ before body after, text.toList = before ++ body ++ after ∧ (∀ c ∈ before, Text.isBlank c) ∧
    (∀ c ∈ after, Text.isBlank c) ∧ Text.IsInteger body value.toInt

/-- The question stands, and nothing comes before it. -/
structure Asking (session : Session) (name : String) : Prop where
  pending : session.pending = some name
  events : session.events = []
  interrupted : session.interrupted = false

/-- The session after the question has been answered. -/
def accept (session : Session) (name : String) (value : Value) : Session :=
  { session with
    program := session.program.store name value
    pending := none
    resume := session.resume || session.running }

/-- A line that is typed, and the budgets of the slices that are executed after it, of which there is at
least one. -/
structure Attempt where
  text : String
  budget : Nat
  budgets : List Nat
deriving DecidableEq, Repr

namespace Attempt

def calls (attempt : Attempt) : List Call :=
  .enter attempt.text :: .execute attempt.budget :: attempt.budgets.map .execute

/-- A complaint, and then the question again and again. -/
def complaints (name : String) (attempt : Attempt) : List Event :=
  .fault .badAnswer :: attempt.budgets.map fun _ => .input name

end Attempt

end Session

end NumberedBasic
