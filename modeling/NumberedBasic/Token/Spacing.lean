import NumberedBasic.Token

/-!
# Spacing

Which ways there are to write a sequence of lexical units as a text. Blanks may stand anywhere between
two units; they have to where the two would otherwise be read as one, or divided differently.
-/

namespace NumberedBasic

namespace Token

def isSpace (c : Char) : Bool := c = ' '

/-- A word is a run of characters that are not delimiters. -/
def IsWord (unit : List Char) : Prop := unit ≠ [] ∧ ∀ c ∈ unit, ¬ isDelimiter c

inductive IsUnit : List Char → Prop where
  | word {unit : List Char} : IsWord unit → IsUnit unit
  | power : IsUnit ['*', '*']
  | delimiter {c : Char} : isDelimiter c → ¬ isSpace c → IsUnit [c]

/-- Two units that may not touch: two words, and a star before another one. -/
def Joins (left right : List Char) : Prop :=
  (IsWord left ∧ IsWord right) ∨ (left = ['*'] ∧ right.head? = some '*')

/-- `Written units text` holds if `text` is the units in order with blanks around them, and with at
least one between two that join. -/
inductive Written : List (List Char) → List Char → Prop where
  | blanks {text : List Char} : (∀ c ∈ text, isSpace c) → Written [] text
  | unit {blanks unit text : List Char} {units : List (List Char)} :
      (∀ c ∈ blanks, isSpace c) → IsUnit unit → Written units text →
      (∀ next ∈ units.head?, Joins unit next → text.head?.any isSpace) →
      Written (unit :: units) (blanks ++ unit ++ text)

end Token

end NumberedBasic
