import NumberedBasic.Fault
import NumberedBasic.Text.Numeral

/-!
# Tokens

A token is the text of one lexical unit. Nine delimiters are tokens of their own, two stars in a row
are one, and a blank only separates; every other run of characters is a word, whatever is in it. What
a token stands for is asked of it later, so that one text can be a keyword here and a name there.
-/

namespace NumberedBasic

structure Token where
  text : String
deriving DecidableEq, Repr

namespace Token

def delimiters : List Char := [' ', '+', '-', '*', '/', '<', '>', '=', '(', ')']

def isDelimiter (c : Char) : Bool := delimiters.contains c

/-- The lexical units of a text in order, each as long as it can be. -/
def lexemes : List Char → List (List Char)
  | [] => []
  | ' ' :: rest => lexemes rest
  | '*' :: '*' :: rest => ['*', '*'] :: lexemes rest
  | c :: rest =>
      if isDelimiter c then
        [c] :: lexemes rest
      else
        (c :: rest.takeWhile (!isDelimiter ·)) :: lexemes (rest.dropWhile (!isDelimiter ·))
termination_by cs => cs.length
decreasing_by
  all_goals simp only [List.length_cons]
  · omega
  · omega
  · omega
  · have := (rest.dropWhile_sublist (!isDelimiter ·)).length_le
    omega

def scanChars (cs : List Char) : List Token :=
  (lexemes cs).map fun unit => ⟨String.ofList unit⟩

def scan (text : String) : List Token := scanChars text.toList

/-! ### What a token stands for -/

def isLetter (c : Char) : Bool := c.isAlpha || c = '_' || c = '&'

def isNumber (token : Token) : Bool := Text.isNumeral token.text.toList

/-- A name is a letter followed by letters and digits. -/
def isName (token : Token) : Bool :=
  match token.text.toList with
  | [] => false
  | c :: rest => isLetter c && rest.all fun d => isLetter d || d.isDigit

def isOpening (token : Token) : Bool := token.text = "("

def isClosing (token : Token) : Bool := token.text = ")"

def value (token : Token) : Except Fault Value :=
  match Text.numeral? token.text.toList with
  | none => .error (.notNumber token.text)
  | some n =>
      match Value.ofInt? n with
      | none => .error (.numberOutOfRange token.text)
      | some value => .ok value

def lineNumber (token : Token) : Except Fault LineNumber :=
  match (Text.numeral? token.text.toList).bind LineNumber.ofNat? with
  | none => .error (.illegalLineNumber token.text)
  | some line => .ok line

/-- The name of a variable, where only a name will do. -/
def variableName (token : Token) : Except Fault String :=
  if token.isName then .ok token.text else .error (.illegalVariable token.text)

end Token

end NumberedBasic
