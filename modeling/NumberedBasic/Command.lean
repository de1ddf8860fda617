import NumberedBasic.SourceLine

/-!
# Commands

What a typed line asks for. The first token decides: a command word, a keyword that may stand without
a line number, or the number of a line to store or remove.
-/

namespace NumberedBasic

inductive Command where
  | run
  | load (file : String)
  | clear
  | list
  | tree
  | help
  | quit
  | direct (statement : Statement)
  | edit (line : SourceLine)
deriving DecidableEq, Repr

namespace Command

/-- The name of a file is what stands after the command word, trimmed, with the blanks inside it. -/
def fileName (text : String) : String :=
  String.ofList (Text.trim ((text.toList.dropWhile (· = ' ')).drop "LOAD".length))

/-- Reads a typed line. A blank line asks for nothing. -/
def parse (text : String) : Except Fault (Option Command) :=
  match Token.scan text with
  | [] => .ok none
  | first :: rest =>
      match first.text with
      | "RUN" => .ok (some run)
      | "LOAD" =>
          let file := fileName text
          if file.isEmpty then .error .missingFileName else .ok (some (load file))
      | "CLEAR" => .ok (some clear)
      | "LIST" => .ok (some list)
      | "TREE" => .ok (some tree)
      | "HELP" => .ok (some help)
      | "QUIT" => .ok (some quit)
      | "LET" | "PRINT" | "INPUT" =>
          (Statement.parse (first :: rest)).map fun statement => some (direct statement)
      | word =>
          if first.isNumber then
            (SourceLine.parse text).map (Option.map edit)
          else
            .error (.illegalCommand word)

def helpText : String :=
  "\n".intercalate
    ["Enter a numbered line to store it, or a bare line number to delete it.",
      "  LET <varname> = <expression>     PRINT <expression>     INPUT <varname>",
      "  GOTO <linenumber>                END                    REM [content]",
      "  IF <expression> <operator> <expression> THEN <linenumber>",
      "Commands: RUN, LIST, TREE, LOAD <file>, CLEAR, HELP, QUIT"]

end Command

end NumberedBasic
