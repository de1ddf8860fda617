import NumberedBasic.Program.History

/-!
# Editing

A program that is only written: lines are stored, replaced and removed, each by its number or as a line
of source text. What a call says about a line is an entry, and the entries of the calls that succeed are
what the program is written from.
-/

namespace NumberedBasic

/-- The listing is the map, as a table by ascending number. -/
structure Listing.Tabulates (listing : Listing) (stored : LineNumber → Option Statement) : Prop where
  get?_eq : ∀ line, listing.get? line = stored line
  mem_lines_iff : ∀ line statement, (line, statement) ∈ listing.lines ↔ stored line = some statement
  ascending : listing.numbers.Pairwise (· < ·)
  nodup : listing.numbers.Nodup
  zero_notMem : 0 ∉ listing.numbers
  size_eq : listing.size = listing.numbers.length

namespace Program

/-- The statement that a line is to have, or that it is to have none. -/
abbrev Entry := LineNumber × Option Statement

def Call.isEdit : Call → Bool
  | insert _ _ | load _ => true
  | step _ | carryOutDirectly _ | store _ _ | rewind => false

/-- What a call says about a line, whether or not it succeeds. A text that is blank or cannot be read is
about no line. -/
def Call.about? : Call → Option Entry
  | insert line statement => some (line, statement)
  | load text =>
      match SourceLine.parse text with
      | .ok (some line) => some (line.number, line.statement)
      | .ok none | .error _ => none
  | step _ | carryOutDirectly _ | store _ _ | rewind => none

/-- Whether a call is about the line. -/
def Call.concerns (line : LineNumber) (call : Call) : Bool := call.about?.any (·.1 = line)

/-- Two calls that are not about the same line. -/
def Call.isApart (call other : Call) : Bool := call.about?.all fun entry => !other.concerns entry.1

/-- What a call writes. One that fails writes nothing. -/
def written (program : Program) (call : Call) : List Entry :=
  if (program.reply call).1.isOk then call.about?.toList else []

/-- What calls write, in order. -/
def entries (program : Program) : List Call → List Entry
  | [] => []
  | call :: rest => program.written call ++ (program.reply call).2.entries rest

/-- What the last of the entries about a line says, if there is one. -/
def lastSaid? (entries : List Entry) (line : LineNumber) : Option (Option Statement) :=
  (entries.filter (·.1 = line)).getLast?.map (·.2)

/-- The calls about each line are the same, in the same order. Calls about different lines may be in any
order, and so may those that are about none. -/
def SameByLine (calls others : List Call) : Prop :=
  ∀ line, calls.filter (·.concerns line) = others.filter (·.concerns line)

end Program

end NumberedBasic
