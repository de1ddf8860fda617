import NumberedBasic.Listing

/-!
# Walking through a listing

The edits that a listing comes from, and the walk that begins at its first line and goes on from each
line to the one after it.
-/

namespace NumberedBasic

namespace Listing

inductive Edit where
  | insert (line : LineNumber) (statement : Statement)
  | erase (line : LineNumber)
  | load (text : String)
deriving DecidableEq, Repr

def edited (listing : Listing) : Edit → Except Fault Listing
  | .insert line statement => listing.insert line statement
  | .erase line => .ok (listing.erase line)
  | .load text => listing.load text

/-- Makes edits in order. One that fails changes nothing. -/
def editAll (listing : Listing) (edits : List Edit) : Listing :=
  edits.foldl (fun listing edit => (listing.edited edit).toOption.getD listing) listing

/-- Where the walk is after so many steps. It has ended where there is no line after. -/
def visit? (listing : Listing) : Nat → Option LineNumber
  | 0 => listing.first?
  | count + 1 => (listing.visit? count).bind listing.after?

end Listing

end NumberedBasic
