import NumberedBasic.Listing

/-!
# The source of a listing

Listings that come from lines of source text, and the lines that a listing text consists of.
-/

namespace NumberedBasic

namespace Listing

/-- Takes in lines of source text in order. A line that fails changes nothing. -/
def feed (listing : Listing) (texts : List String) : Listing :=
  texts.foldl (fun listing text => (listing.load text).toOption.getD listing) listing

/-- Takes in lines of source text in order, all of them or none. -/
def loadAll (listing : Listing) (texts : List String) : Except Fault Listing :=
  texts.foldlM load listing

/-- The listing text, split at its newlines and without the margin. After the last newline there is
one more line, which is blank. -/
def sourceLines (listing : Listing) (marker : Option LineNumber) : List String :=
  ((listing.text marker).toList.splitOn '\n').map fun line => String.ofList (line.drop 1)

end Listing

end NumberedBasic
