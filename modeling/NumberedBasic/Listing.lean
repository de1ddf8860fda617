import NumberedBasic.SourceLine

/-!
# Listings

The stored lines of a program by ascending number. A number is stored at most once, and the last
statement given for it is the one that stays. The listing text puts a star in the margin of the marked
line and a blank in front of every other.
-/

namespace NumberedBasic

structure Listing where
  lines : List (LineNumber × Statement) := []
deriving DecidableEq, Repr

namespace Listing

def isEmpty (listing : Listing) : Bool := listing.lines.isEmpty

def size (listing : Listing) : Nat := listing.lines.length

def numbers (listing : Listing) : List LineNumber := listing.lines.map (·.1)

def get? (listing : Listing) (line : LineNumber) : Option Statement := listing.lines.lookup line

def first? (listing : Listing) : Option LineNumber := listing.numbers.head?

def last? (listing : Listing) : Option LineNumber := listing.numbers.getLast?

/-- The next stored number above `line`, whether or not `line` is stored. -/
def after? (listing : Listing) (line : LineNumber) : Option LineNumber :=
  listing.numbers.find? (line < ·)

/-- The target of a jump has to be stored. -/
def resolve (listing : Listing) (target : LineNumber) : Except Fault LineNumber :=
  if (listing.get? target).isSome then .ok target else .error (.undefinedLine target)

/-- Puts a line in its place, over the one that had its number. -/
def place (line : LineNumber) (statement : Statement) :
    List (LineNumber × Statement) → List (LineNumber × Statement)
  | [] => [(line, statement)]
  | entry :: rest =>
      if line < entry.1 then
        (line, statement) :: entry :: rest
      else if line = entry.1 then
        (line, statement) :: rest
      else
        entry :: place line statement rest

def insert (listing : Listing) (line : LineNumber) (statement : Statement) :
    Except Fault Listing :=
  if line = 0 then .error (.illegalLineNumber "0") else .ok ⟨place line statement listing.lines⟩

def erase (listing : Listing) (line : LineNumber) : Listing :=
  ⟨listing.lines.filter (·.1 ≠ line)⟩

/-- Stores a statement, or removes the line if there is none. -/
def put (listing : Listing) (line : LineNumber) : Option Statement → Except Fault Listing
  | some statement => listing.insert line statement
  | none => .ok (listing.erase line)

/-- Takes in one line of source text. A blank line changes nothing. -/
def load (listing : Listing) (text : String) : Except Fault Listing :=
  match SourceLine.parse text with
  | .error fault => .error fault
  | .ok none => .ok listing
  | .ok (some line) => listing.put line.number line.statement

def marginMark (marker : Option LineNumber) (line : LineNumber) : String :=
  if marker = some line then "*" else " "

def text (listing : Listing) (marker : Option LineNumber) : String :=
  String.join (listing.lines.map fun (line, statement) =>
    marginMark marker line ++ toString line ++ " " ++ statement.text ++ "\n")

def treeText (listing : Listing) (marker : Option LineNumber) : String :=
  String.join (listing.lines.map fun (line, statement) =>
    marginMark marker line ++ toString line ++ " " ++ statement.treeText)

/-! ### Order -/

/-- The lines ascend strictly, so that no number occurs twice. -/
def Ascending (lines : List (LineNumber × Statement)) : Prop :=
  lines.Pairwise fun a b => a.1 < b.1

theorem mem_place {line : LineNumber} {statement : Statement} {entry : LineNumber × Statement}
    {lines : List (LineNumber × Statement)} (h : entry ∈ place line statement lines) :
    entry = (line, statement) ∨ entry ∈ lines := by
  induction lines with
  | nil => simpa [place] using h
  | cons head rest ih =>
      simp only [place] at h
      split at h
      · simpa using h
      · split at h
        · rcases List.mem_cons.mp h with h | h
          · exact .inl h
          · exact .inr (List.mem_cons_of_mem _ h)
        · rcases List.mem_cons.mp h with h | h
          · exact .inr (h ▸ List.mem_cons_self)
          · exact (ih h).imp id (List.mem_cons_of_mem _)

theorem Ascending.place {lines : List (LineNumber × Statement)} (h : Ascending lines)
    (line : LineNumber) (statement : Statement) :
    Ascending (Listing.place line statement lines) := by
  induction lines with
  | nil => exact List.pairwise_singleton _ _
  | cons head rest ih =>
      obtain ⟨below, ascending⟩ := List.pairwise_cons.mp h
      simp only [Listing.place]
      split
      next before =>
        refine List.pairwise_cons.mpr ⟨fun entry member => ?_, h⟩
        rcases List.mem_cons.mp member with rfl | member
        · exact before
        · exact UInt32.lt_trans before (below entry member)
      next notBefore =>
        split
        next same => exact List.pairwise_cons.mpr ⟨fun entry member => same ▸ below entry member,
          ascending⟩
        next different =>
          refine List.pairwise_cons.mpr ⟨fun entry member => ?_, ih ascending⟩
          rcases mem_place member with rfl | member
          · exact UInt32.lt_of_le_of_ne (UInt32.not_lt.mp notBefore) (Ne.symm different)
          · exact below entry member

theorem Ascending.erase {listing : Listing} (h : Ascending listing.lines) (line : LineNumber) :
    Ascending (listing.erase line).lines :=
  List.Pairwise.filter _ h

/-! ### Retrieval -/

theorem lookup_place (line other : LineNumber) (statement : Statement)
    {lines : List (LineNumber × Statement)} (h : Ascending lines) :
    (Listing.place line statement lines).lookup other =
      if other = line then some statement else lines.lookup other := by
  induction lines with
  | nil => simp only [Listing.place, List.lookup_cons, List.lookup_nil]; grind
  | cons head rest ih =>
      obtain ⟨below, ascending⟩ := List.pairwise_cons.mp h
      specialize ih ascending
      simp only [Listing.place]
      grind

theorem get?_erase (listing : Listing) (line other : LineNumber) :
    (listing.erase line).get? other = if other = line then none else listing.get? other := by
  unfold get? erase
  induction listing.lines with
  | nil => simp
  | cons head rest ih => simp only [List.filter_cons]; grind

end Listing

end NumberedBasic
