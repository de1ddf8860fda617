import NumberedBasic.Fault

/-!
# Bindings

The values of the declared variables. A variable is declared by its first value, and a name that was
never given one has no value at all.
-/

namespace NumberedBasic

/-- Each declared name once, in the order of declaration. -/
structure Bindings where
  entries : List (String × Value) := []
deriving DecidableEq, Repr

namespace Bindings

def fetch? (bindings : Bindings) (name : String) : Option Value :=
  bindings.entries.lookup name

def fetch (bindings : Bindings) (name : String) : Except Fault Value :=
  match bindings.fetch? name with
  | some value => .ok value
  | none => .error (.notDeclared name)

/-- Gives `name` a value in place, or at the end if it is new. -/
def assign (name : String) (value : Value) : List (String × Value) → List (String × Value)
  | [] => [(name, value)]
  | entry :: rest =>
      if entry.1 = name then (name, value) :: rest else entry :: assign name value rest

def store (bindings : Bindings) (name : String) (value : Value) : Bindings :=
  ⟨assign name value bindings.entries⟩

theorem fetch?_store (bindings : Bindings) (name other : String) (value : Value) :
    (bindings.store name value).fetch? other =
      if other = name then some value else bindings.fetch? other := by
  unfold fetch? store
  induction bindings.entries with
  | nil => simp only [assign, List.lookup_cons, List.lookup_nil]; grind
  | cons entry rest ih => simp only [assign]; grind

end Bindings

end NumberedBasic
