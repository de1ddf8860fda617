/-!
# Blank characters

White space is what Unicode's `White_Space` property holds, a good deal more than ASCII.
Trimming removes it at both ends of a text and nowhere else.
-/

namespace NumberedBasic.Text

/-- The code points of `White_Space`, as closed intervals in ascending order. -/
def blankRanges : List (Nat × Nat) :=
  [(0x9, 0xD), (0x20, 0x20), (0x85, 0x85), (0xA0, 0xA0), (0x1680, 0x1680), (0x2000, 0x200A),
    (0x2028, 0x2029), (0x202F, 0x202F), (0x205F, 0x205F), (0x3000, 0x3000)]

def isBlank (c : Char) : Bool :=
  blankRanges.any fun range => range.1 ≤ c.toNat && c.toNat ≤ range.2

/-- Removes the longest final run of characters that satisfy `drop`. -/
def trimEnd (drop : Char → Bool) (cs : List Char) : List Char :=
  (cs.reverse.dropWhile drop).reverse

def trim (cs : List Char) : List Char :=
  trimEnd isBlank (cs.dropWhile isBlank)

@[simp] theorem trimEnd_nil (drop : Char → Bool) : trimEnd drop [] = [] := rfl

theorem trimEnd_append_singleton_of_pos {drop : Char → Bool} {c : Char} (h : drop c)
    (cs : List Char) : trimEnd drop (cs ++ [c]) = trimEnd drop cs := by
  simp [trimEnd, h]

theorem trimEnd_append_singleton_of_neg {drop : Char → Bool} {c : Char} (h : ¬ drop c)
    (cs : List Char) : trimEnd drop (cs ++ [c]) = cs ++ [c] := by
  simp [trimEnd, h]

end NumberedBasic.Text
