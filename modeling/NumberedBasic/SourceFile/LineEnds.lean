import NumberedBasic.SourceFile

/-!
# Line ends

The same text can be written with a line feed at the end of a line, or with a carriage return and a line
feed, and it may change from one to the other anywhere.
-/

namespace NumberedBasic.SourceFile

/-- The file with other line ends. Any of its line feeds may have a carriage return put in front of it,
and its last line may have one put behind it if no line feed ends that line. -/
inductive Respelled : List UInt8 → List UInt8 → Prop where
  | done : Respelled [] []
  | kept {rest other : List UInt8} (byte : UInt8) :
      Respelled rest other → Respelled (byte :: rest) (byte :: other)
  | ended {rest other : List UInt8} : Respelled rest other → Respelled (10 :: rest) (13 :: 10 :: other)
  | unended {line : List UInt8} : line ≠ [] → 10 ∉ line → Respelled line (line ++ [13])

end NumberedBasic.SourceFile
