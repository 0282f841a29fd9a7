/-!
# Section flags

The flags of a section are bits of a word. They are shown as letters, one for each known bit, in
the order of the table below. Bits that have no letter are not shown.
-/

namespace ConstPromotion

/-- The known flag bits with their letters, in the order in which the letters are shown. -/
def flagTable : List (Nat × Char) :=
  [(0, 'W'), (1, 'A'), (2, 'X'), (4, 'M'), (5, 'S'), (6, 'I'), (7, 'L'), (8, 'O'), (9, 'G'),
   (10, 'T'), (11, 'C'), (31, 'E')]

/-- The letters of a flag word. -/
def flagLetters (flags : UInt64) : List Char :=
  flagTable.filterMap fun (bit, letter) => if flags.toNat.testBit bit then some letter else none

/-- A section of an object file as it is reported. -/
structure SectionRecord where
  /-- The name of the object file. -/
  object : String
  /-- The name of the section. -/
  name : String
  /-- The letters of its flags. -/
  flags : String
deriving DecidableEq

/-- Whether a section can be written at run time. -/
def SectionRecord.isWritable (r : SectionRecord) : Bool := r.flags.toList.contains 'W'

end ConstPromotion
