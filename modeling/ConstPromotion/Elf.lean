import ConstPromotion.Section.Flags
import ConstPromotion.Text.Decimal
import ConstPromotion.Text.Utf8

/-!
# ELF object files

The section headers of an object file and the table of their names, for both word sizes and both
byte orders. The size of a header follows from the word size; what the file says about it does not
count. A file whose symbol table, string tables or relocations do not lie within it is refused as a
whole, although sections are all that is wanted.
-/

namespace ConstPromotion

/-- Why a file cannot be read as ELF. -/
inductive ElfError where
  | badHeader
  | tooManySections
  | sectionOutside
  | badStringTable
  | badSymbolTable
deriving DecidableEq

/-- The wording of an error. -/
def ElfError.message : ElfError → String
  | .badHeader => "invalid or truncated header"
  | .tooManySections => "more section headers than the file can hold"
  | .sectionOutside => "section outside of the file"
  | .badStringTable => "invalid string table"
  | .badSymbolTable => "symbol table outside of the file"

/-- The order of the bytes of a number. -/
inductive ByteOrder where
  | little
  | big
deriving DecidableEq

/-- The number that bytes write. -/
def ByteOrder.number (order : ByteOrder) (bytes : Bytes) : Nat :=
  let digits := match order with
    | .little => bytes.reverse
    | .big => bytes
  digits.foldl (fun n b => 256 * n + b.toNat) 0

/-- How the numbers of an object file are written. -/
structure ElfFormat where
  order : ByteOrder
  /-- Whether words have 64 bits instead of 32. -/
  wide : Bool
deriving DecidableEq

/-- A section header, as far as it matters. -/
structure ElfSection where
  /-- Where the name starts in the table of names. -/
  name : Nat
  type : Nat
  flags : UInt64
  address : Nat
  offset : Nat
  size : Nat
  link : Nat
  info : Nat
  alignment : Nat
  entrySize : Nat
deriving DecidableEq

namespace ElfFormat

/-- The number of `width` bytes at an offset. -/
def number? (f : ElfFormat) (bytes : Bytes) (offset width : Nat) : Option Nat :=
  let piece := (bytes.drop offset).take width
  if piece.length = width then some (f.order.number piece) else none

/-- How many bytes the header of the file has. -/
def headerSize (f : ElfFormat) : Nat := if f.wide then 64 else 52

/-- How many bytes a section header has. -/
def sectionHeaderSize (f : ElfFormat) : Nat := if f.wide then 64 else 40

/-- How many bytes a symbol has. -/
def symbolSize (f : ElfFormat) : Nat := if f.wide then 24 else 16

/-- The section header at an offset. -/
def section? (f : ElfFormat) (bytes : Bytes) (offset : Nat) : Option ElfSection := do
  let header := (bytes.drop offset).take f.sectionHeaderSize
  let half := f.number? header
  if f.wide then
    return {
      name := ← half 0 4, type := ← half 4 4, flags := UInt64.ofNat (← half 8 8)
      address := ← half 16 8, offset := ← half 24 8, size := ← half 32 8, link := ← half 40 4
      info := ← half 44 4, alignment := ← half 48 8, entrySize := ← half 56 8 }
  else
    return {
      name := ← half 0 4, type := ← half 4 4, flags := UInt64.ofNat (← half 8 4)
      address := ← half 12 4, offset := ← half 16 4, size := ← half 20 4, link := ← half 24 4
      info := ← half 28 4, alignment := ← half 32 4, entrySize := ← half 36 4 }

end ElfFormat

namespace ElfSection

/-- The type of the section that holds the symbols of a file. -/
def symbolTableType : Nat := 2

/-- The type of a section of relocations that carry an addend. -/
def relaType : Nat := 4

/-- The type of a section that takes memory but holds nothing in the file. -/
def noBitsType : Nat := 8

/-- The type of a section of relocations without an addend. -/
def relType : Nat := 9

/-- Whether the contents of a section lie within the file and its addresses within 64 bits. A
section without contents lies anywhere. -/
def isInside (s : ElfSection) (bytes : Bytes) : Bool :=
  s.type = noBitsType || s.size = 0
    || (s.offset + s.size ≤ bytes.length && s.address + s.size < Decimal.word64)

/-- The string table that a section holds. Each of its strings has to be text. -/
def strings? (s : ElfSection) (bytes : Bytes) : Except ElfError Bytes :=
  if !s.isInside bytes then .error .sectionOutside
  else if s.offset + s.size > bytes.length then .error .badStringTable
  else
    let table := (bytes.drop s.offset).take s.size
    if (table.splitOn 0).all fun piece => (Utf8.decode? piece).isSome then .ok table
    else .error .badStringTable

end ElfSection

/-- The text that starts at an offset of a string table. -/
def stringAt? (table : Bytes) (offset : Nat) : Option (List Char) :=
  Utf8.decode? ((table.drop offset).takeWhile (· ≠ 0))

/-- An object file: its section headers, and the table of their names. -/
structure ElfFile where
  sections : List ElfSection
  names : Bytes
deriving DecidableEq

namespace ElfFile

/-- Reads how the numbers of an object file are written. -/
def format? (bytes : Bytes) : Option ElfFormat :=
  match bytes with
  | 0x7F :: 0x45 :: 0x4C :: 0x46 :: wide :: order :: _ => do
    let wide ← if wide = 1 then some false else if wide = 2 then some true else none
    let order ←
      if order = 1 then some ByteOrder.little else if order = 2 then some .big else none
    let f : ElfFormat := ⟨order, wide⟩
    if bytes.length < f.headerSize then none else some f
  | _ => none

/-- Reads the section headers from an offset: the first one, and as many after it as there are. The
first one tells their number if the header of the file does not. -/
def sectionsAt (f : ElfFormat) (bytes : Bytes) (offset given : Nat) :
    Except ElfError (List ElfSection) := do
  let some zero := f.section? bytes offset | throw .sectionOutside
  let count := if given = 0 then zero.size else given
  if count > bytes.length / f.sectionHeaderSize then throw .tooManySections
  let others := (List.range (count - 1)).mapM fun i =>
    f.section? bytes (offset + (i + 1) * f.sectionHeaderSize)
  match others with
  | some others => return zero :: others
  | none => throw .sectionOutside

/-- The number of a section that stands for the one that the first section header links to. -/
def linkedIndex : Nat := 0xFFFF

/-- The string table of the section with a number, empty if there is no such section. -/
def tableOf (bytes : Bytes) (sections : List ElfSection) (index : Nat) : Except ElfError Bytes :=
  let index :=
    if index = linkedIndex then (sections.head?.map ElfSection.link).getD 0 else index
  match sections[index]? with
  | some s => s.strings? bytes
  | none => .ok []

/-- Checks the symbol table and the relocations. -/
def check (f : ElfFormat) (bytes : Bytes) (sections : List ElfSection) :
    Except ElfError Unit := do
  match sections.reverse.find? (·.type = ElfSection.symbolTableType) with
  | none => pure ()
  | some s =>
    let count := if s.entrySize = 0 then 0 else s.size / s.entrySize
    if s.offset + count * f.symbolSize > bytes.length then throw .badSymbolTable
    let _ ← tableOf bytes sections s.link
  if sections.any fun s =>
      (s.type = ElfSection.relType ∨ s.type = ElfSection.relaType) ∧ !s.isInside bytes then
    throw .sectionOutside

/-- Reads an object file. -/
def parse? (bytes : Bytes) : Except ElfError ElfFile := do
  let some f := format? bytes | throw .badHeader
  let field (narrow wide width : Nat) :=
    (f.number? bytes (if f.wide then wide else narrow) width).getD 0
  let offset := field 0x20 0x28 (if f.wide then 8 else 4)
  let count := field 0x30 0x3C 2
  let namesIndex := field 0x32 0x3E 2
  if offset = 0 then return ⟨[], []⟩
  let sections ← sectionsAt f bytes offset count
  let names ← tableOf bytes sections namesIndex
  check f bytes sections
  return ⟨sections, names⟩

/-- The sections that have a name, with their flags, in the order of the headers. -/
def named (e : ElfFile) : List (String × UInt64) :=
  e.sections.filterMap fun s =>
    match stringAt? e.names s.name with
    | none | some [] => none
    | some name => some (String.ofList name, s.flags)

end ElfFile

end ConstPromotion
