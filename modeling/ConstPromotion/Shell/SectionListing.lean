import ConstPromotion.Elf
import ConstPromotion.Shell.State

/-!
# Listing sections

What the listing tool of the system prints for an object file: a table with one row for each
section. Numbers are hexadecimal up to the flags and decimal after them.
-/

namespace ConstPromotion.Shell

/-! ### Columns -/

/-- The names of the types of sections. -/
def sectionTypeNames : List (Nat × String) :=
  [(0, "NULL"), (1, "PROGBITS"), (2, "SYMTAB"), (3, "STRTAB"), (4, "RELA"), (5, "HASH"),
    (6, "DYNAMIC"), (7, "NOTE"), (8, "NOBITS"), (9, "REL"), (10, "SHLIB"), (11, "DYNSYM"),
    (14, "INIT_ARRAY"), (15, "FINI_ARRAY"), (16, "PREINIT_ARRAY"), (17, "GROUP"),
    (18, "SYMTAB SECTION INDICES"), (19, "RELR"), (0x6FFFFFF5, "GNU_ATTRIBUTES"),
    (0x6FFFFFF6, "GNU_HASH"), (0x6FFFFFFD, "VERDEF"), (0x6FFFFFFE, "VERNEED"),
    (0x6FFFFFFF, "VERSYM")]

/-- A number in hexadecimal digits, at least `width` of them. -/
def hexColumn (width n : Nat) : String :=
  let digits := Nat.toDigits 16 n
  String.ofList (List.replicate (width - digits.length) '0' ++ digits)

/-- How the type of a section is shown. Types without a name are shown by the range they lie in. -/
def sectionType (type : Nat) : String :=
  match sectionTypeNames.lookup type with
  | some name => name
  | none =>
    if 0x70000000 ≤ type ∧ type < 0x80000000 then "LOPROC+0x" ++ hexColumn 1 (type - 0x70000000)
    else if 0x60000000 ≤ type ∧ type < 0x70000000 then "LOOS+0x" ++ hexColumn 1 (type - 0x60000000)
    else if 0x80000000 ≤ type ∧ type ≤ 0xFFFFFFFF then
      "LOUSER+0x" ++ hexColumn 1 (type - 0x80000000)
    else "<unknown>: " ++ hexColumn 1 type

/-- The letter of a flag bit: its own, or one for the system, the processor or what is unknown. -/
def flagLetter (bit : Nat) : Char :=
  match List.lookup bit flagTable with
  | some letter => letter
  | none => if 20 ≤ bit ∧ bit < 28 then 'o' else if 28 ≤ bit ∧ bit < 32 then 'p' else 'x'

/-- Adds the letter of a flag bit. The letter of the system stands for all its bits, and so does
that of the processor. -/
def addFlag (shown : List Char) (bit : Nat) : List Char :=
  if (20 ≤ bit ∧ bit < 28 ∧ shown.contains 'o') ∨ (28 ≤ bit ∧ bit < 32 ∧ shown.contains 'p') then
    shown
  else shown ++ [flagLetter bit]

/-- How the flags of a section are shown, in the order of their bits. -/
def sectionFlags (flags : UInt64) : String :=
  String.ofList (((List.range 64).filter flags.toNat.testBit).foldl addFlag [])

/-- The row of a section. -/
def sectionRow (names : Bytes) (index : Nat) (s : ElfSection) : String :=
  let name := String.ofList ((stringAt? names s.name).getD [])
  "  [" ++ toString index ++ "] " ++ name ++ " " ++ sectionType s.type ++ " "
    ++ hexColumn 8 s.address ++ " " ++ hexColumn 6 s.offset ++ " " ++ hexColumn 6 s.size ++ " "
    ++ hexColumn 2 s.entrySize ++ " " ++ sectionFlags s.flags ++ " " ++ toString s.link ++ " "
    ++ toString s.info ++ " " ++ toString s.alignment ++ "\n"

/-! ### The tool -/

/-- The rows of the sections of an object file, none if it cannot be listed. -/
def sectionRows? (content : Bytes) : Option (List String) :=
  match ElfFile.parse? content with
  | .ok file => some (file.sections.mapIdx (sectionRow file.names))
  | .error _ => none

/-- Lists the sections of object files. -/
def readelf (arguments : List String) : Run Nat := do
  let named := arguments.filter fun a => a.toList.head? ≠ some '-'
  if named = [] then return 1
  eachOf named fun a => do
    let content := ((← files).read (.ofString a)).toOption
    match content.bind sectionRows? with
    | some rows =>
      rows.forM say
      return 0
    | none =>
      complain ("readelf: Error: " ++ a ++ ": Failed to read the sections")
      return 1

end ConstPromotion.Shell
