import ConstPromotion.Text.Decimal
import ConstPromotion.Text.Utf8

/-!
# Archives

An archive is a magic line and members one after the other, each with a header of fixed width and
its data, padded to an even length. Long names lie in a table that is a member itself, or before the
data of their member. The first members may be tables of the archive and are then no members of
their own.

The members of a thin archive have no data in it, its tables excepted.
-/

namespace ConstPromotion

/-- Why a file cannot be read as an archive. -/
inductive ArchiveError where
  | badMagic
  | badHeader
  | badTerminator
  | badSize
  | badName
  | dataOutside
deriving DecidableEq

/-- The wording of an error. -/
def ArchiveError.message : ArchiveError → String
  | .badMagic => "unsupported archive identifier"
  | .badHeader => "truncated archive member header"
  | .badTerminator => "invalid archive terminator"
  | .badSize => "invalid archive member size"
  | .badName => "invalid archive member name"
  | .dataOutside => "archive member size is too large"

/-- A member of an archive. -/
structure ArchiveMember where
  name : Bytes
  /-- The data, none if it does not lie within the file. -/
  data : Option Bytes
deriving DecidableEq

/-- An archive, opened at its first member. -/
structure Archive where
  thin : Bool
  /-- The table of long names. -/
  names : Bytes
  /-- The file from the first member on. -/
  rest : Bytes
deriving DecidableEq

namespace Archive

/-! ### Member headers -/

/-- Reads digits up to the first space; there has to be something before it. -/
def digitsField? : Bytes → Option Nat
  | [] => some 0
  | b :: rest =>
    let digits := (b :: rest).takeWhile (· ≠ 0x20)
    if digits ≠ [] ∧ digits.all (fun d => 0x30 ≤ d ∧ d ≤ 0x39) then
      let n := digits.foldl (fun n d => 10 * n + (d.toNat - 0x30)) 0
      if n < Decimal.word64 then some n else none
    else none

/-- Whether a byte is a decimal digit. -/
def isDigit (b : Option UInt8) : Bool := b.any fun b => 0x30 ≤ b && b ≤ 0x39

/-- The name at an offset of the table of long names: it ends before a slash and a line feed, or
before a NUL. -/
def longName? (names : Bytes) (offset : Nat) : Option Bytes :=
  if offset > names.length then none
  else
    let tail := names.drop offset
    let name := tail.takeWhile fun b => b ≠ 0x0A ∧ b ≠ 0
    match tail.drop name.length with
    | 0x0A :: _ => if name.getLast? = some 0x2F then some name.dropLast else none
    | _ :: _ => some name
    | [] => none

/-- Whether a member is a table that has data in a thin archive as well. -/
def isTable (name : Bytes) : Bool :=
  name == bytesOf "/" || name == bytesOf "//" || name == bytesOf "/SYM64/"

/-- The data of `size` bytes at the start of a file, if they lie within it. -/
def data? (size : Nat) (file : Bytes) : Option Bytes :=
  if size ≤ file.length then some (file.take size) else none

/-- The name of a member, and how many bytes before its data belong to the name. -/
def memberName (names field after : Bytes) (size : Nat) : Except ArchiveError (Bytes × Nat) :=
  if field.head? = some 0x2F ∧ isDigit field[1]? then
    match (digitsField? (field.drop 1)).bind (longName? names) with
    | some name => .ok (name, 0)
    | none => .error .badName
  else if field.take 3 = bytesOf "#1/" ∧ isDigit field[3]? then
    match digitsField? (field.drop 3) with
    | some n =>
      match if n ≤ size then data? n after else none with
      | some name => .ok (name.takeWhile (· ≠ 0), n)
      | none => .error .badName
    | none => .error .badName
  else if field.head? = some 0x2F then .ok (field.takeWhile (· ≠ 0x20), 0)
  else
    let ending : UInt8 := if field.contains 0x2F then 0x2F else 0x20
    .ok (field.takeWhile (· ≠ ending), 0)

/-- Reads a member at the start of a file, and gives the file after it. -/
def member (thin : Bool) (names file : Bytes) : Except ArchiveError (ArchiveMember × Bytes) := do
  let header := file.take 60
  let after := file.drop 60
  if header.length < 60 then throw .badHeader
  if header.drop 58 ≠ [0x60, 0x0A] then throw .badTerminator
  let some size := digitsField? ((header.drop 48).take 10) | throw .badSize
  let (name, inName) ← memberName names (header.take 16) after size
  if thin ∧ !isTable name then return (⟨name, some []⟩, after)
  else return (⟨name, data? (size - inName) (after.drop inName)⟩, after.drop (size + size % 2))

/-! ### Tables -/

/-- The names of symbol tables that are no tables of the common kind. -/
def symbolTableNames : List Bytes :=
  ["__.SYMDEF", "__.SYMDEF SORTED", "__.SYMDEF_64", "__.SYMDEF_64 SORTED"].map bytesOf

/-- The data of a table of names. -/
def tableData (m : ArchiveMember) : Except ArchiveError Bytes :=
  match m.data with
  | some data => .ok data
  | none => .error .dataOutside

/-- Opens an archive after a symbol table: a table of names may follow. -/
def openAfterSymbols (thin : Bool) (file : Bytes) : Except ArchiveError Archive := do
  if file = [] then return ⟨thin, [], file⟩
  let (m, rest) ← member thin [] file
  if m.name = bytesOf "//" then return ⟨thin, ← tableData m, rest⟩
  else return ⟨thin, [], file⟩

/-- Opens an archive after two symbol tables: a table of names may follow, and after that, or after
the member in its place, a third symbol table. -/
def openAfterLinkers (thin : Bool) (file : Bytes) : Except ArchiveError Archive := do
  if file = [] then return ⟨thin, [], file⟩
  let (m, rest) ← member thin [] file
  let (names, start) ←
    if m.name = bytesOf "//" then do pure (← tableData m, rest) else pure ([], file)
  if rest = [] then return ⟨thin, names, start⟩
  let (m, after) ← member thin names rest
  if m.name = bytesOf "/<ECSYMBOLS>/" then return ⟨thin, names, after⟩
  else return ⟨thin, names, start⟩

/-- Opens an archive after its magic line. -/
def openAfterMagic (thin : Bool) (file : Bytes) : Except ArchiveError Archive := do
  if file = [] then return ⟨thin, [], file⟩
  let (m, rest) ← member thin [] file
  if m.name = bytesOf "/" then
    if rest = [] then return ⟨thin, [], rest⟩
    let (second, after) ← member thin [] rest
    if second.name = bytesOf "/" then openAfterLinkers thin after
    else if second.name = bytesOf "//" then return ⟨thin, ← tableData second, after⟩
    else return ⟨thin, [], rest⟩
  else if m.name = bytesOf "/SYM64/" then openAfterSymbols thin rest
  else if m.name = bytesOf "//" then return ⟨thin, ← tableData m, rest⟩
  else if symbolTableNames.contains m.name then return ⟨thin, [], rest⟩
  else return ⟨thin, [], file⟩

/-- Opens a file as an archive. The header of its first member is read as well. -/
def open? (file : Bytes) : Except ArchiveError Archive :=
  match (bytesOf "!<arch>\n").isPrefixOf? file with
  | some rest => openAfterMagic false rest
  | none =>
    match (bytesOf "!<thin>\n").isPrefixOf? file with
    | some rest => openAfterMagic true rest
    | none => .error .badMagic

/-! ### Members -/

/-- Reads members up to the end of the file or the first fault. -/
def membersFrom (thin : Bool) (names : Bytes) :
    (fuel : Nat) → Bytes → List (Except ArchiveError ArchiveMember)
  | 0, _ => []
  | fuel + 1, file =>
    if file = [] then []
    else
      match member thin names file with
      | .error e => [.error e]
      | .ok (m, rest) => .ok m :: membersFrom thin names fuel rest

/-- The members of an archive in order. A fault ends them. -/
def members (a : Archive) : List (Except ArchiveError ArchiveMember) :=
  membersFrom a.thin a.names a.rest.length a.rest

end Archive

end ConstPromotion
