import ConstPromotion.Shell.SectionListing
import ConstPromotion.Text.Blank
import ConstPromotion.Text.Decimal

/-!
# Utilities and built-in commands

What the commands do that scripts of builds use most: printing, testing, and making, copying and
removing files. Each one gives its status.
-/

namespace ConstPromotion.Shell

/-- The number of the process of every script. -/
def processNumber : String := "4242"

/-- Parts the options from the arguments. -/
def options (arguments : List String) : List Char × List String :=
  let isOption (a : String) : Bool := a.toList.head? = some '-' && a ≠ "-" && a ≠ "--"
  ((arguments.takeWhile isOption).flatMap fun a => a.toList.drop 1,
    match arguments.dropWhile isOption with
    | "--" :: rest => rest
    | rest => rest)

/-! ### Printing -/

/-- The value of octal digits, three at most, and what follows them. -/
def octal (text : List Char) : Char × List Char :=
  let digits := (text.take 3).takeWhile fun c => '0' ≤ c ∧ c ≤ '7'
  (Char.ofNat (digits.foldl (fun n c => 8 * n + (c.toNat - '0'.toNat)) 0 % 256),
    text.drop digits.length)

/-- Resolves the escapes of a text, up to the one that ends the output; tells whether it was met. An
octal escape has a zero after its backslash, unless it is `bare`. -/
def unescape (bare : Bool) : (fuel : Nat) → List Char → List Char × Bool
  | 0, text => (text, false)
  | fuel + 1, text =>
    let go (c : Char) (rest : List Char) :=
      let (more, ended) := unescape bare fuel rest
      (c :: more, ended)
    match text with
    | [] => ([], false)
    | '\\' :: 'c' :: _ => ([], true)
    | '\\' :: 'a' :: rest => go '\x07' rest
    | '\\' :: 'b' :: rest => go '\x08' rest
    | '\\' :: 'f' :: rest => go '\x0c' rest
    | '\\' :: 'n' :: rest => go '\n' rest
    | '\\' :: 'r' :: rest => go '\r' rest
    | '\\' :: 't' :: rest => go '\t' rest
    | '\\' :: 'v' :: rest => go '\x0b' rest
    | '\\' :: '\\' :: rest => go '\\' rest
    | '\\' :: '0' :: rest =>
      let (c, rest) := octal rest
      go c rest
    | '\\' :: d :: rest =>
      if bare ∧ '1' ≤ d ∧ d ≤ '7' then
        let (c, rest) := octal (d :: rest)
        go c rest
      else go '\\' (d :: rest)
    | c :: rest => go c rest

/-- Prints its arguments with spaces between them. -/
def echo (arguments : List String) : Run Nat := do
  let (lineEnd, words) := match arguments with
    | "-n" :: rest => ("", rest)
    | words => ("\n", words)
  let text := (" ".intercalate words).toList
  let (text, ended) := unescape false (text.length + 1) text
  say (String.ofList text ++ if ended then "" else lineEnd)
  return 0

/-- Fills the places of a format; gives the arguments that are left. -/
def format : (fuel : Nat) → List Char → List String → List Char × List String
  | 0, _, arguments => ([], arguments)
  | fuel + 1, text, arguments =>
    let go (piece rest : List Char) (arguments : List String) :=
      let (more, left) := format fuel rest arguments
      (piece ++ more, left)
    match text with
    | [] => ([], arguments)
    | '%' :: '%' :: rest => go ['%'] rest arguments
    | '%' :: 's' :: rest => go ((arguments.head?.map String.toList).getD []) rest arguments.tail
    | '%' :: 'd' :: rest => go ((arguments.head?.map String.toList).getD ['0']) rest arguments.tail
    | c :: rest => go [c] rest arguments

/-- Prints a format as often as there are arguments for its places. -/
def printFormat (text : List Char) : (fuel : Nat) → List String → Run Unit
  | 0, _ => return ()
  | fuel + 1, arguments => do
    let (piece, left) := format (text.length + 1) text arguments
    say (String.ofList piece)
    if !left.isEmpty ∧ left.length < arguments.length then printFormat text fuel left

/-- Prints its arguments in a format. -/
def printf : List String → Run Nat
  | [] => return 2
  | text :: arguments => do
    let (text, _) := unescape true (text.length + 1) text.toList
    printFormat text (arguments.length + 1) arguments
    return 0

/-! ### Testing -/

/-- The number that a word writes. -/
def number? (s : String) : Option Int := s.toInt?

/-- Whether a condition on one word holds, none if there is no such condition. -/
def unaryCondition? (fs : FileSystem) (op s : String) : Option Bool :=
  let p := Path.ofString s
  match op with
  | "-n" => some (s ≠ "")
  | "-z" => some (s = "")
  | "-f" => some (fs.isFile p)
  | "-d" => some (fs.isDirectory p)
  | "-e" => some (fs.exists? p)
  | "-r" | "-w" => some (fs.exists? p)
  | "-x" => some (fs.isDirectory p || (fs.executable p).toOption.isSome)
  | "-s" => some (((fs.read p).toOption.map fun b => !b.isEmpty).getD (fs.isDirectory p))
  | _ => none

/-- Whether a condition on two words holds, none if there is no such condition. -/
def binaryCondition? (a op b : String) : Option Bool :=
  let compare (f : Int → Int → Bool) : Option Bool := do return f (← number? a) (← number? b)
  match op with
  | "=" => some (a = b)
  | "!=" => some (a ≠ b)
  | "-eq" => compare fun x y => x = y
  | "-ne" => compare fun x y => x ≠ y
  | "-lt" => compare fun x y => x < y
  | "-le" => compare fun x y => x ≤ y
  | "-gt" => compare fun x y => x > y
  | "-ge" => compare fun x y => x ≥ y
  | _ => none

/-- Whether a condition that is no combination holds, none if it is malformed. -/
def simpleCondition? (fs : FileSystem) : List String → Option Bool
  | [] => some false
  | [s] => some (s ≠ "")
  | [op, s] => if op = "!" then some (s = "") else unaryCondition? fs op s
  | [a, op, b] =>
    (binaryCondition? a op b).or
      (if a = "!" then (unaryCondition? fs op b).map (!·) else none)
  | "!" :: rest => (simpleCondition? fs rest).map (!·)
  | _ => none

/-- Whether a condition holds, none if it is malformed. Conditions joined by `-a` bind tighter than
those joined by `-o`. -/
def condition? (fs : FileSystem) (words : List String) : Option Bool :=
  if words.length ≤ 4 then simpleCondition? fs words
  else do
    let anyOf ← (words.splitOn "-o").mapM fun part => do
      return ((← (part.splitOn "-a").mapM (simpleCondition? fs)).all id)
    return anyOf.any id

/-- Tests a condition. -/
def test (arguments : List String) : Run Nat := do
  match condition? (← files) arguments with
  | some true => return 0
  | some false => return 1
  | none => return 2

/-! ### Files -/

/-- Does something with the contents of files, or with the input if none are named. -/
def withContents (problem : String → OsError → String) (act : Bytes → Run Unit)
    (arguments : List String) : Run Nat :=
  eachOf (if arguments = [] then ["-"] else arguments) fun a => do
    let s ← get
    let content := if a = "-" then .ok s.input
      else if a = "/dev/null" then .ok []
      else s.world.fs.read (.ofString a)
    match content with
    | .ok content =>
      act content
      return 0
    | .error e =>
      complain (problem a e)
      return 1

/-- Prints files. -/
def cat (arguments : List String) : Run Nat :=
  withContents (fun a e => "cat: " ++ a ++ ": " ++ e.description) put arguments

/-- The first lines of a content. -/
def firstLines (n : Nat) (content : Bytes) : Bytes :=
  let cut := content.splitOn 0x0A
  if cut.length ≤ n then content else (cut.take n).flatMap (· ++ [0x0A])

/-- Prints the first lines or bytes of files. -/
def head (arguments : List String) : Run Nat :=
  let problem (a : String) (e : OsError) :=
    "head: cannot open '" ++ a ++ "' for reading: " ++ e.description
  let count (s : String) : Nat := (Decimal.parse? Decimal.word32 s.toList).getD 10
  match arguments with
  | "-n" :: n :: rest => withContents problem (fun b => put (firstLines (count n) b)) rest
  | "-c" :: n :: rest => withContents problem (fun b => put (b.take (count n))) rest
  | rest => withContents problem (fun b => put (firstLines 10 b)) rest

/-- Prints the names of files and the entries of directories. -/
def ls (arguments : List String) : Run Nat := do
  let (_, arguments) := options arguments
  eachOf (if arguments = [] then ["."] else arguments) fun a => do
    let fs ← files
    match fs.find (.ofString a) with
    | .ok (l, .directory) =>
      let shown := (fs.childrenAt l).filter fun (name, _) => name.head? ≠ some '.'
      say (String.ofList (shown.flatMap fun (name, _) => name ++ ['\n']))
      return 0
    | .ok _ =>
      say (a ++ "\n")
      return 0
    | .error e =>
      complain ("ls: cannot access '" ++ a ++ "': " ++ e.description)
      return 2

/-- Makes a symbolic link. -/
def ln (arguments : List String) : Run Nat := do
  let (flags, arguments) := options arguments
  match arguments with
  | [target, link] =>
    if flags.contains 's' then
      if flags.contains 'f' then
        onWorld fun w => { w with fs := ((w.fs.removeTree (.ofString link)).toOption).getD w.fs }
      change ("ln: failed to create symbolic link '" ++ link ++ "'")
        (·.createLink target.toList (.ofString link))
    else return 1
  | _ => return 1

/-- Removes empty directories. -/
def rmdir (arguments : List String) : Run Nat :=
  eachOf arguments fun a =>
    change ("rmdir: failed to remove '" ++ a ++ "'") fun fs => do
      let entries ← fs.children (.ofString a)
      if entries.isEmpty then fs.removeTree (.ofString a) else .error .notEmpty

/-- The path at which a file lies when it is put to a target, into it if that is a directory. -/
def targetOf (fs : FileSystem) (source target : String) : Path :=
  let target := Path.ofString target
  if fs.isDirectory target then
    target.child ((Path.ofString source).fileName?.getD [])
  else target

/-- Copies a file. -/
def copyFile (source target : String) : Run Nat := do
  let fs ← files
  let p := Path.ofString source
  match fs.find p with
  | .error e =>
    complain ("cp: cannot stat '" ++ source ++ "': " ++ e.description)
    return 1
  | .ok (_, .file content executable) =>
    let place := targetOf fs source target
    let made := !fs.exists? place
    change ("cp: cannot create regular file '" ++ place.toString ++ "'") fun fs => do
      let fs ← fs.write place content
      if made then fs.setExecutable place executable else return fs
  | .ok _ =>
    complain ("cp: -r not specified; omitting directory '" ++ source ++ "'")
    return 1

/-- Copies files. -/
def cp (arguments : List String) : Run Nat := do
  let (_, arguments) := options arguments
  match arguments.getLast? with
  | some target => eachOf arguments.dropLast fun source => copyFile source target
  | none => return 1

/-- Makes directories. -/
def mkdir (arguments : List String) : Run Nat := do
  let (flags, arguments) := options arguments
  eachOf arguments fun a => do
    let subject := "mkdir: cannot create directory '" ++ a ++ "'"
    if flags.contains 'p' then
      let s ← get
      let (result, fs) := s.world.fs.createDirectories (.ofString a)
      set { s with world := { s.world with fs } }
      match result with
      | .ok () => return 0
      | .error e =>
        complain (subject ++ ": " ++ e.description)
        return 1
    else change subject (·.createDirectory (.ofString a))

/-- Removes files and, if it is told to, directories. -/
def rm (arguments : List String) : Run Nat := do
  let (flags, arguments) := options arguments
  eachOf arguments fun a => do
    let p := Path.ofString a
    match (← files).resolve .link p with
    | .ok (.found _ .directory) =>
      if flags.contains 'r' ∨ flags.contains 'R' then
        change ("rm: cannot remove '" ++ a ++ "'") (·.removeTree p)
      else
        complain ("rm: cannot remove '" ++ a ++ "': Is a directory")
        return 1
    | _ =>
      if flags.contains 'f' then
        onWorld fun w => { w with fs := ((w.fs.removeTree p).toOption).getD w.fs }
        return 0
      else change ("rm: cannot remove '" ++ a ++ "'") (·.removeTree p)

/-- Moves files. -/
def mv (arguments : List String) : Run Nat := do
  let (_, arguments) := options arguments
  match arguments.getLast? with
  | some target =>
    eachOf arguments.dropLast fun source =>
      change ("mv: cannot move '" ++ source ++ "'") fun fs => do
        let (_, node) ← fs.find (.ofString source)
        match node with
        | .file content executable =>
          let place := targetOf fs source target
          let fs ← fs.write place content
          let fs ← fs.setExecutable place executable
          fs.removeTree (.ofString source)
        | _ => .error .isDirectory
  | none => return 1

/-- Makes files that are missing. -/
def touch (arguments : List String) : Run Nat :=
  eachOf arguments fun a =>
    change ("touch: cannot touch '" ++ a ++ "'") fun fs =>
      if fs.exists? (.ofString a) then .ok fs else fs.write (.ofString a) []

/-- Lets files be executed or not. -/
def chmod : List String → Run Nat
  | [] => return 1
  | mode :: arguments =>
    let executable := ["+x", "a+x", "u+x", "755", "700", "0755"].contains mode
    eachOf arguments fun a =>
      change ("chmod: cannot access '" ++ a ++ "'") (·.setExecutable (.ofString a) executable)

/-- The utilities that are programs. -/
def utility? : String → Option (List String → Run Nat)
  | "true" | "sleep" => some fun _ => return 0
  | "false" => some fun _ => return 1
  | "echo" => some fun arguments => do
    match arguments with
    | "-n" :: words => say (" ".intercalate words)
    | words => say (" ".intercalate words ++ "\n")
    return 0
  | "printf" => some printf
  | "test" => some test
  | "head" => some head
  | "ls" => some ls
  | "ln" => some ln
  | "rmdir" => some rmdir
  | "cat" => some cat
  | "cp" => some cp
  | "mkdir" => some mkdir
  | "rm" => some rm
  | "mv" => some mv
  | "touch" => some touch
  | "chmod" => some chmod
  | "readelf" => some readelf
  | _ => none

/-! ### Built-in commands -/

/-- The signal that an option of `kill` names. -/
def signal? (option : String) : Option Nat :=
  let name := option.toList.drop 1
  match Decimal.parse? Decimal.word32 name with
  | some n => some n
  | none =>
    let name := if name.take 3 = "SIG".toList then name.drop 3 else name
    let index := ExitStatus.signalNames.idxOf (String.ofList name)
    if index < ExitStatus.signalNames.length then some (index + 1) else none

/-- Ends the script by a signal if it is the one that is meant. -/
def kill (arguments : List String) : Run Nat := do
  let (signal, targets) := match arguments with
    | "-s" :: name :: rest => (signal? ("-" ++ name), rest)
    | a :: rest => if a.toList.head? = some '-' then (signal? a, rest) else (some 15, a :: rest)
    | [] => (none, [])
  match signal with
  | some n =>
    if targets.contains processNumber ∧ n ≠ 0 then throw (.killed n)
    return 0
  | none => return 1

/-- Goes to a directory. -/
def cd (arguments : List String) : Run Nat := do
  let target := arguments.head?.getD "/"
  match (← files).find (.ofString target) with
  | .ok (l, .directory) =>
    onWorld fun w => { w with fs := { w.fs with workingDir := l } }
    return 0
  | _ =>
    complain ((← get).name ++ ": cd: can't cd to " ++ target)
    return 2

/-- Ends the script. -/
def exit (arguments : List String) : Run Nat := do
  match arguments with
  | [] => throw (.exited (← get).status)
  | a :: _ =>
    match Decimal.parse? Decimal.word32 a.toList with
    | some n => throw (.exited (n % 256))
    | none => throw (.exited 2)

/-- Takes variables over into the environment. -/
def export_ (arguments : List String) : Run Nat :=
  eachOf arguments fun a => do
    let name := String.ofList (a.toList.takeWhile (· ≠ '='))
    let given := (a.toList.dropWhile (· ≠ '=')).drop 1
    let s ← get
    let value := if a.toList.contains '=' then String.ofList given
      else (s.vars.get? name).getD ""
    set { s with
      vars := s.vars.insert name value
      world := { s.world with env := s.world.env.insert name value } }
    return 0

/-- Takes options and new arguments of the script. -/
def setOptions : List String → Run Nat
  | "--" :: arguments => do
    modify fun s => { s with arguments }
    return 0
  | a :: rest => do
    match a.toList with
    | '-' :: flags =>
      modify fun s => { s with stopsAtFailure := s.stopsAtFailure || flags.contains 'e' }
      if rest ≠ [] then setOptions rest else return 0
    | '+' :: flags =>
      modify fun s => { s with stopsAtFailure := s.stopsAtFailure && !flags.contains 'e' }
      if rest ≠ [] then setOptions rest else return 0
    | _ => do
      modify fun s => { s with arguments := a :: rest }
      return 0
  | [] => return 0

/-- Parts the first words from a line, the last name taking all that is left. -/
def shareOut : List String → List Char → List (String × String)
  | [], _ => []
  | [name], line => [(name, String.ofList (Text.trim line))]
  | name :: names, line =>
    let line := Text.trimStart line
    (name, String.ofList (line.takeWhile (!isBlank ·)))
      :: shareOut names (line.dropWhile (!isBlank ·))

/-- Reads a line of the input into variables. -/
def readLine (arguments : List String) : Run Nat := do
  let (_, names) := options arguments
  let s ← get
  let line := s.input.takeWhile (· ≠ 0x0A)
  let rest := s.input.drop line.length
  set { s with input := rest.drop 1 }
  for (name, value) in shareOut names (Utf8.decodeLossy line) do assign name value
  return if rest.isEmpty then 1 else 0

/-- The commands that the shell runs itself. -/
def builtin? : String → Option (List String → Run Nat)
  | "echo" => some echo
  | "printf" => some printf
  | ":" => some fun _ => return 0
  | "true" => some fun _ => return 0
  | "false" => some fun _ => return 1
  | "test" => some test
  | "[" => some fun arguments =>
    if arguments.getLast? = some "]" then test arguments.dropLast else return 2
  | "pwd" => some fun _ => do
    match (← files).currentDir with
    | .ok p =>
      say (p.toString ++ "\n")
      return 0
    | .error _ => return 1
  | "cd" => some cd
  | "exit" => some exit
  | "kill" => some kill
  | "export" => some export_
  | "shift" => some fun arguments => do
    let n := (arguments.head?.bind fun a => Decimal.parse? Decimal.word32 a.toList).getD 1
    modify fun s => { s with arguments := s.arguments.drop n }
    return 0
  | "set" => some setOptions
  | "read" => some readLine
  | "umask" => some fun _ => return 0
  | _ => none

end ConstPromotion.Shell
