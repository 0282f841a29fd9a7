import ConstPromotion.Shell.Parser
import ConstPromotion.Shell.Pattern
import ConstPromotion.Shell.Utilities

/-!
# Running scripts and programs

Words are expanded and commands run in order; a program that is neither built in nor a utility is
run from its file, which is a script or is refused. Calls are bounded by `fuel`, which bounds how
deep commands, substitutions and scripts may be nested.
-/

namespace ConstPromotion.Shell

/-! ### Fields -/

/-- What a word has been expanded to so far: whole fields, and the one that is still open. -/
structure FieldList where
  done : List String := []
  open? : Option String := none

namespace FieldList

/-- Adds text to the open field. -/
def add (f : FieldList) (s : String) : FieldList := { f with open? := some (f.open?.getD "" ++ s) }

/-- Closes the open field. -/
def close (f : FieldList) : FieldList := ⟨f.done ++ f.open?.toList, none⟩

/-- Adds fields of their own, of which the first and last join what is beside them. -/
def addAll (f : FieldList) : List String → FieldList
  | [] => f
  | [s] => f.add s
  | s :: rest => addAll (f.add s).close rest

/-- Whether a character separates fields. -/
def isSeparator (c : Char) : Bool := c == ' ' || c == '\t' || c == '\n'

/-- Adds a value, cutting it at spaces and line ends. -/
def split (f : FieldList) (s : String) : FieldList :=
  let text := s.toList
  let pieces := (text.splitOnP isSeparator).filter (· ≠ [])
  let f := if text.head?.any isSeparator then f.close else f
  let f := f.addAll (pieces.map String.ofList)
  if pieces ≠ [] ∧ text.getLast?.any isSeparator then f.close else f

/-- All fields. -/
def toList (f : FieldList) : List String := f.close.done

end FieldList

/-- The value of a parameter, none if it is not set. -/
def paramValue (s : State) (name : String) : Option String :=
  match name with
  | "#" => some (toString s.arguments.length)
  | "?" => some (toString s.status)
  | "$" => some processNumber
  | "0" => some s.name
  | "@" | "*" => some (" ".intercalate s.arguments)
  | _ =>
    match Decimal.parse? Decimal.word32 name.toList with
    | some n => s.arguments[n - 1]?
    | none => s.vars.get? name

/-- A line of complaint about a command of the script. -/
def complainAt (linesAfter : Nat) (s : String) : Run Unit := do
  let state ← get
  complain (state.name ++ ": " ++ toString (state.lines - linesAfter) ++ ": " ++ s)

/-- Opens the target of a redirection. -/
def openSink (linesAfter : Nat) (append : Bool) (target : String) : Run (Option Sink) := do
  if target = "/dev/null" then return some .nowhere
  let p := Path.ofString target
  let s ← get
  let opened : Except OsError (FileSystem × Location) := do
    let kept := if append then ((s.world.fs.read p).toOption).getD [] else []
    let fs ← s.world.fs.write p kept
    let (l, _) ← fs.find p
    return (fs, l)
  match opened with
  | .ok (fs, l) =>
    set { s with world := { s.world with fs } }
    return some (.file l)
  | .error e =>
    let reason := if e = .notFound then "Directory nonexistent" else e.description
    complainAt linesAfter ("cannot create " ++ target ++ ": " ++ reason)
    return none

/-- Lets a stream go somewhere, if that could be opened. -/
def setSink (stream : Nat) (sink : Option Sink) : Run Bool := do
  match sink with
  | none => return false
  | some sink =>
    modify fun s =>
      if stream = 1 then { s with out := sink }
      else if stream = 2 then { s with err := sink }
      else s
    return true

/-- Takes the input from a file, and tells whether it could be opened. -/
def openInput (linesAfter : Nat) (target : String) : Run Bool := do
  let s ← get
  match if target = "/dev/null" then .ok [] else s.world.fs.read (.ofString target) with
  | .ok input =>
    set { s with input }
    return true
  | .error e =>
    let reason := if e = .notFound then "No such file" else e.description
    complainAt linesAfter ("cannot open " ++ target ++ ": " ++ reason)
    return false

/-- The status of a command whose program cannot be started, with what is said of it. -/
def startFailure (e : OsError) : Nat × String :=
  match e with
  | .notFound | .notDirectory => (127, "not found")
  | .tooManyLinks | .nameTooLong => (127, e.description)
  | _ => (126, e.description)

mutual

/-- Expands the parts of a word; `cut` says whether values are cut into fields. -/
def expandParts (cut : Bool) : (fuel : Nat) → FieldList → List Part → Run FieldList
  | 0, f, _ => return f
  | _ + 1, f, [] => return f
  | fuel + 1, f, part :: parts => do
    let f ← match part with
      | .text s => pure (f.add (String.ofList s))
      | .quoted [.param "@" .value []] => pure (f.addAll (← get).arguments)
      | .quoted inner => pure (f.add (" ".intercalate (← expandParts false fuel {} inner).toList))
      | .param name op argument =>
        let value ← expandParam fuel name op argument
        pure (if cut then f.split value else f.add value)
      | .output body =>
        let value ← captureOutput fuel body
        pure (if cut then f.split value else f.add value)
    expandParts cut fuel f parts

/-- Expands a word to one text. -/
def expandText : (fuel : Nat) → List Part → Run String
  | 0, _ => return ""
  | fuel + 1, parts => do
    return " ".intercalate (← expandParts false fuel {} parts).toList

/-- Expands words to fields. -/
def expandWords : (fuel : Nat) → List (List Part) → Run (List String)
  | 0, _ => return []
  | _ + 1, [] => return []
  | fuel + 1, word :: words => do
    let fields ← expandParts true fuel {} word
    return fields.toList ++ (← expandWords fuel words)

/-- The text that a parameter expands to. -/
def expandParam : (fuel : Nat) → String → ParamOp → List Part → Run String
  | 0, _, _, _ => return ""
  | fuel + 1, name, op, argument => do
    let value := paramValue (← get) name
    let text := value.getD ""
    match op with
    | .value => return text
    | .length => return toString text.length
    | .default orEmpty =>
      if value.isNone ∨ (orEmpty ∧ text = "") then expandText fuel argument else return text
    | .assign orEmpty =>
      if value.isNone ∨ (orEmpty ∧ text = "") then
        let text ← expandText fuel argument
        assign name text
        return text
      else return text
    | .alternative orEmpty =>
      if value.isNone ∨ (orEmpty ∧ text = "") then return "" else expandText fuel argument
    | .dropStart longest =>
      let pattern ← expandText fuel argument
      return String.ofList (dropStart pattern.toList text.toList longest)
    | .dropEnd longest =>
      let pattern ← expandText fuel argument
      return String.ofList (dropEnd pattern.toList text.toList longest)

/-- The output of commands, without the line ends it ends in. -/
def captureOutput : (fuel : Nat) → List Command → Run String
  | 0, _ => return ""
  | fuel + 1, body => do
    let output ← capturing (runAll fuel body)
    return String.ofList (((Utf8.decodeLossy output).reverse.dropWhile (· = '\n')).reverse)

/-- Redirects streams, and tells whether all targets could be opened. -/
def redirect (linesAfter : Nat) : (fuel : Nat) → List Redirect → Run Bool
  | 0, _ => return true
  | _ + 1, [] => return true
  | fuel + 1, .mk stream kind target :: rest => do
    let target ← expandText fuel target
    let s ← get
    let done ← match kind with
      | .duplicate => setSink stream (if target = "2" then some s.err else some s.out)
      | .write => setSink stream (← openSink linesAfter false target)
      | .append => setSink stream (← openSink linesAfter true target)
      | .read => openInput linesAfter target
      | .here => do
        set { s with input := bytesOf target }
        pure true
    if done then redirect linesAfter fuel rest else return false

/-- Runs something with streams redirected, unless a target cannot be opened. -/
def redirected (linesAfter : Nat) : (fuel : Nat) → List Redirect → Run Unit → Run Unit
  | 0, _, _ => return ()
  | fuel + 1, redirects, body => do
    let saved := (← get).toStreams
    if ← redirect linesAfter fuel redirects then body
    else modify fun s => { s with status := 2 }
    modify fun s =>
      let input := if redirects.isEmpty then s.input else saved.input
      { s with toStreams := { saved with input } }

/-- Runs a simple command of the given fields. -/
def runFields (linesAfter : Nat) : (fuel : Nat) → List String → Run Nat
  | 0, _ => return 126
  | _ + 1, [] => return (← get).status
  | fuel + 1, name :: arguments => do
    match builtin? name with
    | some act => act arguments
    | none =>
      let s ← get
      match s.world.shellImage name arguments with
      | .error e =>
        let (status, problem) := startFailure e
        complainAt linesAfter (name ++ ": " ++ problem)
        return status
      | .ok image =>
        let dir := s.world.fs.workingDir
        let (ended, world) := (execute fuel s.toStreams image).run s.world
        set { s with world := { world with fs := { world.fs with workingDir := dir } } }
        return ended.code

/-- Runs a command. -/
def runCommand : (fuel : Nat) → Command → Run Unit
  | 0, _ => return ()
  | fuel + 1, command => do
    match command with
    | .simple assignments words redirects linesAfter =>
      modify fun s => if words.isEmpty then { s with status := 0 } else s
      let fields ← expandWords fuel words
      let env := (← get).world.env
      for (name, value) in assignments do
        let value ← expandText fuel value
        if fields = [] then assign name value
        else onWorld fun w => { w with env := w.env.insert name value }
      match fields with
      | ["exec"] => if !(← redirect linesAfter fuel redirects) then throw (.exited 2)
      | "exec" :: fields =>
        redirected linesAfter fuel redirects do
          throw (.exited (← runFields linesAfter fuel fields))
      | fields =>
        redirected linesAfter fuel redirects do
          let status ← runFields linesAfter fuel fields
          modify fun s => { s with status }
        if fields ≠ [] ∧ !assignments.isEmpty then onWorld fun w => { w with env }
      checkFailure
    | .both first second =>
      asCondition (runCommand fuel first)
      if (← get).status = 0 then runCommand fuel second
    | .either first second =>
      asCondition (runCommand fuel first)
      if (← get).status ≠ 0 then runCommand fuel second
    | .negated inner =>
      asCondition (runCommand fuel inner)
      modify fun s => { s with status := if s.status = 0 then 1 else 0 }
    | .pipe first second =>
      let output ← capturing (runCommand fuel first)
      let input := (← get).input
      modify fun s => { s with input := output }
      inSubshell (runCommand fuel second)
      modify fun s => { s with input }
      checkFailure
    | .conditional clauses otherwise redirects =>
      redirected 0 fuel redirects (runClauses fuel clauses otherwise)
    | .choice word clauses redirects =>
      redirected 0 fuel redirects do
        let text ← expandText fuel word
        runChoice fuel text.toList clauses
    | .whileLoop holds condition body redirects =>
      redirected 0 fuel redirects do
        modify fun s => { s with status := 0 }
        runWhile fuel holds condition body
    | .loop name words body redirects =>
      redirected 0 fuel redirects do
        let values ← match words with
          | some words => expandWords fuel words
          | none => pure (← get).arguments
        modify fun s => { s with status := 0 }
        for value in values do
          assign name value
          runAll fuel body
    | .group body redirects => redirected 0 fuel redirects (runAll fuel body)
    | .subshell body redirects =>
      redirected 0 fuel redirects (inSubshell (runAll fuel body))
      checkFailure

/-- Runs the first clause whose condition holds. -/
def runClauses : (fuel : Nat) → List (List Command × List Command) → List Command → Run Unit
  | 0, _, _ => return ()
  | fuel + 1, [], otherwise => do
    modify fun s => { s with status := 0 }
    runAll fuel otherwise
  | fuel + 1, (condition, body) :: clauses, otherwise => do
    asCondition (runAll fuel condition)
    if (← get).status = 0 then runAll fuel body else runClauses fuel clauses otherwise

/-- Runs the first clause with a pattern that matches a text. -/
def runChoice : (fuel : Nat) → (text : List Char) → List (List (List Part) × List Command) →
    Run Unit
  | 0, _, _ => return ()
  | _ + 1, _, [] => modify fun s => { s with status := 0 }
  | fuel + 1, text, (patterns, body) :: clauses => do
    let patterns ← patterns.mapM (expandText fuel)
    if patterns.any fun pattern => isMatch pattern.toList text then
      modify fun s => { s with status := 0 }
      runAll fuel body
    else runChoice fuel text clauses

/-- Runs a loop as long as its condition holds, or does not hold. Its status is that of its body. -/
def runWhile : (fuel : Nat) → (holds : Bool) → (condition body : List Command) → Run Unit
  | 0, _, _, _ => return ()
  | fuel + 1, holds, condition, body => do
    let status := (← get).status
    asCondition (runAll fuel condition)
    if ((← get).status = 0) = holds then
      runAll fuel body
      runWhile fuel holds condition body
    else modify fun s => { s with status }

/-- Runs commands in order. -/
def runAll : (fuel : Nat) → List Command → Run Unit
  | 0, _ => return ()
  | _ + 1, [] => return ()
  | fuel + 1, command :: commands => do
    runCommand fuel command
    runAll fuel commands

/-- Runs the text of a script. -/
def runScript : (fuel : Nat) → (stopsAtFailure : Bool) → (name : String) → List String → Streams →
    List Char → StateM World ExitStatus
  | 0, _, _, _, _, _ => return .exited 126
  | fuel + 1, stopsAtFailure, name, arguments, streams, text => fun world =>
    match parse? text with
    | none => (.exited 2, world.write streams.err (bytesOf (name ++ ": Syntax error\n")))
    | some commands =>
      let lines := text.count '\n' + 1
      let start : State :=
        { toStreams := streams, world, name, arguments, vars := world.env, lines, stopsAtFailure }
      let (result, s) := (runAll fuel commands).run.run start
      match result with
      | .ok () => (.exited s.status, s.world)
      | .error ended => (ended, s.world)

/-- Runs a shell on the text or the file that its arguments name. -/
def runShell : (fuel : Nat) → Streams → (arguments : List String) → StateM World ExitStatus
  | 0, _, _ => return .exited 126
  | fuel + 1, streams, arguments => do
    let (flags, operands) := options arguments
    let stopsAtFailure := flags.contains 'e'
    match operands with
    | [] => return .exited (if flags.contains 'c' then 2 else 0)
    | operand :: rest =>
      if flags.contains 'c' then
        runScript fuel stopsAtFailure (rest.head?.getD "sh") (rest.drop 1) streams operand.toList
      else
        match (← get).fs.read (.ofString operand) with
        | .ok text => runScript fuel stopsAtFailure operand rest streams (Utf8.decodeLossy text)
        | .error _ =>
          let problem := "sh: 0: cannot open " ++ operand ++ ": No such file\n"
          modify (·.write streams.err (bytesOf problem))
          return .exited 2

/-- Runs the program that is named after assignments of variables, which only it sees. -/
def runWithVariables : (fuel : Nat) → Streams → (arguments : List String) →
    StateM World ExitStatus
  | 0, _, _ => return .exited 126
  | fuel + 1, streams, arguments => do
    let world ← get
    let isAssignment (a : String) : Bool := a.toList.contains '='
    let env := (arguments.takeWhile isAssignment).foldl (fun env a =>
      env.insert (String.ofList (a.toList.takeWhile (· ≠ '=')))
        (String.ofList ((a.toList.dropWhile (· ≠ '=')).drop 1))) world.env
    match arguments.dropWhile isAssignment with
    | [] =>
      let shown := env.entries.flatMap fun (name, value) => bytesOf (name ++ "=" ++ value ++ "\n")
      modify (·.write streams.out shown)
      return .exited 0
    | name :: rest =>
      let started : World := { world with env }
      match started.shellImage name rest with
      | .error e =>
        let problem := "env: '" ++ name ++ "': " ++ e.description ++ "\n"
        modify (·.write streams.err (bytesOf problem))
        return .exited (if e = .notFound then 127 else 126)
      | .ok image =>
        let (ended, after) := (execute fuel streams image).run started
        set { after with env := world.env }
        return ended

/-- Runs a utility. -/
def execute : (fuel : Nat) → Streams → Image → StateM World ExitStatus
  | 0, _, _ => return .exited 126
  | fuel + 1, streams, image => do
    let world ← get
    match image.utility, image.arguments with
    | "sh", arguments | "dash", arguments | "bash", arguments => runShell fuel streams arguments
    | "env", arguments => runWithVariables fuel streams arguments
    | name, arguments =>
      match utility? name with
      | none => return .exited 126
      | some act =>
        let start : State := { toStreams := streams, world, name, arguments, vars := world.env }
        let (result, s) := (act arguments).run.run start
        set s.world
        match result with
        | .ok status => return .exited status
        | .error ended => return ended

end

end ConstPromotion.Shell
