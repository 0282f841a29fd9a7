import ConstPromotion.Command.Basic

/-!
# Command lines

A command line is the name of a command and its options, each given at most once. A switch stands
alone; any other option has a value, after an equals sign or as the next argument. The next argument
is taken as a value only if it does not look like an option. A closing `--` says nothing.

Whether declarations are annotated and verified can also be said by an environment variable, which
counts where the switch is not given.
-/

namespace ConstPromotion

/-- Whether an option has a value. -/
inductive OptionKind where
  | switch
  | valued
deriving DecidableEq

/-- The options of a command with their kinds. -/
abbrev OptionTable := List (String × OptionKind)

/-- Options as they are given; a switch has no value. -/
abbrev GivenOptions := List (String × Option String)

namespace GivenOptions

/-- Whether a switch is given. -/
def has (given : GivenOptions) (name : String) : Bool := (given.lookup name).isSome

/-- The value that an option is given. -/
def value? (given : GivenOptions) (name : String) : Option String := (given.lookup name).join

end GivenOptions

/-- The name of a long option, and what stands after its equals sign. -/
def longOption? (argument : String) : Option (String × Option String) := do
  let text ← "--".toList.isPrefixOf? argument.toList
  let name := String.ofList (text.takeWhile (· ≠ '='))
  match text.dropWhile (· ≠ '=') with
  | [] => some (name, none)
  | _ :: value => some (name, some (String.ofList value))

/-- Whether an argument looks like an option. -/
def looksLikeOption (argument : String) : Bool :=
  argument.toList.head? = some '-' && argument ≠ "-"

/-- Reads the options that the arguments give. -/
def readOptions (table : OptionTable) : List String → Option GivenOptions
  | [] => some []
  | ["--"] => some []
  | argument :: rest => do
    let (name, attached) ← longOption? argument
    match ← table.lookup name, attached with
    | .switch, none => do return (name, none) :: (← readOptions table rest)
    | .switch, some _ => none
    | .valued, some value => do return (name, some value) :: (← readOptions table rest)
    | .valued, none =>
      match rest with
      | [] => none
      | value :: rest =>
        if looksLikeOption value then none
        else do return (name, some value) :: (← readOptions table rest)

/-- Reads options of which none is given twice. -/
def distinctOptions? (table : OptionTable) (arguments : List String) : Option GivenOptions := do
  let given ← readOptions table arguments
  if (given.map Prod.fst).Nodup then some given else none

/-- The answer that a text gives to a question of yes or no, upper and lower case letters of ASCII
being the same. -/
def yesOrNo? (text : String) : Option Bool :=
  let answer := String.ofList (text.toList.map Char.toLower)
  if answer ∈ ["y", "yes", "t", "true", "on", "1"] then some true
  else if answer ∈ ["n", "no", "f", "false", "off", "0"] then some false
  else none

/-- The variable that can say that declarations are annotated and verified. -/
def verifyVariable : String := "CONSTPATCH_VERIFY"

/-- Whether declarations are annotated and verified, given the value of the variable. -/
def verifyOption? (variableValue : Option String) (given : GivenOptions) : Option Bool :=
  if given.has "verify" then some true
  else match variableValue with
    | none => some false
    | some value => yesOrNo? value

/-- The options of the command with a name. -/
def optionTable? : String → Option OptionTable
  | "run" =>
    some [("root", .valued), ("verify", .switch), ("inspector", .valued), ("no-build", .switch),
      ("dry-run", .switch), ("json", .switch)]
  | "patch" =>
    some [("root", .valued), ("verify", .switch), ("dry-run", .switch), ("json", .switch)]
  | "select" | "restore" | "show-config" => some [("root", .valued), ("json", .switch)]
  | "verify" =>
    some [("root", .valued), ("archive", .valued), ("inspector", .valued), ("section", .valued),
      ("json", .switch)]
  | "init-config" => some [("root", .valued), ("force", .switch)]
  | _ => none

/-- The job of the command with a name. -/
def jobOf? (variableValue : Option String) (given : GivenOptions) : String → Option Job
  | "run" => do
    return .run {
      verify := ← verifyOption? variableValue given
      inspector := (given.value? "inspector").getD InspectorKind.builtin.name
      noBuild := given.has "no-build"
      dryRun := given.has "dry-run" }
  | "patch" => do
    return .patch (← verifyOption? variableValue given) (given.has "dry-run")
  | "select" => some .select
  | "verify" =>
    some (.verify {
      archive := given.value? "archive"
      inspector := (given.value? "inspector").getD InspectorKind.builtin.name
      sectionName := given.value? "section" })
  | "restore" => some .restore
  | "init-config" => some (.initConfig (given.has "force"))
  | "show-config" => some .showConfig
  | _ => none

/-- The command that a name and arguments spell. -/
def Command.ofArguments? (variableValue : Option String) (name : String)
    (arguments : List String) : Option Command := do
  let given ← distinctOptions? (← optionTable? name) arguments
  return {
    root := (given.value? "root").getD "."
    json := given.has "json"
    job := ← jobOf? variableValue given name }

/-- Whether an argument asks for the version. -/
def asksVersion (argument : String) : Bool :=
  argument = "--version" || ['-', 'V'].isPrefixOf argument.toList

end ConstPromotion
