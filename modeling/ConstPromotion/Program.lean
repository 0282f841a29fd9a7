import ConstPromotion.Command.Arguments
import ConstPromotion.Command.Perform

/-!
# The program

The program performs one command, or tells its version. It ends with the status 0, with 1 if the
command failed, and with 2 if there was no command to be made out.
-/

namespace ConstPromotion

/-- How the program is called. -/
def usage : String :=
  "Usage: " ++ programName
    ++ " <run|patch|select|verify|restore|init-config|show-config> [OPTIONS]"

/-- Says how the program is called. -/
def refuse : Action CommandError Nat := do
  printErrorLine usage
  return 2

/-- Performs the command that the arguments spell. -/
def answerArguments : List String → Action CommandError Nat
  | [] => refuse
  | name :: arguments => do
    if asksVersion name then
      printLine (programName ++ " " ++ version)
      return 0
    match Command.ofArguments? (← envVar? verifyVariable) name arguments with
    | none => refuse
    | some command =>
      command.perform
      return 0

/-- Runs the program and gives the status that it ends with. -/
def program (arguments : List String) : StateM World Nat := do
  match ← (answerArguments arguments).run with
  | .ok status => return status
  | .error e => do
    let _ ← (printErrorLine e.report : Action Empty Unit).run
    return 1

end ConstPromotion
