/-!
# How programs end
-/

namespace ConstPromotion

/-- How a program ended. -/
inductive ExitStatus where
  | exited (code : Nat)
  | killed (signal : Nat)
deriving DecidableEq

namespace ExitStatus

/-- The names of signals, the first of which has the number one. -/
def signalNames : List String :=
  ["HUP", "INT", "QUIT", "ILL", "TRAP", "ABRT", "BUS", "FPE", "KILL", "USR1", "SEGV", "USR2",
    "PIPE", "ALRM", "TERM", "STKFLT", "CHLD", "CONT", "STOP", "TSTP", "TTIN", "TTOU", "URG",
    "XCPU", "XFSZ", "VTALRM", "PROF", "WINCH", "IO", "PWR", "SYS"]

/-- Whether a program ended well. -/
def isSuccess (s : ExitStatus) : Bool := s = .exited 0

/-- The wording of how a program ended. -/
def message : ExitStatus → String
  | .exited code => "exit status: " ++ toString code
  | .killed signal =>
    let name := match if signal = 0 then none else signalNames[signal - 1]? with
      | some name => " (SIG" ++ name ++ ")"
      | none => ""
    "signal: " ++ toString signal ++ name

/-- What a shell takes as the status of a command. -/
def code : ExitStatus → Nat
  | .exited code => code
  | .killed signal => 128 + signal

end ExitStatus

end ConstPromotion
