/-!
# Shell scripts

The commands of a small POSIX shell: simple commands with redirections, pipelines, lists joined by
`&&` and `||`, conditionals, choices, loops, groups and subshells. A word is a row of parts, which
are expanded when the command runs.
-/

namespace ConstPromotion.Shell

/-- What is taken of the value of a parameter. -/
inductive ParamOp where
  | value
  | length
  /-- Another word where the parameter has no value or, with `orEmpty`, an empty one. -/
  | default (orEmpty : Bool)
  /-- Another word where the parameter has a value. -/
  | alternative (orEmpty : Bool)
  /-- Another word where the parameter has no value, which it then gets. -/
  | assign (orEmpty : Bool)
  /-- The value without the shortest or longest match of a pattern at its start. -/
  | dropStart (longest : Bool)
  /-- The value without the shortest or longest match of a pattern at its end. -/
  | dropEnd (longest : Bool)
deriving DecidableEq

/-- Where the output of a command goes, or its input comes from. -/
inductive RedirectKind where
  | write
  | append
  /-- Where another stream goes. -/
  | duplicate
  | read
  /-- The input is the target itself. -/
  | here
deriving DecidableEq

mutual

/-- A part of a word. -/
inductive Part where
  | text (chars : List Char)
  /-- Parts between double quotes. -/
  | quoted (parts : List Part)
  | param (name : String) (op : ParamOp) (argument : List Part)
  /-- The output of commands. -/
  | output (commands : List Command)

/-- A redirection of the stream with a number. -/
inductive Redirect where
  | mk (stream : Nat) (kind : RedirectKind) (target : List Part)

/-- A command. -/
inductive Command where
  /-- Assignments, words and redirections, and how many lines of the script follow. -/
  | simple (assignments : List (String × List Part)) (words : List (List Part))
      (redirects : List Redirect) (linesAfter : Nat)
  | both (first second : Command)
  | either (first second : Command)
  | negated (command : Command)
  /-- The output of the first command is the input of the second. -/
  | pipe (first second : Command)
  | conditional (clauses : List (List Command × List Command)) (otherwise : List Command)
      (redirects : List Redirect)
  /-- The body of the first clause with a pattern that matches a word. -/
  | choice (word : List Part) (clauses : List (List (List Part) × List Command))
      (redirects : List Redirect)
  /-- A loop for as long as a condition holds, or does not hold. -/
  | whileLoop (holds : Bool) (condition body : List Command) (redirects : List Redirect)
  /-- A loop over words, or over the arguments of the script. -/
  | loop (name : String) (words : Option (List (List Part))) (body : List Command)
      (redirects : List Redirect)
  | group (body : List Command) (redirects : List Redirect)
  /-- A group whose variables, directory and end are its own. -/
  | subshell (body : List Command) (redirects : List Redirect)

end

end ConstPromotion.Shell
