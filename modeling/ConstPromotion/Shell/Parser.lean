import ConstPromotion.Shell.Syntax

/-!
# Parsing scripts

A script is taken apart from left to right, every function giving what it read and the text that is
left. The text of a here-document is cut out of the lines that follow its redirection. Every
function takes a bound on the number of calls; the length of the script, times a small constant, is
always enough.
-/

namespace ConstPromotion.Shell

/-- Characters that end a word unless they are quoted. -/
def isMeta (c : Char) : Bool := " \t\n;&|<>()".toList.contains c

/-- Characters of names. -/
def isNameChar (c : Char) : Bool := c.isAlphanum || c == '_'

/-- Parameters whose name is one sign. -/
def isSpecialParam (c : Char) : Bool := c.isDigit || "@*#?$".toList.contains c

/-- Drops spaces, comments and continued line ends before a token. -/
def skipSpace : List Char → (inComment : Bool) → List Char
  | [], _ => []
  | c :: rest, inComment =>
    if c = '\n' then c :: rest
    else if inComment then skipSpace rest true
    else if c = ' ' ∨ c = '\t' then skipSpace rest false
    else if c = '#' then skipSpace rest true
    else
      match c, rest with
      | '\\', '\n' :: after => skipSpace after false
      | _, _ => c :: rest

/-- Drops spaces, comments and line ends. -/
def skipLines : (fuel : Nat) → List Char → List Char
  | 0, text => text
  | fuel + 1, text =>
    match skipSpace text false with
    | '\n' :: rest => skipLines fuel rest
    | rest => rest

/-- A name at the start of a text. -/
def name? (text : List Char) : Option (String × List Char) :=
  match text.takeWhile isNameChar with
  | [] => none
  | c :: cs =>
    if c.isDigit then none else some (String.ofList (c :: cs), text.dropWhile isNameChar)

/-- A word that structures commands, if it stands here by itself. -/
def keyword? (word : String) (text : List Char) : Option (List Char) := do
  let rest ← word.toList.isPrefixOf? (skipSpace text false)
  match rest with
  | [] => some rest
  | c :: _ => if isMeta c then some rest else none

/-- The words that end a list of commands. -/
def closers : List String := ["then", "elif", "else", "fi", "do", "done", "esac", "\x7d"]

/-- Where the parts of a word end. -/
inductive WordEnd where
  | word
  | quote
  | brace
  /-- At the end of the text. -/
  | text
deriving DecidableEq

/-- Whether quotes stand for themselves. -/
def WordEnd.isQuoting (e : WordEnd) : Bool := e = .quote || e = .text

/-- What stands between backquotes, and what follows them. -/
def backquoted? : List Char → Option (List Char × List Char)
  | [] => none
  | '`' :: rest => some ([], rest)
  | '\\' :: c :: rest =>
    (backquoted? rest).map fun (inner, rest) =>
      (if "$`\\".toList.contains c then c :: inner else '\\' :: c :: inner, rest)
  | c :: rest => (backquoted? rest).map fun (inner, rest) => (c :: inner, rest)

/-- The lines up to the one that is a delimiter, and what follows it. -/
def hereLines (stripTabs : Bool) (delimiter : List Char) : List (List Char) →
    List (List Char) × List (List Char)
  | [] => ([], [])
  | line :: rest =>
    let line := if stripTabs then line.dropWhile (· = '\t') else line
    if line = delimiter then ([], rest)
    else
      let (body, rest) := hereLines stripTabs delimiter rest
      (line :: body, rest)

/-- The text of a here-document whose delimiter stands here, whether it is literal, and the text
that is left when it is cut out. -/
def hereText (text : List Char) : List Char × Bool × List Char :=
  let (stripTabs, text) := match text with
    | '-' :: rest => (true, rest)
    | _ => (false, text)
  let written := (skipSpace text false).takeWhile fun c => !isMeta c
  let isQuote (c : Char) : Bool := c == '\'' || c == '"' || c == '\\'
  let rest := (skipSpace text false).drop written.length
  let (body, after) :=
    hereLines stripTabs (written.filter (!isQuote ·))
      (((rest.dropWhile (· ≠ '\n')).drop 1).splitOn '\n')
  (body.flatMap (· ++ ['\n']), written.any isQuote,
    rest.takeWhile (· ≠ '\n') ++ '\n' :: ['\n'].intercalate after)

/-- The sign of an operation on a parameter. -/
def paramOp? : List Char → Option (ParamOp × List Char)
  | ':' :: '-' :: rest => some (.default true, rest)
  | ':' :: '=' :: rest => some (.assign true, rest)
  | '=' :: rest => some (.assign false, rest)
  | ':' :: '+' :: rest => some (.alternative true, rest)
  | '-' :: rest => some (.default false, rest)
  | '+' :: rest => some (.alternative false, rest)
  | '#' :: '#' :: rest => some (.dropStart true, rest)
  | '#' :: rest => some (.dropStart false, rest)
  | '%' :: '%' :: rest => some (.dropEnd true, rest)
  | '%' :: rest => some (.dropEnd false, rest)
  | _ => none

/-- The name of a parameter in braces. -/
def bracedName? (text : List Char) : Option (String × List Char) :=
  match text with
  | c :: rest =>
    if c.isDigit then
      some (String.ofList (text.takeWhile Char.isDigit), text.dropWhile Char.isDigit)
    else if isSpecialParam c then some (String.singleton c, rest)
    else name? text
  | [] => none

/-- The sign of a redirection, after the number of its stream if it is given. -/
def redirectKind? (text : List Char) : Option ((Nat × RedirectKind) × List Char) :=
  let digits := text.takeWhile Char.isDigit
  let stream (default : Nat) : Nat := match digits with
    | [d] => d.toNat - '0'.toNat
    | _ => default
  match text.drop digits.length with
  | '>' :: '>' :: rest => some ((stream 1, .append), rest)
  | '>' :: '&' :: rest => some ((stream 1, .duplicate), rest)
  | '>' :: rest => some ((stream 1, .write), rest)
  | '<' :: '<' :: rest => some ((stream 0, .here), rest)
  | '<' :: rest => some ((stream 0, .read), rest)
  | _ => none

mutual

/-- The parts of a word up to its end. -/
def parts? (ending : WordEnd) : (fuel : Nat) → List Char → Option ((List Part) × List Char)
  | 0, _ => none
  | fuel + 1, text =>
    let go (part : Part) (rest : List Char) : Option ((List Part) × List Char) :=
      (parts? ending fuel rest).map fun (parts, rest) => (part :: parts, rest)
    match text with
    | [] => if ending = .word ∨ ending = .text then some ([], []) else none
    | '\\' :: c :: rest =>
      if c = '\n' then parts? ending fuel rest
      else if ending.isQuoting ∧ !"$`\\".toList.contains c ∧ !(ending = .quote ∧ c = '"') then
        go (.text ['\\', c]) rest
      else go (.quoted [.text [c]]) rest
    | '$' :: rest => do
      let (part, rest) ← dollar? fuel rest
      go part rest
    | '`' :: rest => do
      let (inner, rest) ← backquoted? rest
      let (commands, left) ← commands? fuel inner
      if skipLines fuel left ≠ [] then none else go (.output commands) rest
    | c :: rest =>
      if ending = .quote ∧ c = '"' then some ([], rest)
      else if ending = .brace ∧ c = '\x7d' then some ([], rest)
      else if ending = .word ∧ isMeta c then some ([], c :: rest)
      else if !ending.isQuoting ∧ c = '"' then do
        let (inner, rest) ← parts? .quote fuel rest
        go (.quoted inner) rest
      else if !ending.isQuoting ∧ c = '\'' then
        match rest.dropWhile (· ≠ '\'') with
        | _ :: after => go (.quoted [.text (rest.takeWhile (· ≠ '\''))]) after
        | [] => none
      else go (.text [c]) rest

/-- What a dollar sign starts. -/
def dollar? : (fuel : Nat) → List Char → Option (Part × List Char)
  | 0, _ => none
  | fuel + 1, text =>
    match text with
    | '(' :: rest => do
      let (commands, rest) ← commands? fuel rest
      match skipLines fuel rest with
      | ')' :: rest => some (.output commands, rest)
      | _ => none
    | '\x7b' :: '#' :: rest => do
      match bracedName? rest with
      | some (name, '\x7d' :: rest) => some (.param name .length [], rest)
      | _ =>
        match rest with
        | '\x7d' :: rest => some (.param "#" .value [], rest)
        | _ => none
    | '\x7b' :: rest => do
      let (name, rest) ← bracedName? rest
      match rest with
      | '\x7d' :: rest => some (.param name .value [], rest)
      | _ =>
        let (op, rest) ← paramOp? rest
        let (argument, rest) ← parts? .brace fuel rest
        some (.param name op argument, rest)
    | c :: rest =>
      if isSpecialParam c then some (.param (String.singleton c) .value [], rest)
      else
        match name? text with
        | some (name, rest) => some (.param name .value [], rest)
        | none => some (.text ['$'], text)
    | [] => some (.text ['$'], [])

/-- A word before which spaces are dropped. -/
def word? : (fuel : Nat) → List Char → Option ((List Part) × List Char)
  | 0, _ => none
  | fuel + 1, text => do
    let (parts, rest) ← parts? .word fuel (skipSpace text false)
    if parts.isEmpty then none else some (parts, rest)

/-- Words up to the first thing that is none. -/
def words? : (fuel : Nat) → List Char → Option ((List (List Part)) × List Char)
  | 0, _ => none
  | fuel + 1, text =>
    match word? fuel text with
    | none => some ([], text)
    | some (word, rest) => (words? fuel rest).map fun (words, rest) => (word :: words, rest)

/-- The target of a redirection. -/
def target? (kind : RedirectKind) : (fuel : Nat) → List Char → Option ((List Part) × List Char)
  | 0, _ => none
  | fuel + 1, text =>
    if kind = .here then do
      let (body, literal, rest) := hereText text
      if literal then return ([.quoted [.text body]], rest)
      else
        let (parts, _) ← parts? .text fuel body
        return ([.quoted parts], rest)
    else word? fuel text

/-- Redirections up to the first thing that is none. -/
def redirects? : (fuel : Nat) → List Char → Option ((List Redirect) × List Char)
  | 0, _ => none
  | fuel + 1, text =>
    match redirectKind? (skipSpace text false) with
    | none => some ([], text)
    | some ((stream, kind), rest) => do
      let (target, rest) ← target? kind fuel rest
      let (others, rest) ← redirects? fuel rest
      return (.mk stream kind target :: others, rest)

/-- The assignments, words and redirections of a simple command. -/
def simple? (assignments : List (String × List Part)) (words : List (List Part))
    (redirects : List Redirect) : (fuel : Nat) → List Char → Option (Command × List Char)
  | 0, _ => none
  | fuel + 1, text =>
    let text := skipSpace text false
    match redirectKind? text with
    | some ((stream, kind), rest) => do
      let (target, rest) ← target? kind fuel rest
      simple? assignments words (redirects ++ [.mk stream kind target]) fuel rest
    | none =>
      match name? text, words with
      | some (name, '=' :: rest), [] => do
        let (value, rest) ← parts? .word fuel rest
        simple? (assignments ++ [(name, value)]) words redirects fuel rest
      | _, _ =>
        match word? fuel text with
        | some (word, rest) => simple? assignments (words ++ [word]) redirects fuel rest
        | none =>
          if assignments.isEmpty ∧ words.isEmpty ∧ redirects.isEmpty then none
          else some (.simple assignments words redirects (text.count '\n'), text)

/-- The clauses of a conditional after its first word. -/
def clauses? : (fuel : Nat) → List Char →
    Option ((List (List Command × List Command) × List Command) × List Char)
  | 0, _ => none
  | fuel + 1, text => do
    let (condition, rest) ← commands? fuel text
    let rest ← keyword? "then" rest
    let (body, rest) ← commands? fuel rest
    match keyword? "elif" rest, keyword? "else" rest with
    | some rest, _ =>
      let ((clauses, otherwise), rest) ← clauses? fuel rest
      return (((condition, body) :: clauses, otherwise), rest)
    | none, some rest =>
      let (otherwise, rest) ← commands? fuel rest
      return (([(condition, body)], otherwise), ← keyword? "fi" rest)
    | none, none => return (([(condition, body)], []), ← keyword? "fi" rest)

/-- A loop over words after its first word. -/
def loop? : (fuel : Nat) → List Char → Option (Command × List Char)
  | 0, _ => none
  | fuel + 1, text => do
    let (name, rest) ← name? (skipSpace text false)
    let (words, rest) ← match keyword? "in" rest with
      | some rest => (words? fuel rest).map fun (words, rest) => (some words, rest)
      | none => some (none, rest)
    let rest := match skipSpace rest false with
      | ';' :: rest => skipLines fuel rest
      | rest => skipLines fuel rest
    let rest ← keyword? "do" rest
    let (body, rest) ← commands? fuel rest
    let rest ← keyword? "done" rest
    let (redirects, rest) ← redirects? fuel rest
    return (.loop name words body redirects, rest)

/-- The loop that goes on while a condition holds, or does not hold, after its first word. -/
def whileLoop? (holds : Bool) : (fuel : Nat) → List Char → Option (Command × List Char)
  | 0, _ => none
  | fuel + 1, text => do
    let (condition, rest) ← commands? fuel text
    let rest ← keyword? "do" rest
    let (body, rest) ← commands? fuel rest
    let rest ← keyword? "done" rest
    let (redirects, rest) ← redirects? fuel rest
    return (.whileLoop holds condition body redirects, rest)

/-- The patterns of a clause up to their closing bracket. -/
def patterns? : (fuel : Nat) → List Char → Option ((List (List Part)) × List Char)
  | 0, _ => none
  | fuel + 1, text => do
    let (pattern, rest) ← word? fuel text
    match skipSpace rest false with
    | '|' :: rest => (patterns? fuel rest).map fun (others, rest) => (pattern :: others, rest)
    | ')' :: rest => some ([pattern], rest)
    | _ => none

/-- The clauses of a choice up to its last word. -/
def choices? : (fuel : Nat) → List Char →
    Option ((List (List (List Part) × List Command)) × List Char)
  | 0, _ => none
  | fuel + 1, text =>
    let text := skipLines fuel text
    match keyword? "esac" text with
    | some rest => some ([], rest)
    | none => do
      let (patterns, rest) ← patterns? fuel (match text with
        | '(' :: rest => rest
        | text => text)
      let (body, rest) ← commands? fuel rest
      let rest := match skipLines fuel rest with
        | ';' :: ';' :: rest => rest
        | rest => rest
      (choices? fuel rest).map fun (others, rest) => ((patterns, body) :: others, rest)

/-- A choice after its first word. -/
def choice? : (fuel : Nat) → List Char → Option (Command × List Char)
  | 0, _ => none
  | fuel + 1, text => do
    let (word, rest) ← word? fuel text
    let rest ← keyword? "in" (skipLines fuel rest)
    let (clauses, rest) ← choices? fuel rest
    let (redirects, rest) ← redirects? fuel rest
    return (.choice word clauses redirects, rest)

/-- A command that opens with a word, if this is one. -/
def opened? : (fuel : Nat) → List Char → Option (Option (Command × List Char))
  | 0, _ => none
  | fuel + 1, text =>
    let started (word : String) : Option (List Char) := keyword? word text
    match started "if", started "for", started "while", started "until", started "case" with
    | some rest, _, _, _, _ =>
      some (do
        let ((clauses, otherwise), rest) ← clauses? fuel rest
        let (redirects, rest) ← redirects? fuel rest
        return (.conditional clauses otherwise redirects, rest))
    | _, some rest, _, _, _ => some (loop? fuel rest)
    | _, _, some rest, _, _ => some (whileLoop? true fuel rest)
    | _, _, _, some rest, _ => some (whileLoop? false fuel rest)
    | _, _, _, _, some rest => some (choice? fuel rest)
    | none, none, none, none, none => none

/-- A command. -/
def command? : (fuel : Nat) → List Char → Option (Command × List Char)
  | 0, _ => none
  | fuel + 1, text =>
    match opened? fuel text, keyword? "\x7b" text, skipSpace text false with
    | some read, _, _ => read
    | none, some rest, _ => do
      let (body, rest) ← commands? fuel rest
      let rest ← keyword? "\x7d" rest
      let (redirects, rest) ← redirects? fuel rest
      return (.group body redirects, rest)
    | none, none, '(' :: rest => do
      let (body, rest) ← commands? fuel rest
      match skipLines fuel rest with
      | ')' :: rest =>
        let (redirects, rest) ← redirects? fuel rest
        return (.subshell body redirects, rest)
      | _ => none
    | none, none, _ =>
      if closers.any fun word => (keyword? word text).isSome then none
      else simple? [] [] [] fuel text

/-- What follows the first command of a pipeline. -/
def piped? (first : Command) : (fuel : Nat) → List Char → Option (Command × List Char)
  | 0, _ => none
  | fuel + 1, text =>
    match skipSpace text false with
    | '|' :: '|' :: rest => some (first, '|' :: '|' :: rest)
    | '|' :: rest => do
      let (second, rest) ← command? fuel (skipLines fuel rest)
      piped? (.pipe first second) fuel rest
    | rest => some (first, rest)

/-- A pipeline. -/
def pipeline? : (fuel : Nat) → List Char → Option (Command × List Char)
  | 0, _ => none
  | fuel + 1, text =>
    match keyword? "!" text with
    | some rest => (pipeline? fuel rest).map fun (c, rest) => (.negated c, rest)
    | none => do
      let (first, rest) ← command? fuel text
      piped? first fuel rest

/-- What follows a pipeline that others are joined to. -/
def joined? (first : Command) : (fuel : Nat) → List Char → Option (Command × List Char)
  | 0, _ => none
  | fuel + 1, text =>
    match skipSpace text false with
    | '&' :: '&' :: rest => do
      let (second, rest) ← pipeline? fuel (skipLines fuel rest)
      joined? (.both first second) fuel rest
    | '|' :: '|' :: rest => do
      let (second, rest) ← pipeline? fuel (skipLines fuel rest)
      joined? (.either first second) fuel rest
    | rest => some (first, rest)

/-- Commands up to the first thing that is none. -/
def commands? : (fuel : Nat) → List Char → Option ((List Command) × List Char)
  | 0, _ => none
  | fuel + 1, text =>
    let text := skipLines fuel text
    match pipeline? fuel text with
    | none => some ([], text)
    | some (first, rest) => do
      let (command, rest) ← joined? first fuel rest
      match skipSpace rest false with
      | ';' :: ';' :: rest => some ([command], ';' :: ';' :: rest)
      | ';' :: rest | '\n' :: rest =>
        (commands? fuel rest).map fun (others, rest) => (command :: others, rest)
      | rest => some ([command], rest)

end

/-- Reads a script, none if it is malformed. -/
def parse? (script : List Char) : Option (List Command) :=
  let fuel := 8 * script.length + 64
  match commands? fuel script with
  | some (commands, rest) => if (skipLines fuel rest).isEmpty then some commands else none
  | none => none

end ConstPromotion.Shell
