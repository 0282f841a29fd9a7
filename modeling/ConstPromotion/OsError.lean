/-!
# Errors of the operating system

Why an operation on files or programs failed, with the wording it is reported in.
-/

namespace ConstPromotion

/-- Why an operation on files or programs failed. -/
inductive OsError where
  | notFound
  | execFormat
  | permissionDenied
  | exists
  | notDirectory
  | isDirectory
  | nameTooLong
  | notEmpty
  | tooManyLinks
  /-- A file name holds a NUL. -/
  | nulInName
  /-- The name or an argument of a program holds a NUL. -/
  | nulInArgument
  /-- A file that is read as text is not in UTF-8. -/
  | notUtf8
deriving DecidableEq

namespace OsError

/-- The number of an error, for those that have one. -/
def code? : OsError → Option Nat
  | .notFound => some 2
  | .execFormat => some 8
  | .permissionDenied => some 13
  | .exists => some 17
  | .notDirectory => some 20
  | .isDirectory => some 21
  | .nameTooLong => some 36
  | .notEmpty => some 39
  | .tooManyLinks => some 40
  | .nulInName | .nulInArgument | .notUtf8 => none

/-- The description of an error. -/
def description : OsError → String
  | .notFound => "No such file or directory"
  | .execFormat => "Exec format error"
  | .permissionDenied => "Permission denied"
  | .exists => "File exists"
  | .notDirectory => "Not a directory"
  | .isDirectory => "Is a directory"
  | .nameTooLong => "File name too long"
  | .notEmpty => "Directory not empty"
  | .tooManyLinks => "Too many levels of symbolic links"
  | .nulInName => "file name contained an unexpected NUL byte"
  | .nulInArgument => "nul byte found in provided data"
  | .notUtf8 => "stream did not contain valid UTF-8"

/-- The wording of an error: its description, and its number if it has one. -/
def message (e : OsError) : String :=
  match e.code? with
  | some n => e.description ++ " (os error " ++ toString n ++ ")"
  | none => e.description

end OsError

end ConstPromotion
