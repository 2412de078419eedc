/-!
# Input and output errors

Why the operating system, or the reader of a text file, refused a request.
-/

namespace Provision

/-- Why a file, directory or program could not be used. -/
inductive IoError where
  | notFound
  | permissionDenied
  | alreadyExists
  | notADirectory
  | isADirectory
  | brokenPipe
  | nameTooLong
  | tooManyLinks
  | notText
  | nulInName
  | unsupported
  | other (text : String)
deriving DecidableEq, Inhabited, Repr

namespace IoError

/-- The number the operating system gives the error, when it has one. -/
def code? : IoError → Option Nat
  | notFound => some 2
  | permissionDenied => some 13
  | alreadyExists => some 17
  | notADirectory => some 20
  | isADirectory => some 21
  | brokenPipe => some 32
  | nameTooLong => some 36
  | tooManyLinks => some 40
  | unsupported => some 95
  | notText | nulInName | other _ => none

/-- The error in words, without its number. -/
def words : IoError → String
  | notFound => "No such file or directory"
  | permissionDenied => "Permission denied"
  | alreadyExists => "File exists"
  | notADirectory => "Not a directory"
  | isADirectory => "Is a directory"
  | brokenPipe => "Broken pipe"
  | nameTooLong => "File name too long"
  | tooManyLinks => "Too many levels of symbolic links"
  | notText => "stream did not contain valid UTF-8"
  | nulInName => "file name contained an unexpected NUL byte"
  | unsupported => "Operation not supported"
  | other text => text

/-- The error as it is shown: its words, and its number in brackets. -/
def message (e : IoError) : String :=
  match e.code? with
  | some n => e.words ++ " (os error " ++ toString n ++ ")"
  | none => e.words

end IoError

end Provision
