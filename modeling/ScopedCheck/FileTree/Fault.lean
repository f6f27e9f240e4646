/-! # Faults of the file system

Why the file system refuses an operation. -/

namespace ScopedCheck.FileTree

/-- Why the file system refuses an operation. -/
inductive Fault
  | notFound
  | permissionDenied
  | alreadyExists
  | notDirectory
  | isDirectory
  | tooManyLinks
  | nameTooLong
  | notExecutable
  /-- Bytes that are no text. -/
  | notText
  /-- A path with a zero byte. -/
  | zeroInPath
  /-- A program that is started with a zero byte in its path, its directory or an argument. -/
  | zeroInProgram
  deriving DecidableEq, Repr

namespace Fault

/-- The words for a fault, with its number. -/
def numbered (words : String) (number : Nat) : String :=
  words ++ " (os error " ++ toString number ++ ")"

/-- The fault in words. -/
def message : Fault → String
  | notFound => numbered "No such file or directory" 2
  | notExecutable => numbered "Exec format error" 8
  | permissionDenied => numbered "Permission denied" 13
  | alreadyExists => numbered "File exists" 17
  | notDirectory => numbered "Not a directory" 20
  | isDirectory => numbered "Is a directory" 21
  | nameTooLong => numbered "File name too long" 36
  | tooManyLinks => numbered "Too many levels of symbolic links" 40
  | notText => "stream did not contain valid UTF-8"
  | zeroInPath => "file name contained an unexpected NUL byte"
  | zeroInProgram => "nul byte found in provided data"

end Fault

end ScopedCheck.FileTree
