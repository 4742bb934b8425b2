import TaskStatus.Instant.Calendar
import TaskStatus.Path.Basic

/-!
# What is asked of a file system

The program asks three things of a file system: the names in a directory, what a path leads
to, and the content of a file. A `FileSystem` is the answers to all such requests at one
time, so what the program finds is a function of it.

A request may fail. `IoError` says why, and has the words for it; a failure that the system
reports carries its number.
-/

namespace TaskStatus

/-! ### Failures -/

/-- Why a request to the operating system failed. -/
inductive IoError where
  /-- A directory entry on the way does not exist. -/
  | notFound
  /-- A file cannot be got from where it is stored. -/
  | inputOutput
  /-- A file must not be opened. -/
  | permissionDenied
  /-- Something on the way, or the thing asked for, should be a directory and is none. -/
  | notADirectory
  /-- A directory cannot be read as a file. -/
  | isADirectory
  /-- Nothing can be stored any more. -/
  | noSpace
  /-- A path, or a name in it, is too long. -/
  | nameTooLong
  /-- The way leads through too many symbolic links. -/
  | tooManyLinks
  /-- A path holds a zero byte. -/
  | zeroByte
  /-- A file does not hold text. -/
  | notText
  /-- Another failure, in the words of the system. -/
  | other (description : String)
  deriving DecidableEq, Repr

/-- The words for a failure. -/
def IoError.message : IoError → String
  | .notFound => "No such file or directory (os error 2)"
  | .inputOutput => "Input/output error (os error 5)"
  | .permissionDenied => "Permission denied (os error 13)"
  | .notADirectory => "Not a directory (os error 20)"
  | .isADirectory => "Is a directory (os error 21)"
  | .noSpace => "No space left on device (os error 28)"
  | .nameTooLong => "File name too long (os error 36)"
  | .tooManyLinks => "Too many levels of symbolic links (os error 40)"
  | .zeroByte => "file name contained an unexpected NUL byte"
  | .notText => "stream did not contain valid UTF-8"
  | .other description => description

/-! ### Answers -/

/-- What a path leads to, as far as it matters here. -/
inductive Metadata where
  /-- A regular file and the time at which it was last modified. -/
  | file (modified : Instant)
  /-- A directory or a device. -/
  | other
  deriving DecidableEq, Repr

/-- The answers of a file system. -/
structure FileSystem where
  /-- The names in a directory. -/
  list : Path → Except IoError (List Name)
  /-- What a path leads to, through symbolic links. -/
  stat : Path → Except IoError Metadata
  /-- The content of a file, through symbolic links. -/
  read : Path → Except IoError Bytes

end TaskStatus
