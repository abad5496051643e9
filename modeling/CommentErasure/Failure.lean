import CommentErasure.Text.Utf8

namespace CommentErasure

inductive Cause where
  | notFound
  | permissionDenied
  | alreadyExists
  | notADirectory
  | isADirectory
  | fileTooLarge
  | nameTooLong
  | linkLoop
  | nulByte
  | invalidUtf8
  | other (wording : Text)
  deriving DecidableEq, Repr

/-- The wording of a cause.  The first eight are the system's own, with its error number. -/
def Cause.text : Cause → Text
  | .notFound => "No such file or directory (os error 2)".toList
  | .permissionDenied => "Permission denied (os error 13)".toList
  | .alreadyExists => "File exists (os error 17)".toList
  | .notADirectory => "Not a directory (os error 20)".toList
  | .isADirectory => "Is a directory (os error 21)".toList
  | .fileTooLarge => "File too large (os error 27)".toList
  | .nameTooLong => "File name too long (os error 36)".toList
  | .linkLoop => "Too many levels of symbolic links (os error 40)".toList
  | .nulByte => "file name contained an unexpected NUL byte".toList
  | .invalidUtf8 => "stream did not contain valid UTF-8".toList
  | .other wording => wording

inductive Attempt where
  | read
  | write
  deriving DecidableEq, Repr

def Attempt.heading : Attempt → Text
  | .read => "Error reading file ".toList
  | .write => "Error writing to file ".toList

/-- A failed attempt at the file of a path, which is kept as it was given. -/
structure Failure where
  attempt : Attempt
  path : Bytes
  cause : Cause
  deriving DecidableEq, Repr

namespace Failure

def message (failure : Failure) : Text :=
  failure.attempt.heading ++ Utf8.decodeLossy failure.path ++ [':', ' '] ++ failure.cause.text

/-- The message and, after it, the wording of what lies behind the failure. -/
def chain (failure : Failure) : List Text :=
  [failure.message, failure.cause.text]

end Failure

end CommentErasure
