/-!
# File errors

Why a file or directory could not be read or made, and the sentence that reports it.
-/

namespace Arbor

/-- The ways in which a file operation fails. -/
inductive FileError where
  | notFound
  | isDirectory
  | notDirectory
  | alreadyExists
  | nameTooLong
  /-- The content is not UTF-8. -/
  | notText
  /-- A path holds the character U+0000. -/
  | nulInPath
  /-- Any other failure, in the words of the system. -/
  | other (text : String)
deriving DecidableEq

/-- The reported sentence. -/
def FileError.message : FileError → String
  | notFound => "No such file or directory (os error 2)"
  | isDirectory => "Is a directory (os error 21)"
  | notDirectory => "Not a directory (os error 20)"
  | alreadyExists => "File exists (os error 17)"
  | nameTooLong => "File name too long (os error 36)"
  | notText => "stream did not contain valid UTF-8"
  | nulInPath => "file name contained an unexpected NUL byte"
  | other text => text

end Arbor
