/-
Why the file system refuses, with the wording of each refusal.
-/

namespace Usages

inductive OsError where
  | notFound
  | notDirectory
  | isDirectory
  | tooManyLinks
  | nameTooLong
  | nulInName
  | permissionDenied
  | storageFull
  /-- The bytes of a file are no text. -/
  | notUtf8
  | other (message : String)
  deriving Repr, DecidableEq

def OsError.message : OsError → String
  | notFound => "No such file or directory (os error 2)"
  | notDirectory => "Not a directory (os error 20)"
  | isDirectory => "Is a directory (os error 21)"
  | tooManyLinks => "Too many levels of symbolic links (os error 40)"
  | nameTooLong => "File name too long (os error 36)"
  | nulInName => "file name contained an unexpected NUL byte"
  | permissionDenied => "Permission denied (os error 13)"
  | storageFull => "No space left on device (os error 28)"
  | notUtf8 => "stream did not contain valid UTF-8"
  | other message => message

end Usages
