/-!
What the collector sees of a file system: the outcome of reading a path as text, of listing a
directory, and whether a path leads anywhere. Everything that collects is a function of such a view,
so two file systems that answer alike are collected alike.
-/
namespace PlatformSnapshot.Files

/-- Why a path could not be read or listed. -/
inductive ReadFailure where
  | notFound
  | notADirectory
  | isADirectory
  | nameTooLong
  /-- The path holds a character that no file name can hold. -/
  | nameWithNul
  | notText
  | system (reason : String) (code : Nat)
  deriving DecidableEq, Repr

def ReadFailure.message : ReadFailure → String
  | .notFound => "No such file or directory (os error 2)"
  | .notADirectory => "Not a directory (os error 20)"
  | .isADirectory => "Is a directory (os error 21)"
  | .nameTooLong => "File name too long (os error 36)"
  | .nameWithNul => "file name contained an unexpected NUL byte"
  | .notText => "stream did not contain valid UTF-8"
  | .system reason code => s!"{reason} (os error {code})"

/-- An unchanging file system, given by its answers. -/
structure Access where
  read : String → Except ReadFailure String
  /-- The names of a directory's entries, in some order. A system hands them out one by one and can fail at
  any of them; here such a failure is one of the whole listing, told at the same path. All that is lost is
  which of two faults comes first, if one lies in an entry handed out before. -/
  list : String → Except ReadFailure (List String)
  has : String → Bool

end PlatformSnapshot.Files
