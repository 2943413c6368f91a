/-!
Failures of file operations and the system's text for them.
-/

namespace RegistrySync.FileTree

inductive Failure where
  | notFound
  | busy
  | alreadyExists
  | notDirectory
  | isDirectory
  | invalid
  | nameTooLong
  | notEmpty
  | tooManyLinks
  /-- A path with the character that ends a path for the system. -/
  | nulInPath
  /-- A text was wanted, and the file holds none. -/
  | notText
  /-- Whatever else a system may report. -/
  | other (text : String)
  deriving DecidableEq, Repr

namespace Failure

def system? : Failure → Option (Nat × String)
  | notFound => some (2, "No such file or directory")
  | busy => some (16, "Device or resource busy")
  | alreadyExists => some (17, "File exists")
  | notDirectory => some (20, "Not a directory")
  | isDirectory => some (21, "Is a directory")
  | invalid => some (22, "Invalid argument")
  | nameTooLong => some (36, "File name too long")
  | notEmpty => some (39, "Directory not empty")
  | tooManyLinks => some (40, "Too many levels of symbolic links")
  | nulInPath | notText | other _ => none

def numbered : List Failure :=
  [notFound, busy, alreadyExists, notDirectory, isDirectory, invalid, nameTooLong, notEmpty,
    tooManyLinks]

def message (f : Failure) : String :=
  match f.system?, f with
  | some (code, text), _ => text ++ " (os error " ++ toString code ++ ")"
  | none, notText => "stream did not contain valid UTF-8"
  | none, other text => text
  | none, _ => "file name contained an unexpected NUL byte"

end Failure
end RegistrySync.FileTree
