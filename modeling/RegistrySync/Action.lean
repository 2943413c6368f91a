import RegistrySync.FileTree.Operations

/-!
Actions on files, and their failures. An action fails at the path it is about.
-/

namespace RegistrySync

inductive Action where
  | makeDirectories (path : Path)
  | write (path : Path) (content : String)
  | removeTree (path : Path)
  deriving DecidableEq, Repr

structure IoFailure where
  path : Path
  cause : FileTree.Failure
  deriving DecidableEq, Repr

def IoFailure.message (f : IoFailure) : String :=
  "File I/O error at " ++ f.path.text ++ ": " ++ f.cause.message

namespace Action

def path : Action → Path
  | makeDirectories p | write p _ | removeTree p => p

def perform (t : FileTree) : Action → Except FileTree.Failure Unit × FileTree
  | makeDirectories p => t.makeDirectories p
  | write p content =>
    match t.write p content.toUTF8 with
    | .ok t => (.ok (), t)
    | .error e => (.error e, t)
  | removeTree p => t.removeTree p

def run (a : Action) (t : FileTree) : Except IoFailure Unit × FileTree :=
  match a.perform t with
  | (.ok (), t) => (.ok (), t)
  | (.error e, t) => (.error ⟨a.path, e⟩, t)

/-- Runs actions up to the first that fails. -/
def runAll : List Action → FileTree → Except IoFailure Unit × FileTree
  | [], t => (.ok (), t)
  | a :: rest, t =>
    match a.run t with
    | (.ok (), t) => runAll rest t
    | failed => failed

def writing (path : Path) (content : String) : List Action :=
  (path.parent?.map makeDirectories).toList ++ [write path content]

end Action
end RegistrySync
