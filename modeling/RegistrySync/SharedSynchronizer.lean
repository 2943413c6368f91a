import RegistrySync.Synchronizer

/-!
The synchronizer that all of a program shares. It comes into being when it is first asked for, with
destinations from the environment of that time, and needs something that runs its writer.
-/

namespace RegistrySync

inductive SharedError where
  | noRuntime
  deriving DecidableEq, Repr

def SharedError.message : SharedError → String
  | noRuntime => "No Tokio runtime available to start the persistence writer"

abbrev SharedSynchronizer := Option Synchronizer

namespace SharedSynchronizer

/-- Asks for the shared synchronizer, with or without something that could run its writer. -/
def obtain (hasRuntime : Bool) (environment : String → Option String)
    (tree : FileTree) : SharedSynchronizer → Except SharedError Synchronizer
  | some s => .ok s
  | none =>
    if hasRuntime then .ok (.start (.ofEnvironment environment) tree) else .error .noRuntime

end SharedSynchronizer
end RegistrySync
