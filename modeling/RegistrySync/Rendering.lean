import RegistrySync.CommandLine
import RegistrySync.DesiredState
import RegistrySync.Synchronizer

/-!
Rendering: the objects of a file are handed to a new synchronizer, and the pass for the last of
their changes has to complete.
-/

namespace RegistrySync.Rendering

inductive Failure where
  | unreadable (input : Path) (cause : FileTree.Failure)
  | unparsable (input : Path)
  | refused (cause : DesiredState.Refusal)
  | nothingToRender (input : Path)
  | pass (cause : Pass.Failure)
  | writerStopped
  deriving DecidableEq, Repr

def Failure.chain : Failure → List String
  | unreadable input cause => ["Failed to read " ++ input.text, cause.message]
  | unparsable input => ["Failed to parse desired state in " ++ input.text]
  | refused (.image cause) => ["Failed to apply image registry sources", cause.message]
  | refused (.certificates cause) => ["Failed to apply registry certificates", cause.message]
  | nothingToRender input => [input.text ++ " contains no registry configuration"]
  | pass cause =>
    ["Rendering failed at " ++ cause.stage.name ++ " stage: " ++ cause.failure.message]
  | writerStopped => [SinkError.writerStopped.message]

def load (input : Path) (content : Except FileTree.Failure ByteArray) :
    Except Failure DesiredState :=
  match content with
  | .error cause => .error (.unreadable input cause)
  | .ok bytes =>
    match String.fromUTF8? bytes with
    | none => .error (.unreadable input .notText)
    | some text =>
      match DesiredState.ofYaml? text with
      | some state => .ok state
      | none => .error (.unparsable input)

def heading (input : Path) : List String :=
  ["Sysconfig Renderer", "==================", "Input: " ++ input.text, ""]

def conclusion (d : Destinations) (s : Pass.Summary) : List String :=
  [d.registriesConf, d.policyJson, d.certsDir].map ("✓ " ++ ·.text) ++
    ["", toString s.registries ++ " registries, " ++ toString s.rejected ++ " rejected, " ++
      toString s.certificates ++ " certificates"]

def conclude (input : Path) (fed : Except DesiredState.Refusal Nat) (s : Synchronizer) :
    Except Failure Pass.Summary :=
  match fed with
  | .error cause => .error (.refused cause)
  | .ok count =>
    if count = 0 then .error (.nothingToRender input)
    else match s.await count with
      | .report r => r.outcome.mapError .pass
      | _ => .error .writerStopped

def destinations (r : CommandLine.Rendering) : Destinations :=
  Destinations.standard.override r.overrides

structure Outcome where
  lines : List String
  result : Except Failure Unit
  tree : FileTree

def run (r : CommandLine.Rendering) (tree : FileTree) : Outcome :=
  match load r.input (tree.read r.input) with
  | .error e => ⟨[], .error e, tree⟩
  | .ok state =>
    let (fed, s) := state.feed Synchronizer.sink (.start (destinations r) tree)
    match conclude r.input fed s with
    | .error e => ⟨heading r.input, .error e, s.tree⟩
    | .ok summary => ⟨heading r.input ++ conclusion s.destinations summary, .ok (), s.tree⟩

end RegistrySync.Rendering
