import Std.Data.ExtTreeMap
import RegistrySync.Cluster.MirrorPolicy
import RegistrySync.Cluster.Watch

/-!
Keeping mirrors in step with image content source policies. Events carry new objects only, so the
last version of each policy is tracked to find out what an update replaces. A relist drops every
tracked policy that it did not return.
-/

namespace RegistrySync.Cluster

variable {m : Type → Type} [Monad m]

/-- Makes changes one after the other, and counts those that succeed. -/
def countAccepted (sink : Sink m) : List Change → m Nat
  | [] => return 0
  | change :: rest => do
    let result ← sink change
    let count ← countAccepted sink rest
    return if result.isOk then count + 1 else count

namespace MirrorPolicy

def settings (p : MirrorPolicy) : List Change :=
  p.sources.map fun s => .setMirrors s.source s.mirrors

def clearings (p : MirrorPolicy) : List Change :=
  p.sources.map fun s => .clearMirrors s.source

def add (sink : Sink m) (p : MirrorPolicy) : m Nat :=
  countAccepted sink p.settings

def delete (sink : Sink m) (p : MirrorPolicy) : m Nat :=
  countAccepted sink p.clearings

/-- Clears the sources of the old version before it sets those of the new one. -/
def update (sink : Sink m) (old new : MirrorPolicy) : m Nat := do
  let _ ← old.delete sink
  new.add sink

end MirrorPolicy

structure MirrorTracker where
  known : Std.ExtTreeMap String MirrorPolicy
  /-- The names that an open relist has returned so far. -/
  relisted : Option (List String)
  deriving DecidableEq

namespace MirrorTracker

def empty : MirrorTracker := ⟨∅, none⟩

def size (t : MirrorTracker) : Nat := t.known.size

/-- A policy with the sources of the tracked version makes no change. -/
def apply (sink : Sink m) (t : MirrorTracker) (p : MirrorPolicy) : m MirrorTracker := do
  match t.known[p.name]? with
  | none => let _ ← p.add sink
  | some previous =>
    if previous.sources ≠ p.sources then
      let _ ← MirrorPolicy.update sink previous p
  return { t with known := t.known.insert p.name p }

def delete (sink : Sink m) (t : MirrorTracker) (p : MirrorPolicy) : m MirrorTracker := do
  let _ ← p.delete sink
  return { t with known := t.known.erase p.name }

def forget (sink : Sink m) (t : MirrorTracker) (name : String) : m MirrorTracker := do
  match t.known[name]? with
  | none => return t
  | some p => t.delete sink p

def vanished (t : MirrorTracker) (relisted : List String) : List String :=
  t.known.keys.filter fun name => !relisted.contains name

/-- Closes a relist, dropping the given names in order. -/
def finishRelistIn (sink : Sink m) (t : MirrorTracker) (order : List String) :
    m MirrorTracker :=
  order.foldlM (forget sink) { t with relisted := none }

def finishRelist (sink : Sink m) (t : MirrorTracker) : m MirrorTracker :=
  match t.relisted with
  | none => return t
  | some relisted => t.finishRelistIn sink (t.vanished relisted)

def handle (sink : Sink m) (t : MirrorTracker) : Event MirrorPolicy → m MirrorTracker
  | .apply p => t.apply sink p
  | .delete p => t.delete sink p
  | .init => return { t with relisted := some [] }
  | .initApply p =>
    { t with relisted := t.relisted.map fun names => names ++ [p.name] }.apply sink p
  | .initDone => t.finishRelist sink

end MirrorTracker
end RegistrySync.Cluster
