import RegistrySync.FileTree.Basic
import RegistrySync.FileTree.Error

/-!
Walking a path through a file tree. A path that the system does not take is refused whatever is in
the tree. The walk of another one starts at the top, goes through directories only, and follows
links, though no more than forty; whether it follows a link at the very end of the path is up to the
operation, and may depend on whether the path ends in a slash.
-/

namespace RegistrySync

namespace Path

def steps (p : Path) : List String :=
  p.segments.filter (· ≠ "")

def endsInSlash (p : Path) : Bool :=
  p.segments.getLast? = some ""

def hasNul (p : Path) : Bool :=
  p.segments.any fun s => s.toList.contains '\x00'

def bytes : List String → Nat
  | [] => 0
  | s :: rest => s.utf8ByteSize + bytes rest

/-- The bytes of the segments, and of the slashes between them. -/
def size (p : Path) : Nat :=
  bytes p.segments + (p.segments.length - 1)

/-- A whole path takes less than 4096 bytes, however short its names are. -/
def isTooLong (p : Path) : Bool :=
  4096 ≤ p.size

def refusal? (p : Path) : Option FileTree.Failure :=
  if p.hasNul then some .nulInPath
  else if p.isTooLong then some .nameTooLong
  else none

theorem refusal?_ne_notFound (p : Path) : p.refusal? ≠ some .notFound := by
  unfold refusal?
  split
  · exact nofun
  · split <;> exact nofun

end Path

namespace FileTree

inductive Ending where
  | top
  | name
  | dot
  | dotDot
  deriving DecidableEq, Repr

/-- Where a walk ends. Under a name there may be nothing yet. -/
structure Place where
  location : Location
  ending : Ending
  slash : Bool
  deriving DecidableEq, Repr

/-- A name takes up to 255 bytes. -/
def isTooLong (name : String) : Bool :=
  255 < name.utf8ByteSize

/-- Walks on from a location. A link is handed over with the steps that remain. -/
def along (t : FileTree) (follow : Bool → Bool)
    (onLink : Bool → Location → List String → Except Failure Place) (slash : Bool) :
    Ending → Location → List String → Except Failure Place
  | ending, here, [] => .ok ⟨here, ending, slash⟩
  | _, here, name :: rest =>
    if t.entry? here ≠ some .directory then .error .notDirectory
    else if name = "." then along t follow onLink slash .dot here rest
    else if name = ".." then along t follow onLink slash .dotDot here.tail rest
    else match t.entry? (name :: here) with
      | some (.link target) =>
        if rest.isEmpty && !follow slash then .ok ⟨name :: here, .name, slash⟩
        else onLink (slash || (rest.isEmpty && target.endsInSlash))
          (if target.isAbsolute then [] else here) (target.steps ++ rest)
      | none =>
        if rest.isEmpty then .ok ⟨name :: here, .name, slash⟩
        else .error (if isTooLong name then .nameTooLong else .notFound)
      | some _ => along t follow onLink slash .name (name :: here) rest

def walkFrom (t : FileTree) (follow : Bool → Bool) :
    Nat → Bool → Location → List String → Except Failure Place
  | 0, slash, here, steps =>
    t.along follow (fun _ _ _ => .error .tooManyLinks) slash .top here steps
  | links + 1, slash, here, steps => t.along follow (t.walkFrom follow links) slash .top here steps

def walk (t : FileTree) (follow : Bool → Bool) (p : Path) : Except Failure Place :=
  match p.refusal? with
  | some e => .error e
  | none =>
    if p = Path.empty then .error .notFound
    else t.walkFrom follow 40 p.endsInSlash [] p.steps

section

variable {t : FileTree} {follow : Bool → Bool} {p : Path}

theorem walk_of_refusal {e : Failure} (h : p.refusal? = some e) : t.walk follow p = .error e := by
  rw [walk, h]

theorem walk_eq (h : p.refusal? = none) (hne : p ≠ .empty) :
    t.walk follow p = t.walkFrom follow 40 p.endsInSlash [] p.steps := by
  rw [walk, h]
  exact if_neg hne

theorem walk_eq_ok {place : Place} (h : t.walk follow p = .ok place) :
    p.refusal? = none ∧ t.walkFrom follow 40 p.endsInSlash [] p.steps = .ok place := by
  unfold walk at h
  split at h
  · contradiction
  · next hrefusal =>
    split at h
    · contradiction
    · exact ⟨hrefusal, h⟩

theorem refusal?_of_walk_eq_notFound (h : t.walk follow p = .error .notFound) :
    p.refusal? = none := by
  cases hrefusal : p.refusal? with
  | none => rfl
  | some e =>
    rw [walk_of_refusal hrefusal] at h
    injection h with h
    exact absurd (h ▸ hrefusal) p.refusal?_ne_notFound

end

def look (t : FileTree) (place : Place) : Except Failure (Option Entry) :=
  match place.location, place.ending with
  | name :: _, .name =>
    if isTooLong name then .error .nameTooLong else .ok (t.entry? place.location)
  | _, _ => .ok (t.entry? place.location)

end FileTree
end RegistrySync
