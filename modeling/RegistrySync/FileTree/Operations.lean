import RegistrySync.FileTree.Walk

/-!
Operations on a file tree. The single ones leave the tree alone when they fail; making a chain of
directories and removing a tree may fail after a part of the work.
-/

namespace RegistrySync

def Path.chain (p : Path) : List Path :=
  go p.segments.length p
where
  go : Nat → Path → List Path
    | 0, p => [p]
    | n + 1, p => p :: (p.parent?.map (go n)).getD []

namespace FileTree

def makeDirectory (t : FileTree) (p : Path) : Except Failure FileTree := do
  let place ← t.walk (fun _ => false) p
  match ← t.look place, place.ending, place.location with
  | none, .name, name :: parent => return t.put name parent .directory
  | _, _, _ => throw .alreadyExists

/-- Whether a path leads to a directory, through links too. -/
def isDirectory (t : FileTree) (p : Path) : Bool :=
  match t.walk (fun _ => true) p with
  | .ok place => match t.look place with
    | .ok (some .directory) => true
    | _ => false
  | .error _ => false

/-- A failure is forgiven if there is a directory all the same. -/
def makeDirectoryIfMissing (t : FileTree) (p : Path) : Except Failure Unit × FileTree :=
  match t.makeDirectory p with
  | .ok t => (.ok (), t)
  | .error e => (if t.isDirectory p then .ok () else .error e, t)

def makeChain (t : FileTree) : List Path → Except Failure Unit × FileTree
  | [] => (.error .notFound, t)
  | p :: rest =>
    if p = Path.empty then (.ok (), t)
    else match t.makeDirectory p with
      | .error .notFound =>
        match t.makeChain rest with
        | (.ok (), t) => t.makeDirectoryIfMissing p
        | failed => failed
      | _ => t.makeDirectoryIfMissing p

def makeDirectories (t : FileTree) (p : Path) : Except Failure Unit × FileTree :=
  t.makeChain p.chain

def write (t : FileTree) (p : Path) (content : ByteArray) : Except Failure FileTree := do
  let place ← t.walk (!·) p
  if place.slash then throw .isDirectory
  match ← t.look place, place.location with
  | some .directory, _ => throw .isDirectory
  | _, name :: parent => return t.put name parent (.file content)
  | _, [] => throw .isDirectory

def read (t : FileTree) (p : Path) : Except Failure ByteArray := do
  let place ← t.walk (fun _ => true) p
  match ← t.look place with
  | some (.file content) => if place.slash then throw .notDirectory else return content
  | some .directory => throw .isDirectory
  | _ => throw .notFound

def makeLink (t : FileTree) (p target : Path) : Except Failure FileTree := do
  let place ← t.walk (fun _ => false) p
  match ← t.look place, place.ending, place.location with
  | none, .name, name :: parent =>
    if place.slash then throw .notFound else return t.put name parent (.link target)
  | _, _, _ => throw .alreadyExists

def removeDirectory (t : FileTree) (p : Path) : Except Failure FileTree := do
  let place ← t.walk (fun _ => false) p
  match place.ending with
  | .top => throw .busy
  | .dot => throw .invalid
  | .dotDot => throw .notEmpty
  | .name =>
    match ← t.look place with
    | none => throw .notFound
    | some .directory =>
      if t.entries.keys.any place.location.isBelow then throw .notEmpty
      else return t.remove place.location
    | some _ => throw .notDirectory

/-- Removes a directory with everything inside, or a link. Links are not followed, except one that
the path itself goes through. Something that is missing counts as removed. -/
def removeTree (t : FileTree) (p : Path) : Except Failure Unit × FileTree :=
  match (do let place ← t.walk id p; return (place, ← t.look place) : Except Failure _) with
  | .error .notFound | .ok (_, none) => (.ok (), t)
  | .error e => (.error e, t)
  | .ok (_, some (.file _)) => (.error .notDirectory, t)
  | .ok (place, some (.link _)) => (.ok (), t.remove place.location)
  | .ok (place, some .directory) =>
    let emptied := t.removeBelow place.location
    match emptied.removeDirectory p with
    | .ok t => (.ok (), t)
    | .error .notFound => (.ok (), emptied)
    | .error e => (.error e, emptied)

def removeAny (t : FileTree) (p : Path) : FileTree :=
  match t.walk id p with
  | .ok place => t.remove place.location
  | .error _ => t

end FileTree
end RegistrySync
