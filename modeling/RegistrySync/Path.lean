/-!
File paths. A path is kept as the segments between its slashes, so that text and segments determine
each other: `/a` has the segments empty and `a`, and `a/` has `a` and empty. Paths are joined and
cut as text; nothing is normalised.
-/

namespace RegistrySync

structure Path where
  segments : List String
  deriving DecidableEq, Repr

namespace Path

def split : List Char → List (List Char)
  | [] => [[]]
  | c :: cs =>
    if c = '/' then [] :: split cs
    else match split cs with
      | [] => [[c]]
      | s :: rest => (c :: s) :: rest

def ofText (text : String) : Path :=
  ⟨(split text.toList).map String.ofList⟩

def text (p : Path) : String :=
  String.ofList (List.intercalate ['/'] (p.segments.map String.toList))

def empty : Path := ⟨[""]⟩

def root : Path := ⟨["", ""]⟩

def isAbsolute : Path → Bool
  | ⟨"" :: _ :: _⟩ => true
  | _ => false

/-- Without the empty segment after a final slash. -/
def openEnd : List String → List String
  | [] => []
  | [s] => if s = "" then [] else [s]
  | s :: rest => s :: openEnd rest

/-- An absolute second part replaces the first one. -/
def join (p q : Path) : Path :=
  if q.isAbsolute then q else ⟨openEnd p.segments ++ q.segments⟩

/-- Of segments in reverse, drops those that stay in the same directory, but not the first of the
path. -/
def dropIdle : List String → List String
  | s :: t :: rest => if s = "" ∨ s = "." then dropIdle (t :: rest) else s :: t :: rest
  | rest => rest

def parent? (p : Path) : Option Path :=
  match dropIdle p.segments.reverse with
  | [] => none
  | [s] => if s = "" then none else some empty
  | _ :: rest =>
    let kept := dropIdle rest
    some (if kept = [""] then root else ⟨kept.reverse⟩)

end Path
end RegistrySync
