import Std.Data.ExtTreeMap
import RegistrySync.Path

/-!
A tree of files, directories and links. An entry is found by its location: the names from the entry
up to the top of the tree, innermost first. Each entry stands in a directory of the tree, and the
top itself is a directory.
-/

namespace RegistrySync

abbrev Location := List String

namespace Location

/-- Strictly inside the directory at `top`. -/
def isBelow (top : Location) : Location → Bool
  | [] => false
  | _ :: parent => parent = top || isBelow top parent

def path (l : Location) : Path := ⟨l.reverse⟩

end Location

namespace FileTree

instance decidableEqContent : DecidableEq ByteArray :=
  ByteArray.instDecidableEq

inductive Entry where
  | file (content : ByteArray)
  | link (target : Path)
  | directory
  deriving DecidableEq

abbrev Entries := Std.ExtTreeMap Location Entry

/-- The top is a directory whatever the entries are. -/
def Entries.at? (entries : Entries) : Location → Option Entry
  | [] => some .directory
  | l => entries[l]?

end FileTree

structure FileTree where
  entries : FileTree.Entries
  /-- Whatever stands somewhere stands in a directory. -/
  closed : ∀ (name : String) (parent : Location),
    (entries.at? (name :: parent)).isSome → entries.at? parent = some .directory

namespace FileTree

theorem Entries.at?_insert (entries : Entries) (name : String) (parent l : Location) (e : Entry) :
    Entries.at? (entries.insert (name :: parent) e) l =
      if l = name :: parent then some e else entries.at? l := by
  cases l with
  | nil => simp [at?]
  | cons n p =>
    simp only [at?, Std.ExtTreeMap.getElem?_insert, Std.LawfulEqOrd.compare_eq_iff_eq]
    by_cases h : n :: p = name :: parent
    · rw [if_pos h.symm, if_pos h]
    · rw [if_neg (Ne.symm h), if_neg h]

theorem Entries.at?_filter (entries : Entries) (keep : Location → Bool) (name : String)
    (parent : Location) :
    Entries.at? (entries.filter fun l _ => keep l) (name :: parent) =
      if keep (name :: parent) then entries.at? (name :: parent) else none := by
  simp only [at?, Std.ExtTreeMap.getElem?_filter']
  cases entries[name :: parent]? <;> cases keep (name :: parent) <;> rfl

def empty : FileTree where
  entries := ∅
  closed := by simp [Entries.at?]

def entry? (t : FileTree) (l : Location) : Option Entry :=
  t.entries.at? l

/-- Puts an entry into a directory. Nothing happens if there is no such directory, or if a
directory is in the way. -/
def put (t : FileTree) (name : String) (parent : Location) (e : Entry) : FileTree :=
  if h : t.entry? parent = some .directory ∧ t.entry? (name :: parent) ≠ some .directory then
    { entries := t.entries.insert (name :: parent) e
      closed := by
        intro n p hp
        rw [Entries.at?_insert] at hp ⊢
        have hold : t.entries.at? p = some .directory := by
          by_cases heq : n :: p = name :: parent
          · obtain ⟨-, rfl⟩ := List.cons.inj heq
            exact h.1
          · exact t.closed n p (by simpa [heq] using hp)
        rw [if_neg]
        · exact hold
        · intro hpl
          exact h.2 (hpl ▸ hold) }
  else t

/-- Keeps the entries whose locations satisfy a condition. It has to hold of a directory whenever
it holds of something inside. -/
def restrict (t : FileTree) (keep : Location → Bool)
    (upward : ∀ name parent, keep (name :: parent) → keep parent) : FileTree where
  entries := t.entries.filter fun l _ => keep l
  closed := by
    intro n p hp
    rw [Entries.at?_filter] at hp
    by_cases hk : keep (n :: p)
    · have hold := t.closed n p (by simpa [hk] using hp)
      cases p with
      | nil => rfl
      | cons m q => rw [Entries.at?_filter, if_pos (upward _ _ hk), hold]
    · simp [hk] at hp

def removeBelow (t : FileTree) (top : Location) : FileTree :=
  t.restrict (fun l => !top.isBelow l) (by
    intro name parent h
    simp only [Location.isBelow, Bool.not_or, Bool.and_eq_true] at h
    exact h.2)

def remove (t : FileTree) (top : Location) : FileTree :=
  t.restrict (fun l => l ≠ top && !top.isBelow l) (by
    intro name parent h
    simp only [Location.isBelow, Bool.not_or, Bool.and_eq_true, Bool.not_eq_true',
      decide_eq_true_eq, decide_eq_false_iff_not] at h ⊢
    exact ⟨h.2.1, h.2.2⟩)

def newEntries (before after : FileTree) : List (Location × Entry) :=
  after.entries.toList.filter fun (l, e) => before.entry? l ≠ some e

end FileTree
end RegistrySync
