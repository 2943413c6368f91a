import RegistrySync.Proofs.FileTree.Effects
import RegistrySync.Proofs.FileTree.PlainWalk

/-!
What removing a tree does to a file tree, for a path that is made of names and not reached through
links: all at the location and inside it is gone, or the removal fails and nothing is.
-/

namespace RegistrySync.FileTree

variable {t u : FileTree} {p : Path}

theorem exists_of_removeDirectory (h : t.removeDirectory p = .ok u)
    : ∃ place, t.walk (fun _ => false) p = .ok place ∧ u = t.remove place.location := by
  obtain ⟨place, hwalk, h⟩ := exists_of_bind_eq_ok h
  refine ⟨place, hwalk, ?_⟩
  split at h
  . contradiction
  . contradiction
  . contradiction
  . obtain ⟨found, -, h⟩ := exists_of_bind_eq_ok h
    split at h
    . contradiction
    . split at h
      . contradiction
      . injection h with h
        exact h.symm
    . contradiction

theorem missing_of_removeDirectory (h : t.removeDirectory p = .error .notFound)
    : t.walk (fun _ => false) p = .error .notFound ∨
      ∃ place, t.walk (fun _ => false) p = .ok place ∧ t.entry? place.location = none := by
  rcases cases_of_bind_eq_error h with hwalk | ⟨place, hwalk, h⟩
  . exact .inl hwalk
  . refine .inr ⟨place, hwalk, ?_⟩
    split at h
    . cases h
    . cases h
    . cases h
    . rcases cases_of_bind_eq_error h with hlook | ⟨found, hlook, h⟩
      . exact absurd hlook (look_ne_notFound place)
      . split at h
        . exact (eq_of_look_eq_ok hlook).symm
        . split at h <;> cases h
        . cases h

/-- The place the path leads to, and what is found there. -/
def find (t : FileTree) (p : Path) : Except Failure (Place × Option Entry) := do
  let place ← t.walk id p
  return (place, ← t.look place)

theorem eq_of_find_eq_ok {place : Place} {found : Option Entry}
    (h : t.find p = .ok (place, found))
    : t.walk id p = .ok place ∧ found = t.entry? place.location := by
  obtain ⟨place', hwalk, h⟩ := exists_of_bind_eq_ok h
  obtain ⟨found', hlook, h⟩ := exists_of_bind_eq_ok h
  injection h with h
  injection h with hplace hfound
  subst hplace hfound
  exact ⟨hwalk, eq_of_look_eq_ok hlook⟩

theorem walk_of_find_eq_error (h : t.find p = .error .notFound)
    : t.walk id p = .error .notFound := by
  rcases cases_of_bind_eq_error h with hwalk | ⟨place, -, h⟩
  . exact hwalk
  . rcases cases_of_bind_eq_error h with hlook | ⟨found, -, h⟩
    . exact absurd hlook (look_ne_notFound place)
    . contradiction

theorem removeTree_cases (h : t.removeTree p = (.ok (), u))
    : (t.find p = .error .notFound ∧ u = t) ∨
      (∃ place, t.find p = .ok (place, none) ∧ u = t) ∨
      (∃ place target, t.find p = .ok (place, some (.link target)) ∧
        u = t.remove place.location) ∨
      (∃ place, t.find p = .ok (place, some .directory) ∧
        ((t.removeBelow place.location).removeDirectory p = .ok u ∨
          (t.removeBelow place.location).removeDirectory p = .error .notFound ∧
            u = t.removeBelow place.location)) := by
  unfold removeTree at h
  split at h
  . next hfind =>
    injection h with _ h
    exact .inl ⟨hfind, h.symm⟩
  . next place hfind =>
    injection h with _ h
    exact .inr (.inl ⟨place, hfind, h.symm⟩)
  . injection h
    contradiction
  . injection h
    contradiction
  . next place target hfind =>
    injection h with _ h
    exact .inr (.inr (.inl ⟨place, target, hfind, h.symm⟩))
  . next place hfind =>
    refine .inr (.inr (.inr ⟨place, hfind, ?_⟩))
    dsimp only at h
    split at h
    . next removed hremove =>
      injection h with _ h
      rw [← h]
      exact .inl hremove
    . next hremove =>
      injection h with _ h
      exact .inr ⟨hremove, h.symm⟩
    . injection h
      contradiction

theorem removeTree_of_refusal {e : Failure} (h : p.refusal? = some e)
    : t.removeTree p = (.error e, t) := by
  have hfind : t.find p = .error e := by
    rw [find, walk_of_refusal h]
    rfl
  rw [find] at hfind
  rw [removeTree, hfind]
  cases e with
  | notFound => exact absurd h p.refusal?_ne_notFound
  | _ => rfl

/-- A path that ends in a slash would lead through a link at its end. -/
theorem entry?_removeTree (hp : p.IsPlain) (hne : p.location ≠ [])
    (habove : t.LinkFree p.location.tail)
    (hslash : p.endsInSlash = true → t.LinkFree p.location) (h : t.removeTree p = (.ok (), u))
    (l : Location) : u.entry? l = if p.location <:+ l then none else t.entry? l := by
  have hend : ∀ target, t.entry? p.location = some (.link target) → id p.endsInSlash = false := by
    intro target hlink
    rw [id, ← Bool.not_eq_true]
    intro htrue
    exact hslash htrue _ target List.suffix_rfl hlink
  have hmissing : t.entry? p.location = none →
      t.entry? l = if p.location <:+ l then none else t.entry? l := by
    intro hnone
    split
    . next hsuffix => exact entry?_eq_none_of_suffix hnone hsuffix
    . rfl
  rcases removeTree_cases h with ⟨hfind, hu⟩ | ⟨place, hfind, hu⟩ | ⟨place, target, hfind, hu⟩ |
    ⟨place, hfind, hu⟩
  . rw [hu]
    exact hmissing (entry?_eq_none_of_walk hp habove hend hne (walk_of_find_eq_error hfind))
  . obtain ⟨hwalk, hfound⟩ := eq_of_find_eq_ok hfind
    rw [(eq_of_walk_eq_ok hp habove hend hwalk).1] at hfound
    rw [hu]
    exact hmissing hfound.symm
  . obtain ⟨hwalk, -⟩ := eq_of_find_eq_ok hfind
    rw [hu, (eq_of_walk_eq_ok hp habove hend hwalk).1, entry?_remove hne]
  . obtain ⟨hwalk, hfound⟩ := eq_of_find_eq_ok hfind
    have hlocation := (eq_of_walk_eq_ok hp habove hend hwalk).1
    rw [hlocation] at hfound hu
    have hemptied := entry?_removeBelow t p.location
    have habove' := habove.of_linksFrom (linksFrom_removeBelow t p.location)
    -- Once empty the directory is looked for again, and found where it was.
    rcases hu with hu | ⟨hu, -⟩
    . obtain ⟨place', hwalk', rfl⟩ := exists_of_removeDirectory hu
      rw [(eq_of_walk_eq_ok hp habove' (fun _ _ => rfl) hwalk').1, entry?_remove hne]
      split
      . rfl
      . next hsuffix => rw [hemptied, if_neg (hsuffix ∘ And.left)]
    . have hnone : entry? (t.removeBelow p.location) p.location = none := by
        rcases missing_of_removeDirectory hu with hwalk' | ⟨place', hwalk', hnone⟩
        . exact entry?_eq_none_of_walk hp habove' (fun _ _ => rfl) hne hwalk'
        . rw [(eq_of_walk_eq_ok hp habove' (fun _ _ => rfl) hwalk').1] at hnone
          exact hnone
      rw [hemptied, if_neg (fun h => h.2 rfl), ← hfound] at hnone
      contradiction

theorem any_keys_removeBelow (t : FileTree) (top : Location)
    : (t.removeBelow top).entries.keys.any top.isBelow = false := by
  rw [← Bool.not_eq_true, List.any_eq_true]
  rintro ⟨l, hkey, hbelow⟩
  have hentry := entry?_removeBelow t top l
  rw [if_pos (Location.isBelow_iff.mp hbelow)] at hentry
  cases l with
  | nil => contradiction
  | cons name parent =>
    rw [Std.ExtTreeMap.mem_keys, Std.ExtTreeMap.mem_iff_isSome_getElem?] at hkey
    rw [ entry?, Entries.at?] at hentry
    . rw [hentry] at hkey
      contradiction
    . exact nofun

section

variable (hp : p.IsPlain) (hne : p.location ≠ []) (habove : t.LinkFree p.location.tail)
include hp hne habove

/-- A directory that has just been emptied can be removed itself. -/
theorem exists_removeDirectory_removeBelow
    (hend : ∀ target, t.entry? p.location = some (.link target) → id p.endsInSlash = false)
    {place : Place} (h : t.find p = .ok (place, some .directory))
    : ∃ u, (t.removeBelow p.location).removeDirectory p = .ok u := by
  obtain ⟨hwalk, hfound⟩ := eq_of_find_eq_ok h
  have htaken := (walk_eq_ok hwalk).1
  rcases walk_cases hp habove hend htaken hne with ⟨hparent, hok⟩ | ⟨-, e, herror⟩
  swap
  . rw [herror] at hwalk
    contradiction
  rw [hok] at hwalk
  injection hwalk with hwalk
  subst hwalk
  obtain ⟨name, parent, hlocation⟩ := List.exists_cons_of_ne_nil hne
  have hname : ¬ isTooLong name = true := by
    intro htoolong
    rw [find, hok, hlocation] at h
    simp [look, htoolong, bind, Except.bind] at h
  have hparent' : entry? (t.removeBelow p.location) p.location.tail = some .directory := by
    rw [entry?_removeBelow, if_neg, hparent]
    rintro ⟨hsuffix, -⟩
    rw [hlocation] at hsuffix
    exact absurd hsuffix.length_le (Nat.not_succ_le_self _)
  have hentry : entry? (t.removeBelow p.location) p.location = some .directory := by
    rw [entry?_removeBelow, if_neg (fun h => h.2 rfl), ← hfound]
  have hwalk' : walk (t.removeBelow p.location) (fun _ => false) p =
      .ok ⟨p.location, .name, p.endsInSlash⟩ := by
    have habove' := habove.of_linksFrom (linksFrom_removeBelow t p.location)
    rcases @walk_cases _ (fun _ => false) p hp habove' (fun _ _ => rfl) htaken hne with
      ⟨-, hok⟩ | ⟨hnot, -⟩
    . exact hok
    . contradiction
  have hlook : look (t.removeBelow p.location) ⟨p.location, .name, p.endsInSlash⟩ =
      .ok (some .directory) := by
    rw [← hentry]
    simp only [look, hlocation, if_neg hname]
  refine ⟨(t.removeBelow p.location).remove p.location, ?_⟩
  rw [removeDirectory, hwalk']
  dsimp only [bind, Except.bind]
  rw [hlook]
  dsimp only
  rw [any_keys_removeBelow, if_neg Bool.false_ne_true]
  rfl

theorem eq_of_failed_removeTree (hslash : p.endsInSlash = true → t.LinkFree p.location)
    {e : Failure} (h : t.removeTree p = (.error e, u)) : u = t := by
  have hend : ∀ target, t.entry? p.location = some (.link target) → id p.endsInSlash = false := by
    intro target hlink
    rw [id, ← Bool.not_eq_true]
    intro htrue
    exact hslash htrue _ target List.suffix_rfl hlink
  unfold removeTree at h
  split at h
  . injection h
    contradiction
  . injection h
    contradiction
  . injection h with _ h
    exact h.symm
  . injection h with _ h
    exact h.symm
  . injection h
    contradiction
  . next place hfind =>
    obtain ⟨v, hremove⟩ := exists_removeDirectory_removeBelow hp hne habove hend hfind
    dsimp only at h
    rw [(eq_of_walk_eq_ok hp habove hend (eq_of_find_eq_ok hfind).1).1, hremove] at h
    injection h
    contradiction

end

end RegistrySync.FileTree
