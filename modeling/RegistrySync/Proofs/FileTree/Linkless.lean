import RegistrySync.Proofs.FileTree.Effects

/-!
File trees without links. A path leads to the same location in all of them, up the tree as well as
down; making directories adds directories only, wherever it leads, and no operation adds a link.
-/

namespace RegistrySync.FileTree

def NoLinks (t : FileTree) : Prop :=
  ∀ l target, t.entry? l ≠ some (.link target)

variable {t u : FileTree}

theorem noLinks_empty : empty.NoLinks := by
  intro l target
  by_cases hl : l = []
  . subst hl
    exact nofun
  . rw [entry?_empty hl]
    exact nofun

theorem NoLinks.of_linksFrom (h : t.NoLinks) (hlinks : LinksFrom t u) : u.NoLinks :=
  fun l target hlink => h l target (hlinks l target hlink)

theorem NoLinks.reaches (h : t.NoLinks) (p : Path) : t.Reaches p p.goal :=
  Unlinked.reaches fun _ _ target => h _ target

/-! ### Making directories -/

/-- Nothing changes but that directories are made where there was nothing. -/
abbrev Grows (t u : FileTree) : Prop :=
  Spares (fun _ => False) (fun _ => True) t u

theorem grows_put {name : String} {parent : Location} (hnone : t.entry? (name :: parent) = none)
    : t.Grows (t.put name parent .directory) := by
  by_cases hparent : t.entry? parent = some .directory
  . intro l _
    rw [entry?_put .directory hparent (hnone ▸ nofun)]
    split
    . next hl =>
      subst hl
      exact .inr ⟨trivial, hnone, rfl⟩
    . exact .inl rfl
  . rw [put, dif_neg fun h => hparent h.1]
    exact .refl _ _ t

theorem grows_makeDirectoryIfMissing (t : FileTree) (p : Path)
    : t.Grows (t.makeDirectoryIfMissing p).2 := by
  unfold makeDirectoryIfMissing
  split
  . next u hmake =>
    obtain ⟨name, parent, slash, -, hnone, rfl⟩ := exists_of_makeDirectory hmake
    exact grows_put hnone
  . exact .refl _ _ t

theorem grows_makeChain (t : FileTree) (chain : List Path) : t.Grows (t.makeChain chain).2 := by
  induction chain with
  | nil => exact .refl _ _ t
  | cons p rest ih =>
    rcases makeChain_cons_cases t p rest with ⟨-, h⟩ | h | ⟨-, u, hok, h⟩ | ⟨e, u, herror, h⟩
    . rw [h]
      exact .refl _ _ t
    . rw [h]
      exact grows_makeDirectoryIfMissing t p
    . rw [hok] at ih
      rw [h]
      exact ih.trans (grows_makeDirectoryIfMissing u p)
    . rw [herror] at ih
      rw [h]
      exact ih

theorem grows_of_makeDirectories {p : Path} {outcome : Except Failure Unit}
    (h : t.makeDirectories p = (outcome, u)) : t.Grows u := by
  have hgrows := grows_makeChain t p.chain
  rw [makeDirectories] at h
  rw [h] at hgrows
  exact hgrows

end RegistrySync.FileTree
