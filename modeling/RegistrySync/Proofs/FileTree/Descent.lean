import RegistrySync.Proofs.FileTree.Entries
import RegistrySync.Proofs.Path.Names

/-!
A walk along a path on which no link is: if it ends at all, it ends where the path leads.
-/

namespace RegistrySync.FileTree

variable {t : FileTree} {follow : Bool → Bool}

/-- No link is where any of the steps leads. -/
def Unlinked (t : FileTree) (here : Location) (names : List String) : Prop :=
  ∀ first, first <+: names → ∀ target, t.entry? (Path.leads here first) ≠ some (.link target)

theorem Unlinked.of_linkFree {here : Location} {names : List String} (hup : ".." ∉ names)
    (hlinks : t.LinkFree (Path.leads here names)) : t.Unlinked here names := by
  rintro first ⟨rest, rfl⟩ target
  have hfirst : ".." ∉ first := fun hmem => hup (List.mem_append_left rest hmem)
  rw [Path.leads_of_not_mem hup, List.filter_append, List.reverse_append, List.append_assoc,
    ← Path.leads_of_not_mem hfirst] at hlinks
  exact hlinks _ target (List.suffix_append _ _)

theorem eq_of_along_eq_ok {onLink : Bool → Location → List String → Except Failure Place}
    {slash : Bool} {ending : Ending} {here : Location} {names : List String} {place : Place}
    (hlinks : t.Unlinked here names) (hhere : t.entry? here.tail = some .directory)
    (h : t.along follow onLink slash ending here names = .ok place)
    : place.location = Path.leads here names ∧
        t.entry? place.location.tail = some .directory := by
  induction names generalizing ending here with
  | nil =>
    injection h with h
    rw [← h]
    exact ⟨rfl, hhere⟩
  | cons name rest ih =>
    have hlinks (first : List String) (hfirst : first <+: rest) (target : Path) :=
      hlinks (name :: first) (List.prefix_cons_inj name |>.mpr hfirst) target
    simp only [Path.leads] at hlinks ⊢
    rw [along] at h
    split at h
    . contradiction
    . next hdirectory =>
      have hdirectory := Classical.not_not.mp hdirectory
      split at h
      . next hdot =>
        simp only [if_pos hdot] at hlinks ⊢
        exact ih hlinks hhere h
      . next hdot =>
        simp only [if_neg hdot] at hlinks ⊢
        split at h
        . next hup =>
          simp only [if_pos hup] at hlinks ⊢
          have habove : here.tail.tail <:+ here := (List.tail_suffix _).trans (List.tail_suffix _)
          exact ih hlinks (directory_of_directory habove hdirectory) h
        . next hup =>
          simp only [if_neg hup] at hlinks ⊢
          split at h
          . next linked hlink => exact absurd hlink (hlinks [] List.nil_prefix linked)
          . split at h
            . next hrest =>
              rw [List.isEmpty_iff.mp hrest]
              injection h with h
              rw [← h]
              exact ⟨rfl, hdirectory⟩
            . contradiction
          . exact ih hlinks hdirectory h

/-- A walk along the path ends at the location, and in a directory, if it ends at all. -/
def Reaches (t : FileTree) (p : Path) (l : Location) : Prop :=
  ∀ follow place, t.walk follow p = .ok place →
    place.location = l ∧ t.entry? l.tail = some .directory

theorem Unlinked.reaches {p : Path} (h : t.Unlinked [] p.steps) : t.Reaches p p.goal := by
  intro follow place hwalk
  have hplace : place.location = p.goal ∧ t.entry? place.location.tail = some .directory :=
    eq_of_along_eq_ok h rfl (walk_eq_ok hwalk).2
  rw [← hplace.1]
  exact ⟨rfl, hplace.2⟩

theorem reaches_of_linkFree {p : Path} (hp : p.Descends) (hlinks : t.LinkFree p.target)
    : t.Reaches p p.target := by
  rw [← hp.goal_eq] at hlinks ⊢
  exact (Unlinked.of_linkFree hp.not_mem_steps hlinks).reaches

theorem eq_of_look_eq_ok {place : Place} {e : Option Entry} (hlook : t.look place = .ok e)
    : e = t.entry? place.location := by
  unfold look at hlook
  split at hlook
  . split at hlook
    . contradiction
    . injection hlook with hlook
      exact hlook.symm
  . injection hlook with hlook
    exact hlook.symm

theorem look_ne_notFound (place : Place) : t.look place ≠ .error .notFound := by
  unfold look
  split
  . split <;> exact nofun
  . exact nofun

end RegistrySync.FileTree
