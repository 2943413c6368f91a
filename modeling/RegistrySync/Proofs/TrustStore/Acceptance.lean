import RegistrySync.Proofs.Action.Obstacles
import RegistrySync.Proofs.TrustStore.Contents

/-!
Certificates whose folders have names that the system accepts, and whose files have paths that are
not too long, can all be written to a store that is empty at first: none is in the way of another
one.
-/

namespace RegistrySync

/-- The name of the folder is one that the system accepts. -/
structure Certificate.IsAccepted (c : Certificate) : Prop extends c.IsNamed where
  accepts_folder : FileTree.accepts c.folder = true

instance (c : Certificate) : Decidable c.IsAccepted :=
  decidable_of_iff (c.IsNamed ∧ FileTree.accepts c.folder = true)
    ⟨fun h => ⟨h.1, h.2⟩, fun h => ⟨h.toIsNamed, h.accepts_folder⟩⟩

namespace TrustStore

open FileTree (Entry)

/-- The system takes the path of the file as well. -/
structure Accepts (s : TrustStore) (c : Certificate) : Prop extends c.IsAccepted where
  short : (s.file c).isTooLong = false

instance (s : TrustStore) (c : Certificate) : Decidable (s.Accepts c) :=
  decidable_of_iff (c.IsAccepted ∧ (s.file c).isTooLong = false)
    ⟨fun h => ⟨h.1, h.2⟩, fun h => ⟨h.toIsAccepted, h.short⟩⟩

variable {s : TrustStore} {t u : FileTree} {c : Certificate}
  {done certificates : List Certificate}

section

variable (hroot : s.root.IsOrdinary) (hc : c.IsAccepted)
include hroot hc

theorem isOrdinary_folder : (s.folder c).IsOrdinary :=
  hroot.join (Certificate.slash_not_mem_folder hc.slash_not_mem)
    ⟨Path.ne_dot_of_isName hc.isName_folder, c.folder_ne_dots⟩ hc.accepts_folder

theorem isOrdinary_file : (s.file c).IsOrdinary :=
  (isOrdinary_folder hroot hc).join (by decide) (by decide) (by decide)

theorem location_folder : (s.folder c).location = c.folder :: s.root.location := by
  rw [← (isOrdinary_folder hroot hc).plain.target_eq,
    (folder_target hroot.plain hc.slash_not_mem).2, Certificate.inside, if_pos hc.isName_folder,
    List.singleton_append]

theorem location_file
    : (s.file c).location = [Certificate.fileName, c.folder] ++ s.root.location := by
  rw [← (isOrdinary_file hroot hc).plain.target_eq,
    (file_target hroot.plain hc.slash_not_mem).2, hc.slot_eq]

end

theorem isUsable_file (hroot : s.root.IsOrdinary) (hc : s.Accepts c) : (s.file c).IsUsable :=
  ⟨isOrdinary_file hroot hc.toIsAccepted, hc.short⟩

theorem isUsable_folder (hroot : s.root.IsOrdinary) (hc : s.Accepts c) : (s.folder c).IsUsable :=
  ⟨isOrdinary_folder hroot hc.toIsAccepted,
    Path.isTooLong_of_le hc.short
      ((Nat.le_add_right _ _).trans (Path.size_le_join _ (by decide)))⟩

/-- The root of a store is never made a file. -/
theorem layout_nil_ne_file (certificates : List Certificate) (content : ByteArray)
    : layout certificates [] ≠ some (.file content) := by
  rw [layout, ne_eq, Option.map_eq_some_iff]
  rintro ⟨c, -, hc⟩
  rw [Certificate.slot, if_neg (List.cons_ne_nil _ _).symm] at hc
  injection hc

theorem Stopped.root_ne_file (h : s.Stopped done c t) (content : ByteArray)
    : t.entry? s.root.location ≠ some (.file content) := by
  intro hfile
  cases h with
  | unchanged hlayout => exact layout_nil_ne_file done content ((hlayout []).symm.trans hfile)
  | withFolder hentries =>
    have hroot := (hentries []).symm.trans hfile
    rw [if_pos List.nil_suffix] at hroot
    injection hroot
    contradiction
  | rootOnly _ _ hentries =>
    have hroot := (hentries []).symm.trans hfile
    rw [if_pos rfl] at hroot
    injection hroot
    contradiction

/-- What certificates have left in a store is not in the way of another one. -/
theorem not_blocks_of_holds (hheld : s.Holds done t) (habove : t.FileFree s.root.location.tail)
    (folder : String) (m : Location)
    : ¬ t.Blocks Entry.isDirectory ([Certificate.fileName, folder] ++ s.root.location) m := by
  rintro (⟨hm, hml, hfile⟩ | ⟨-, hdirectory⟩)
  . obtain ⟨content, hfile⟩ := FileTree.any_isFile_iff.mp hfile
    by_cases hinside : s.root.location <:+ m
    . obtain ⟨rel, rfl⟩ := hinside
      have hrel : rel <:+ [Certificate.fileName, folder] := List.suffix_append_self_iff.mp hm
      rw [List.suffix_cons_iff, List.suffix_cons_iff, List.suffix_nil] at hrel
      rw [hheld rel] at hfile
      rcases hrel with rfl | rfl | rfl
      . exact hml rfl
      . rw [contents] at hfile
        split at hfile <;> simp at hfile
      . rw [contents] at hfile
        split at hfile <;> simp at hfile
    . have hm := (List.suffix_or_suffix_of_suffix hm (List.suffix_append _ _)).resolve_right hinside
      apply habove m content (Location.suffix_tail hm _) hfile
      rintro rfl
      exact hinside List.suffix_rfl
  . rw [FileTree.any_isDirectory_iff, hheld, contents, if_pos rfl, Option.map_eq_some_iff]
      at hdirectory
    obtain ⟨k, -, hk⟩ := hdirectory
    contradiction

theorem exists_runAll_writing (hroot : s.root.IsOrdinary) (hc : s.Accepts c) (hlinks : t.NoLinks)
    (hheld : s.Holds done t) (habove : t.FileFree s.root.location.tail)
    : ∃ u, Action.runAll (s.writing c) t = (.ok (), u) := by
  have hlocation := location_file hroot hc.toIsAccepted
  rw [writing, Action.exists_runAll_iff hlinks (isUsable_file hroot hc) (endsInSlash_file s c)
    (by simp [hlocation]) (isUsable_folder hroot hc)
    (by rw [hlocation, location_folder hroot hc.toIsAccepted]; rfl), hlocation]
  exact not_blocks_of_holds hheld habove c.folder

theorem exists_runAll_writingAll (hroot : s.root.IsOrdinary)
    (haccepted : ∀ k ∈ certificates, s.Accepts k) (hdone : ∀ k ∈ done, k.IsNamed)
    (hlinks : t.NoLinks) (hheld : s.Holds done t) (habove : t.FileFree s.root.location.tail)
    : ∃ u, Action.runAll (s.writingAll certificates) t = (.ok (), u) := by
  induction certificates generalizing done t with
  | nil => exact ⟨t, rfl⟩
  | cons c certificates ih =>
    obtain ⟨hc, haccepted⟩ := List.forall_mem_cons.mp haccepted
    obtain ⟨v, hfirst⟩ := exists_runAll_writing hroot hc hlinks hheld habove
    have hnamed : ∀ k ∈ done ++ [c], k.IsNamed := by
      simpa [or_imp, forall_and] using And.intro hdone hc.toIsNamed
    have hfree : t.LinkFree s.root.location.tail := fun m target _ => hlinks m target
    have hlayout := (holds_iff_hasLayout hdone).mp hheld
    have hspares := spares_of_writing hroot.plain hfree hlayout hc.slash_not_mem hfirst
    have hheld' := (holds_iff_hasLayout hnamed).mpr
      (hlayout.of_writing hroot.plain hfree hc.slash_not_mem hfirst)
    have hlinks' : v.NoLinks := by
      apply hlinks.of_linksFrom
      apply hspares.linksFrom
      rintro _ target ⟨rel, rfl⟩
      rw [hheld', contents_eq_layout hnamed]
      exact layout_ne_link _ rel target
    obtain ⟨u, hrest⟩ := ih haccepted hnamed hlinks' hheld' (hspares.fileFree_tail habove)
    refine ⟨u, ?_⟩
    rw [writingAll, List.flatMap_cons, Action.runAll_append_eq_ok_iff]
    exact ⟨v, hfirst, hrest⟩

end TrustStore
end RegistrySync
