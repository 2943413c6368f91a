import RegistrySync.Proofs.Action.Failure
import RegistrySync.TrustStore

/-!
What certificates make of a trust store that is empty at first, whether or not all of them can be
written. Their registries have no slash, so each stays in the store.
-/

namespace RegistrySync

/-! ### Names of folders -/

theorem colonForDots_ne_nil {cs : List Char} (h : cs ≠ []) : colonForDots cs ≠ [] := by
  fun_cases colonForDots cs with
  | case1 => exact List.cons_ne_nil _ _
  | case2 => exact List.cons_ne_nil _ _
  | case3 => contradiction

theorem colonForDots_eq_dot {cs : List Char} (h : colonForDots cs = ['.']) : cs = ['.'] := by
  fun_cases colonForDots cs with
  | case1 rest => simp [colonForDots] at h
  | case2 c rest hdots =>
    rw [colonForDots] at h
    . injection h with hc hrest
      cases rest with
      | nil => rw [hc]
      | cons d rest => exact absurd hrest (colonForDots_ne_nil (List.cons_ne_nil d rest))
    . exact hdots
  | case3 => contradiction

theorem colonForDots_ne_dots (cs : List Char) : colonForDots cs ≠ ['.', '.'] := by
  fun_induction colonForDots cs with
  | case1 rest => simp
  | case2 c rest hdots ih =>
    intro h
    injection h with hc hrest
    exact hdots [] hc (colonForDots_eq_dot hrest)
  | case3 => simp

theorem colonForDots_eq_self {cs : List Char} (h : '.' ∉ cs) : colonForDots cs = cs := by
  fun_induction colonForDots cs with
  | case1 rest => exact absurd List.mem_cons_self h
  | case2 c rest _ ih => rw [ih (List.not_mem_of_not_mem_cons h)]
  | case3 => rfl

theorem slash_not_mem_colonForDots {cs : List Char} (h : '/' ∉ cs) : '/' ∉ colonForDots cs := by
  fun_induction colonForDots cs with
  | case1 rest => simpa using h
  | case2 c rest _ ih =>
    rw [List.mem_cons, not_or] at h ⊢
    exact ⟨h.1, ih h.2⟩
  | case3 => exact h

namespace Certificate

/-- Where the folder of a certificate is in the store. Without a name it is the store itself. -/
def inside (c : Certificate) : Location :=
  if Path.isName c.folder then [c.folder] else []

/-- Where the certificate itself is in the store. -/
def slot (c : Certificate) : Location :=
  fileName :: c.inside

theorem folder_ne_dots (c : Certificate) : c.folder ≠ ".." := by
  intro h
  have hchars := congrArg String.toList h
  rw [folder, folderName, String.toList_ofList] at hchars
  exact colonForDots_ne_dots _ hchars

theorem slash_not_mem_folder {c : Certificate} (hc : '/' ∉ c.registry.toList)
    : '/' ∉ c.folder.toList := by
  rw [folder, folderName, String.toList_ofList]
  exact slash_not_mem_colonForDots hc

end Certificate

namespace TrustStore

open FileTree (LinkFree Spares)

variable {s : TrustStore} {t u : FileTree}

/-! ### Paths into the store -/

theorem endsInSlash_file (s : TrustStore) (c : Certificate) : (s.file c).endsInSlash = false := by
  rw [file, Path.join_ofText (by decide), Path.endsInSlash, List.getLast?_concat]
  decide

section

variable (hroot : s.root.IsPlain) {c : Certificate} (hc : '/' ∉ c.registry.toList)
include hroot hc

theorem folder_target
    : (s.folder c).Descends ∧ (s.folder c).target = c.inside ++ s.root.location := by
  have hslash := Certificate.slash_not_mem_folder hc
  refine ⟨Path.descends_join hslash hroot.descends c.folder_ne_dots, ?_⟩
  rw [folder, Path.target_join hslash, hroot.target_eq, Certificate.inside]
  split <;> rfl

theorem file_target : (s.file c).Descends ∧ (s.file c).target = c.slot ++ s.root.location := by
  obtain ⟨hdescends, htarget⟩ := folder_target hroot hc
  have hslash : '/' ∉ Certificate.fileName.toList := by decide
  have hname : Path.isName Certificate.fileName = true := by decide
  refine ⟨Path.descends_join hslash hdescends (by decide), ?_⟩
  rw [file, Path.target_join hslash, if_pos hname, htarget]
  rfl

end

/-! ### Layout -/

/-- The last certificate that came by a location has left its folder there or itself. -/
def layout (certificates : List Certificate) (rel : Location) : Option FileTree.Entry :=
  (certificates.reverse.find? (rel <:+ ·.slot)).map fun c =>
    if rel = c.slot then .file c.content.toUTF8 else .directory

theorem layout_nil (rel : Location) : layout [] rel = none := rfl

theorem layout_concat (certificates : List Certificate) (c : Certificate) (rel : Location)
    : layout (certificates ++ [c]) rel =
        if rel = c.slot then some (.file c.content.toUTF8)
        else if rel <:+ c.slot then some .directory
        else layout certificates rel := by
  rw [layout, List.reverse_append, List.reverse_singleton, List.singleton_append, List.find?_cons]
  by_cases hslot : rel = c.slot
  . simp [hslot]
  . by_cases hsuffix : rel <:+ c.slot
    . simp [hslot, hsuffix]
    . simp [hslot, hsuffix, layout]

theorem layout_ne_link (certificates : List Certificate) (rel : Location) (target : Path)
    : layout certificates rel ≠ some (.link target) := by
  rw [layout, ne_eq, Option.map_eq_some_iff]
  rintro ⟨c, -, hc⟩
  split at hc <;> contradiction

theorem eq_nil_of_layout_eq_none {certificates : List Certificate}
    (h : layout certificates [] = none) : certificates = [] := by
  rw [layout, Option.map_eq_none_iff, List.find?_eq_none] at h
  apply List.eq_nil_iff_forall_not_mem.mpr
  intro c hc
  simpa using h c (List.mem_reverse.mpr hc)

def HasLayout (s : TrustStore) (certificates : List Certificate) (t : FileTree) : Prop :=
  ∀ rel, t.entry? (rel ++ s.root.location) = layout certificates rel

/-! ### Writing the certificates -/

section

variable (hroot : s.root.IsPlain) (habove : t.LinkFree s.root.location.tail)
  {done : List Certificate} (hlayout : s.HasLayout done t)
include hroot habove hlayout

omit hroot in
theorem HasLayout.linkFree (rel : Location) : t.LinkFree (rel ++ s.root.location) := by
  apply LinkFree.of_inside habove
  intro rel target
  rw [hlayout]
  exact layout_ne_link done rel target

section

variable {c : Certificate} (hc : '/' ∉ c.registry.toList)
include hc

theorem spares_of_writing {outcome : Except IoFailure Unit}
    (h : Action.runAll (s.writing c) t = (outcome, u))
    : Spares (s.root.location <:+ ·) (· <:+ s.root.location) t u := by
  obtain ⟨hfolder, hfolderTarget⟩ := folder_target hroot hc
  obtain ⟨hfile, hfileTarget⟩ := file_target hroot hc
  have hparent : (s.folder c).target = (s.file c).target.tail := by
    rw [hfolderTarget, hfileTarget]
    rfl
  have hlinks : t.LinkFree (s.file c).target := by
    rw [hfileTarget]
    exact hlayout.linkFree habove _
  apply (Action.spares_of_runAll hfile hfolder hparent hlinks h).mono
  . intro l hl
    rw [hl, hfileTarget]
    exact List.suffix_append _ _
  . intro l hoff hl
    rw [hfileTarget] at hl
    exact (List.suffix_or_suffix_of_suffix hl (List.suffix_append _ _)).resolve_right hoff

theorem HasLayout.of_writing (h : Action.runAll (s.writing c) t = (.ok (), u))
    : s.HasLayout (done ++ [c]) u := by
  obtain ⟨hfolder, hfolderTarget⟩ := folder_target hroot hc
  obtain ⟨hfile, hfileTarget⟩ := file_target hroot hc
  have hwrites : Action.WritesFile (s.file c).target c.content t u := by
    apply Action.WritesFile.of_runAll hfile hfolder _ _ h
    . rw [hfileTarget, hfolderTarget]
      rfl
    . rw [hfileTarget]
      exact hlayout.linkFree habove _
  rw [hfileTarget] at hwrites
  intro rel
  rw [hwrites, layout_concat, hlayout]
  simp only [List.append_left_inj, List.suffix_append_self_iff]

end

theorem HasLayout.of_writingAll {certificates : List Certificate}
    (hslash : ∀ c ∈ certificates, '/' ∉ c.registry.toList)
    (h : Action.runAll (s.writingAll certificates) t = (.ok (), u))
    : s.HasLayout (done ++ certificates) u ∧
        Spares (s.root.location <:+ ·) (· <:+ s.root.location) t u := by
  -- What has been written so far carries the induction: no link stands in the store.
  induction certificates generalizing done t with
  | nil =>
    injection h with _ h
    rw [List.append_nil, ← h]
    exact ⟨hlayout, .refl _ _ t⟩
  | cons c certificates ih =>
    obtain ⟨hc, hslash⟩ := List.forall_mem_cons.mp hslash
    rw [writingAll, List.flatMap_cons, Action.runAll_append_eq_ok_iff] at h
    obtain ⟨v, hfirst, hrest⟩ := h
    have hspares := spares_of_writing hroot habove hlayout hc hfirst
    have hlayout := HasLayout.of_writing hroot habove hlayout hc hfirst
    obtain ⟨hlayout, hspares'⟩ := ih (hspares.linkFree_tail habove) hlayout hslash hrest
    rw [List.append_assoc] at hlayout
    exact ⟨hlayout, hspares.trans hspares'⟩

/-- What is in the store when a certificate could not be written after others. -/
inductive Stopped (s : TrustStore) (done : List Certificate) (c : Certificate) (t : FileTree) :
    Prop where
  | unchanged (layout : s.HasLayout done t)
  | withFolder (entry?_eq : ∀ rel, t.entry? (rel ++ s.root.location) =
      if rel <:+ c.inside then some .directory else layout done rel)
  | rootOnly (first : done = []) (tooLong : FileTree.isTooLong c.folder = true)
      (entry?_eq : ∀ rel, t.entry? (rel ++ s.root.location) =
        if rel = [] then some .directory else none)

theorem stopped_of_writing {c : Certificate} (hc : '/' ∉ c.registry.toList) {e : IoFailure}
    (h : Action.runAll (s.writing c) t = (.error e, u)) : s.Stopped done c u := by
  obtain ⟨hfolder, htarget⟩ := folder_target hroot hc
  have hlinks : t.LinkFree (s.folder c).target := by
    rw [htarget]
    exact hlayout.linkFree habove _
  rcases Action.makeDirectories_of_failed h with hmake | hmake
  . have hmakes := FileTree.makesDirectories_of_failed hfolder hlinks hmake
    by_cases hname : Path.isName c.folder = true
    . rw [htarget, Certificate.inside, if_pos hname, List.singleton_append, List.tail_cons]
        at hmakes
      have hinside : ∀ rel, rel ≠ [] →
          u.entry? (rel ++ s.root.location) = layout done rel := by
        intro rel hrel
        rw [← hlayout]
        rcases hmakes (rel ++ s.root.location) with hsame | ⟨hsuffix, -⟩
        . exact hsame
        . have hlength := hsuffix.length_le
          rw [List.length_append] at hlength
          exact absurd (List.eq_nil_of_length_eq_zero (by omega)) hrel
      rcases hmakes s.root.location with hsame | ⟨-, hnone, hmade⟩
      . apply Stopped.unchanged
        intro rel
        by_cases hrel : rel = []
        . rw [hrel, List.nil_append, hsame]
          exact hlayout []
        . exact hinside rel hrel
      . have hdone : done = [] := eq_nil_of_layout_eq_none ((hlayout []).symm.trans hnone)
        have hslash := Certificate.slash_not_mem_folder hc
        have hplain : (s.folder c).IsPlain :=
          Path.isPlain_join hslash hroot ⟨Path.ne_dot_of_isName hname, c.folder_ne_dots⟩
        rw [htarget, Certificate.inside, if_pos hname] at hlinks
        have hlocation : (s.folder c).location = c.folder :: s.root.location := by
          rw [← hplain.target_eq, htarget, Certificate.inside, if_pos hname]
          rfl
        refine .rootOnly hdone
          (FileTree.isTooLong_of_failed hplain (hlocation ▸ hlinks) hlocation hmake hnone hmade) ?_
        intro rel
        split
        . next hrel => rw [hrel, List.nil_append, hmade]
        . next hrel => rw [hinside rel hrel, hdone, layout_nil]
    . rw [htarget, Certificate.inside, if_neg hname, List.nil_append] at hmakes
      apply Stopped.unchanged
      intro rel
      rw [hmakes.entry?_eq (List.suffix_append rel _), hlayout]
  . apply Stopped.withFolder
    intro rel
    rw [FileTree.entry?_makeDirectories hfolder hlinks hmake, htarget]
    simp only [List.suffix_append_self_iff, hlayout rel]

end

end TrustStore
end RegistrySync
