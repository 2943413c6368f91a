import Mathlib.Data.List.Nodup
import RegistrySync.Proofs.FileTree.Making
import RegistrySync.Proofs.TrustStore.Contents

/-!
Filling a trust store that is reached through links: the first certificate makes a new directory
where the root leads, and all certificates are kept inside.
-/

namespace RegistrySync.TrustStore

open FileTree (Entry)

variable {s : TrustStore} {t u v : FileTree} {c : Certificate}
  {done certificates : List Certificate} {l : Location}

/-! ### Paths into the store -/

section

variable (hroot : s.root.IsPlain) (hc : c.IsNamed)
include hroot hc

theorem isPlain_folder : (s.folder c).IsPlain :=
  Path.isPlain_join (Certificate.slash_not_mem_folder hc.slash_not_mem) hroot
    ⟨Path.ne_dot_of_isName hc.isName_folder, c.folder_ne_dots⟩

theorem isPlain_file : (s.file c).IsPlain :=
  Path.isPlain_join (by decide) (isPlain_folder hroot hc) (by decide)

theorem steps_folder : (s.folder c).steps = s.root.steps ++ [c.folder] := by
  have htarget := (folder_target hroot hc.slash_not_mem).2
  rw [(isPlain_folder hroot hc).target_eq, Certificate.inside, if_pos hc.isName_folder,
    List.singleton_append, Path.location, Path.location, List.reverse_eq_iff] at htarget
  rw [htarget, List.reverse_cons, List.reverse_reverse]

theorem steps_file : (s.file c).steps = s.root.steps ++ [c.folder] ++ [Certificate.fileName] := by
  have htarget := (file_target hroot hc.slash_not_mem).2
  rw [(isPlain_file hroot hc).target_eq, hc.slot_eq, Path.location, Path.location,
    List.reverse_eq_iff] at htarget
  rw [htarget, List.reverse_append, List.reverse_reverse, List.append_assoc]
  rfl

end

/-! ### Contents -/

/-- The root leads to a directory with these certificates, whose paths can all be used. -/
structure Keeps (s : TrustStore) (certificates : List Certificate) (l : Location) (t : FileTree) :
    Prop where
  opens : t.Opens s.root.steps l
  holds : ∀ rel, t.entry? (rel ++ l) = contents certificates rel
  taken : ∀ c ∈ certificates, (s.file c).refusal? = none

theorem contents_ne_link (hnamed : ∀ c ∈ certificates, c.IsNamed) (rel : Location) (target : Path)
    : contents certificates rel ≠ some (.link target) := by
  rw [contents_eq_layout hnamed]
  exact layout_ne_link certificates rel target

/-- The folder has been made, and the file is written into it. -/
theorem keeps_of_write (hroot : s.root.IsPlain) (hc : c.IsNamed) (hdone : ∀ k ∈ done, k.IsNamed)
    (hheld : ∀ rel, t.entry? (rel ++ l) = contents done rel)
    (htaken : ∀ k ∈ done, (s.file k).refusal? = none) (hopens : v.Opens s.root.steps l)
    (hmade : ∀ m, v.entry? m = if m <:+ [c.folder] ++ l then some .directory else t.entry? m)
    (hwrite : v.write (s.file c) c.content.toUTF8 = .ok u) : s.Keeps (done ++ [c]) l u := by
  have hfolder := (isPlain_folder hroot hc).last (steps_folder hroot hc)
  have hinside : v.Opens (s.root.steps ++ [c.folder]) (c.folder :: l) := by
    apply hopens.concat hfolder
    rw [hmade]
    exact if_pos List.suffix_rfl
  have hmade' : ∀ rel, v.entry? (rel ++ l) =
      if rel <:+ [c.folder] then some .directory else contents done rel := by
    intro rel
    simp only [hmade, hheld, List.suffix_append_self_iff]
  have hlink : ∀ target, v.entry? ([Certificate.fileName, c.folder] ++ l) ≠
      some (.link target) := by
    intro target
    rw [hmade', if_neg (by simp [List.suffix_cons_iff])]
    exact contents_ne_link hdone _ target
  obtain ⟨hwithin, hfile, hwritten⟩ :=
    hinside.write (steps_file hroot hc) (by decide) hlink hwrite
  constructor
  . exact hopens.mono hwithin
  . intro rel
    rw [hwritten, hmade', contents_concat]
    by_cases hrel : rel = [Certificate.fileName, c.folder]
    . subst hrel
      rw [if_pos rfl]
      exact if_pos rfl
    . have hne : rel ++ l ≠ Certificate.fileName :: c.folder :: l :=
        fun heq => hrel (List.append_left_inj l |>.mp heq)
      have hsuffix : rel <:+ [Certificate.fileName, c.folder] ↔ rel <:+ [c.folder] := by
        rw [List.suffix_cons_iff]
        exact or_iff_right hrel
      rw [if_neg hne, if_neg hrel]
      simp only [hsuffix]
  . intro k hk
    rcases List.mem_append.mp hk with hk | hk
    . exact htaken k hk
    . rw [List.mem_singleton.mp hk]
      exact hfile

theorem Keeps.of_writing (hroot : s.root.IsPlain) (hc : c.IsNamed) (hdone : ∀ k ∈ done, k.IsNamed)
    (hkeeps : s.Keeps done l t) (h : Action.runAll (s.writing c) t = (.ok (), u))
    : s.Keeps (done ++ [c]) l u := by
  obtain ⟨v, hmake, h⟩ := Action.runAll_cons_eq_ok_iff.mp h
  obtain ⟨w, hwrite, h⟩ := Action.runAll_cons_eq_ok_iff.mp h
  injection h with _ h
  subst h
  rw [Action.perform] at hmake
  have hlink : ∀ target, t.entry? (c.folder :: l) ≠ some (.link target) := by
    intro target
    exact (hkeeps.holds [c.folder]).symm ▸ contents_ne_link hdone [c.folder] target
  obtain ⟨hopens, hmade⟩ := hkeeps.opens.makeDirectories (isPlain_folder hroot hc)
    (steps_folder hroot hc) hmake hlink
  exact keeps_of_write hroot hc hdone hkeeps.holds hkeeps.taken hopens hmade
    (Action.exists_of_perform_write hwrite)

/-- The first certificate makes the directory that the root leads to. -/
theorem exists_keeps_of_writing (hroot : s.root.IsPlain) (hc : c.IsNamed)
    (hvacant : ∀ l, ¬ t.Opens s.root.steps l) (h : Action.runAll (s.writing c) t = (.ok (), u))
    : ∃ l, s.Keeps [c] l u := by
  obtain ⟨v, hmake, h⟩ := Action.runAll_cons_eq_ok_iff.mp h
  obtain ⟨w, hwrite, h⟩ := Action.runAll_cons_eq_ok_iff.mp h
  injection h with _ h
  subst h
  rw [Action.perform] at hmake
  obtain ⟨l, hnone, hopens, hmade⟩ := FileTree.exists_opens_of_makeDirectories
    (isPlain_folder hroot hc) (steps_folder hroot hc) hmake hvacant
  have hheld : ∀ rel, t.entry? (rel ++ l) = contents [] rel := by
    intro rel
    rw [contents_nil]
    exact FileTree.entry?_eq_none_of_suffix hnone (List.suffix_append rel l)
  exact ⟨l, keeps_of_write hroot hc (List.forall_mem_nil _) hheld (List.forall_mem_nil _) hopens
    hmade (Action.exists_of_perform_write hwrite)⟩

theorem Keeps.of_writingAll (hroot : s.root.IsPlain) (hdone : ∀ k ∈ done, k.IsNamed)
    (hnamed : ∀ k ∈ certificates, k.IsNamed) (hkeeps : s.Keeps done l t)
    (h : Action.runAll (s.writingAll certificates) t = (.ok (), u))
    : s.Keeps (done ++ certificates) l u := by
  induction certificates generalizing done t with
  | nil =>
    injection h with _ h
    rw [List.append_nil, ← h]
    exact hkeeps
  | cons c certificates ih =>
    obtain ⟨hc, hnamed⟩ := List.forall_mem_cons.mp hnamed
    rw [writingAll, List.flatMap_cons, Action.runAll_append_eq_ok_iff] at h
    obtain ⟨v, hfirst, hrest⟩ := h
    have hdone' : ∀ k ∈ done ++ [c], k.IsNamed := by
      simpa [or_imp, forall_and] using And.intro hdone hc
    rw [List.append_cons]
    exact ih hdone' hnamed (hkeeps.of_writing hroot hc hdone hfirst) hrest

theorem exists_keeps_of_writingAll (hroot : s.root.IsPlain)
    (hnamed : ∀ k ∈ certificates, k.IsNamed) (hvacant : ∀ l, ¬ t.Opens s.root.steps l)
    (hne : certificates ≠ []) (h : Action.runAll (s.writingAll certificates) t = (.ok (), u))
    : ∃ l, s.Keeps certificates l u := by
  obtain ⟨c, rest, rfl⟩ := List.exists_cons_of_ne_nil hne
  obtain ⟨hc, hnamed⟩ := List.forall_mem_cons.mp hnamed
  rw [writingAll, List.flatMap_cons, Action.runAll_append_eq_ok_iff] at h
  obtain ⟨v, hfirst, hrest⟩ := h
  obtain ⟨l, hkeeps⟩ := exists_keeps_of_writing hroot hc hvacant hfirst
  exact ⟨l, hkeeps.of_writingAll hroot (by simpa using hc) hnamed hrest⟩

/-! ### Reading back -/

theorem find?_folder (hfolders : (certificates.map (·.folder)).Nodup) (hc : c ∈ certificates)
    : certificates.reverse.find? (·.folder = c.folder) = some c := by
  cases hfind : certificates.reverse.find? (·.folder = c.folder) with
  | none =>
    have hnone := List.find?_eq_none.mp hfind c (List.mem_reverse.mpr hc)
    simp at hnone
  | some k =>
    have hk := List.mem_reverse.mp (List.mem_of_find?_eq_some hfind)
    have hfolder : k.folder = c.folder := by simpa using List.find?_some hfind
    rw [List.inj_on_of_nodup_map hfolders hk hc hfolder]

theorem Keeps.read (hroot : s.root.IsPlain) (hc : c.IsNamed)
    (hfolders : (certificates.map (·.folder)).Nodup) (hkeeps : s.Keeps certificates l t)
    (hmem : c ∈ certificates) : t.read (s.file c) = .ok c.content.toUTF8 := by
  have hfolder := (isPlain_folder hroot hc).last (steps_folder hroot hc)
  have hinside : t.Opens (s.root.steps ++ [c.folder]) (c.folder :: l) := by
    apply hkeeps.opens.concat hfolder
    have hheld := hkeeps.holds [c.folder]
    rw [contents, if_pos (List.mem_map_of_mem hmem)] at hheld
    exact hheld
  have hheld := hkeeps.holds [Certificate.fileName, c.folder]
  rw [contents, if_pos rfl, find?_folder hfolders hmem] at hheld
  exact hinside.read (steps_file hroot hc) (by decide) (hkeeps.taken c hmem)
    (endsInSlash_file s c) (by decide) hheld

/-! ### The files in a store -/

/-- The files with the name of a certificate that are inside the store, wherever its root leads. -/
def files (s : TrustStore) (t : FileTree) : List Location :=
  match t.walk (fun _ => true) s.root with
  | .ok place => t.entries.keys.filter fun l =>
      place.location.isBelow l && l.head? = some Certificate.fileName &&
        (t.entry? l).any Entry.isFile
  | .error _ => []

theorem isFile_contents_iff {rel : Location}
    : (contents certificates rel).any Entry.isFile = true ↔
        ∃ c ∈ certificates, rel = [Certificate.fileName, c.folder] := by
  unfold contents
  split
  . split <;> simp [Entry.isFile]
  . split <;> simp [Entry.isFile]
  . next name folder =>
    split
    . next hname =>
      subst hname
      cases hfind : certificates.reverse.find? (·.folder = folder) with
      | none =>
        have hnone := List.find?_eq_none.mp hfind
        simp only [List.mem_reverse, decide_eq_true_eq] at hnone
        simpa [Entry.isFile] using fun c hc heq => hnone c hc heq.symm
      | some k =>
        have hk := List.mem_reverse.mp (List.mem_of_find?_eq_some hfind)
        have hfolder : k.folder = folder := by simpa using List.find?_some hfind
        simpa [Entry.isFile] using ⟨k, hk, hfolder.symm⟩
    . next hname => simp [hname]
  . next hfile => simpa [Entry.isFile] using fun c _ heq => hfile _ _ heq

theorem mem_files_iff {place : FileTree.Place} {m : Location}
    (hwalk : t.walk (fun _ => true) s.root = .ok place)
    : m ∈ s.files t ↔ place.location <:+ m ∧ m ≠ place.location ∧
        m.head? = some Certificate.fileName ∧ (t.entry? m).any Entry.isFile = true := by
  have hkey : (t.entry? m).any Entry.isFile = true → m ∈ t.entries.keys := by
    intro hfile
    cases m with
    | nil => contradiction
    | cons name parent =>
      rw [Std.ExtTreeMap.mem_keys, Std.ExtTreeMap.mem_iff_isSome_getElem?]
      rw [ FileTree.entry?, FileTree.Entries.at?] at hfile
      . cases hentry : t.entries[name :: parent]? with
        | none => simp [hentry] at hfile
        | some e => rfl
      . exact List.cons_ne_nil name parent
  simp only [files, hwalk, List.mem_filter, Bool.and_eq_true, Location.isBelow_iff,
    decide_eq_true_eq]
  constructor
  . rintro ⟨-, ⟨⟨hsuffix, hne⟩, hhead⟩, hfile⟩
    exact ⟨hsuffix, hne, hhead, hfile⟩
  . rintro ⟨hsuffix, hne, hhead, hfile⟩
    exact ⟨hkey hfile, ⟨⟨hsuffix, hne⟩, hhead⟩, hfile⟩

theorem nodup_files : (s.files t).Nodup := by
  unfold files
  split
  . exact Std.ExtTreeMap.nodup_keys.filter _
  . exact List.nodup_nil

theorem Keeps.length_files (htaken : s.root.refusal? = none) (hne : s.root ≠ .empty)
    (hfolders : (certificates.map (·.folder)).Nodup) (hkeeps : s.Keeps certificates l t)
    : (s.files t).length = certificates.length := by
  obtain ⟨place, hwalk, rfl⟩ := hkeeps.opens.walk htaken hne
  let path (folder : String) := Certificate.fileName :: folder :: place.location
  have hpath : Function.Injective path :=
    fun _ _ heq => (List.cons.inj (List.cons.inj heq).2).1
  have hperm : (s.files t).Perm ((certificates.map (·.folder)).map path) := by
    rw [List.perm_ext_iff_of_nodup nodup_files (List.Nodup.map hpath hfolders)]
    intro m
    rw [mem_files_iff hwalk, List.map_map, List.mem_map]
    constructor
    . rintro ⟨⟨rel, rfl⟩, -, -, hfile⟩
      rw [hkeeps.holds, isFile_contents_iff] at hfile
      obtain ⟨c, hc, rfl⟩ := hfile
      exact ⟨c, hc, rfl⟩
    . rintro ⟨c, hc, rfl⟩
      have hm : (path ∘ (·.folder)) c = [Certificate.fileName, c.folder] ++ place.location := rfl
      rw [hm, hkeeps.holds, isFile_contents_iff]
      refine ⟨List.suffix_append _ _, ?_, rfl, c, hc, rfl⟩
      rw [ne_eq, List.append_left_eq_self]
      exact List.cons_ne_nil _ _
  rw [hperm.length_eq, List.length_map, List.length_map]

theorem files_eq_nil (hvacant : ∀ l, ¬ t.Opens s.root.steps l) : s.files t = [] := by
  cases hwalk : t.walk (fun _ => true) s.root with
  | error e => rw [files, hwalk]
  | ok place =>
    apply List.eq_nil_iff_forall_not_mem.mpr
    intro m hm
    obtain ⟨hsuffix, hne, -, hfile⟩ := (mem_files_iff hwalk).mp hm
    have hsome : (t.entry? m).isSome := by
      cases hentry : t.entry? m with
      | none => simp [hentry] at hfile
      | some e => rfl
    have hdirectory := FileTree.directory_of_isSome hsuffix (Ne.symm hne) hsome
    have hfrom := (FileTree.walk_eq_ok hwalk).2
    rw [← List.append_nil s.root.steps] at hfrom
    obtain ⟨l, hopens, -⟩ :=
      FileTree.exists_enters_of_walkFrom (fun _ => ⟨fun _ => rfl, hdirectory⟩) hfrom
    exact hvacant l hopens

end RegistrySync.TrustStore
