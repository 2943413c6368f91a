import RegistrySync.Proofs.TrustStore.Layout

/-!
What a trust store holds: a folder for each registry, and in it the last certificate that came for
this folder. Registries whose folders have the same name share one.
-/

namespace RegistrySync

namespace Certificate

structure IsNamed (c : Certificate) : Prop where
  ne_empty : c.registry ≠ ""
  ne_dot : c.registry ≠ "."
  slash_not_mem : '/' ∉ c.registry.toList

instance (c : Certificate) : Decidable c.IsNamed :=
  decidable_of_iff (c.registry ≠ "" ∧ c.registry ≠ "." ∧ '/' ∉ c.registry.toList)
    ⟨fun h => ⟨h.1, h.2.1, h.2.2⟩, fun h => ⟨h.ne_empty, h.ne_dot, h.slash_not_mem⟩⟩

theorem IsNamed.isName_folder {c : Certificate} (hc : c.IsNamed)
    : Path.isName c.folder = true := by
  rw [← Bool.not_eq_false, Path.isName_eq_false_iff]
  rintro (h | h)
  . rw [folder, folderName, String.ofList_eq_empty_iff] at h
    apply colonForDots_ne_nil _ h
    rw [ne_eq, String.toList_eq_nil_iff]
    exact hc.ne_empty
  . have hchars := congrArg String.toList h
    rw [folder, folderName, String.toList_ofList] at hchars
    exact hc.ne_dot (String.toList_inj.mp (colonForDots_eq_dot hchars))

theorem IsNamed.slot_eq {c : Certificate} (hc : c.IsNamed) : c.slot = [fileName, c.folder] := by
  rw [slot, inside, if_pos hc.isName_folder]

end Certificate

namespace TrustStore

/-! ### Contents -/

/-- What stands in the store at a location inside it, and at its root. -/
def contents (certificates : List Certificate) : Location → Option FileTree.Entry
  | [] => if certificates = [] then none else some .directory
  | [folder] => if folder ∈ certificates.map (·.folder) then some .directory else none
  | [name, folder] =>
    if name = Certificate.fileName then
      (certificates.reverse.find? (·.folder = folder)).map fun c => .file c.content.toUTF8
    else none
  | _ => none

theorem contents_nil (rel : Location) : contents [] rel = none := by
  unfold contents
  split
  . rfl
  . rfl
  . exact ite_self none
  . rfl

theorem contents_concat (certificates : List Certificate) (c : Certificate) (rel : Location)
    : contents (certificates ++ [c]) rel =
        if rel = [Certificate.fileName, c.folder] then some (.file c.content.toUTF8)
        else if rel <:+ [Certificate.fileName, c.folder] then some .directory
        else contents certificates rel := by
  unfold contents
  split
  . simp
  . next folder =>
    by_cases hfolder : folder = c.folder
    . simp [hfolder]
    . simp [hfolder, List.suffix_cons_iff]
  . next name folder =>
    by_cases hfolder : folder = c.folder
    . by_cases hname : name = Certificate.fileName <;> simp [hfolder, hname, List.suffix_cons_iff]
    . simp [hfolder, Ne.symm hfolder, List.suffix_cons_iff]
  . next hroot hfolder hfile =>
    have hsuffix : ¬ rel <:+ [Certificate.fileName, c.folder] := by
      rw [List.suffix_cons_iff, List.suffix_cons_iff, List.suffix_nil]
      rintro (h | h | h)
      . exact hfile _ _ h
      . exact hfolder _ h
      . exact hroot h
    rw [if_neg (hfile _ _), if_neg hsuffix]

theorem contents_eq_layout {certificates : List Certificate}
    (hnamed : ∀ c ∈ certificates, c.IsNamed) (rel : Location)
    : contents certificates rel = layout certificates rel := by
  induction certificates using List.reverseRecOn with
  | nil => exact contents_nil rel
  | append_singleton certificates c ih =>
    rw [contents_concat, layout_concat, (hnamed c (by simp)).slot_eq,
      ih fun c hc => hnamed c (List.mem_append_left _ hc)]

/-! ### Writing the certificates -/

variable {s : TrustStore} {t u : FileTree}

def Holds (s : TrustStore) (certificates : List Certificate) (t : FileTree) : Prop :=
  ∀ rel, t.entry? (rel ++ s.root.location) = contents certificates rel

/-- Outside the store and not above it nothing has changed. -/
def LeavesAlone (s : TrustStore) (t u : FileTree) : Prop :=
  ∀ l, ¬ l <:+ s.root.location → ¬ s.root.location <:+ l → u.entry? l = t.entry? l

theorem holds_iff_hasLayout {certificates : List Certificate}
    (hnamed : ∀ c ∈ certificates, c.IsNamed)
    : s.Holds certificates t ↔ s.HasLayout certificates t := by
  rw [Holds, HasLayout]
  simp only [contents_eq_layout hnamed]

theorem holds_of_writingAll {certificates : List Certificate} (hroot : s.root.IsPlain)
    (hnamed : ∀ c ∈ certificates, c.IsNamed) (habove : t.LinkFree s.root.location.tail)
    (hheld : s.Holds [] t) (h : Action.runAll (s.writingAll certificates) t = (.ok (), u))
    : s.Holds certificates u ∧ s.LeavesAlone t u := by
  rw [holds_iff_hasLayout (List.forall_mem_nil _)] at hheld
  obtain ⟨hlayout, hspares⟩ :=
    HasLayout.of_writingAll hroot habove hheld (fun c hc => (hnamed c hc).slash_not_mem) h
  refine ⟨(holds_iff_hasLayout hnamed).mpr hlayout, ?_⟩
  intro l hbelow hoff
  rcases hspares l hoff with heq | ⟨habove, -⟩
  . exact heq
  . contradiction

end TrustStore
end RegistrySync
