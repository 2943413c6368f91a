import Mathlib.Data.List.Nodup
import RegistrySync.Proofs.Text.ByteOrder
import RegistrySync.Proofs.TrustStore.Contents

/-!
The folders of registries: a name without a colon can be read back from its folder, so the
certificates of a config map have a folder each.
-/

namespace RegistrySync

/-! ### The dots that become a colon -/

def twoDots : List Char := ['.', '.']

/-- Every colon is written as two dots again. -/
def dotsForColon (cs : List Char) : List Char :=
  cs.flatMap fun c => if c = ':' then twoDots else [c]

theorem dotsForColon_eq_self {cs : List Char} (h : ':' ∉ cs) : dotsForColon cs = cs := by
  induction cs with
  | nil => rfl
  | cons c cs ih =>
    obtain ⟨hc, h⟩ := not_or.mp (mt List.mem_cons.mpr h)
    rw [dotsForColon, List.flatMap_cons, if_neg (Ne.symm hc), ← dotsForColon, ih h,
      List.singleton_append]

theorem dotsForColon_colonForDots {cs : List Char} (h : ':' ∉ cs)
    : dotsForColon (colonForDots cs) = cs := by
  fun_induction colonForDots cs with
  | case1 rest =>
    have hrest : ':' ∉ rest := fun hmem => h (by simp [hmem])
    rw [dotsForColon, List.flatMap_cons, if_pos rfl, ← dotsForColon, dotsForColon_eq_self hrest]
    rfl
  | case2 c rest _ ih =>
    obtain ⟨hc, h⟩ := not_or.mp (mt List.mem_cons.mpr h)
    rw [dotsForColon, List.flatMap_cons, if_neg (Ne.symm hc), ← dotsForColon, ih h,
      List.singleton_append]
  | case3 => rfl

theorem colonForDots_eq_self_of_not_infix {cs : List Char} (h : ¬ twoDots <:+: cs)
    : colonForDots cs = cs := by
  fun_induction colonForDots cs with
  | case1 rest => exact absurd (List.prefix_append twoDots rest).isInfix h
  | case2 c rest _ ih => rw [ih fun hrest => h (hrest.trans (List.suffix_cons c rest).isInfix)]
  | case3 => rfl

/-- The dots in question are the leftmost ones, which with the dots before may be a longer run. -/
theorem exists_of_twoDots_infix {cs : List Char} (h : twoDots <:+: cs)
    : ∃ before after, cs = before ++ twoDots ++ after ∧ ¬ twoDots <:+: before ++ ['.'] ∧
        colonForDots cs = before ++ ':' :: after := by
  fun_induction colonForDots cs with
  | case1 rest => exact ⟨[], rest, rfl, by decide, rfl⟩
  | case2 c rest hdots ih =>
    have hrest : twoDots <:+: rest := by
      rcases List.infix_cons_iff.mp h with hstart | hrest
      . obtain ⟨after, hafter⟩ := hstart
        obtain ⟨hc, hafter⟩ := List.cons.inj hafter
        exact absurd hafter.symm (hdots after hc.symm)
      . exact hrest
    obtain ⟨before, after, rfl, hleft, heq⟩ := ih hrest
    refine ⟨c :: before, after, rfl, ?_, by rw [heq]; rfl⟩
    rw [List.cons_append, List.infix_cons_iff]
    rintro (hstart | hinfix)
    . obtain ⟨others, hothers⟩ := hstart
      obtain ⟨hc, hothers⟩ := List.cons.inj hothers
      cases before with
      | nil => exact hdots ('.' :: after) hc.symm rfl
      | cons b before =>
        obtain ⟨rfl, -⟩ := List.cons.inj hothers
        exact hdots _ hc.symm rfl
    . exact hleft hinfix
  | case3 => exact absurd h (by decide)

theorem folderName_injective {r s : String} (hr : ':' ∉ r.toList) (hs : ':' ∉ s.toList)
    (h : folderName r = folderName s) : r = s := by
  have hchars := congrArg String.toList h
  rw [folderName, folderName, String.toList_ofList, String.toList_ofList] at hchars
  rw [← String.toList_inj, ← dotsForColon_colonForDots hr, hchars, dotsForColon_colonForDots hs]

theorem folderName_eq_self {r : String} (h : ¬ twoDots <:+: r.toList) : folderName r = r := by
  rw [folderName, colonForDots_eq_self_of_not_infix h, String.ofList_toList]

theorem folderName_of_twoDots {r : String} (h : twoDots <:+: r.toList)
    : ∃ before after, r.toList = before ++ twoDots ++ after ∧ ¬ twoDots <:+: before ++ ['.'] ∧
        (folderName r).toList = before ++ ':' :: after := by
  rw [folderName, String.toList_ofList]
  exact exists_of_twoDots_infix h

/-! ### The certificates of a config map -/

namespace Certificate

variable (data : Std.ExtTreeMap String String)

theorem map_registry_ofMap : (ofMap data).map (·.registry) = data.keys := by
  rw [ofMap, List.map_map, ← Std.ExtTreeMap.map_fst_toList_eq_keys]
  rfl

theorem pairwise_ofMap
    : (ofMap data).Pairwise fun c k => Text.bytes c.registry < Text.bytes k.registry := by
  have hkeys : data.keys.Pairwise fun r s => compare r s = .lt := Std.ExtTreeMap.ordered_keys
  rw [← map_registry_ofMap, List.pairwise_map] at hkeys
  apply hkeys.imp
  intro c k hlt
  exact Text.bytes_lt_of_lt (compare_lt_iff_lt.mp hlt)

theorem mem_ofMap_iff {data : Std.ExtTreeMap String String} {c : Certificate}
    : c ∈ ofMap data ↔ data[c.registry]? = some c.content := by
  rw [← Std.ExtTreeMap.mem_toList_iff_getElem?_eq_some, ofMap, List.mem_map]
  constructor
  . rintro ⟨⟨registry, content⟩, hmem, rfl⟩
    exact hmem
  . intro hmem
    exact ⟨_, hmem, rfl⟩

theorem length_ofMap : (ofMap data).length = data.size := by
  rw [ofMap, List.length_map, Std.ExtTreeMap.length_toList]

theorem nodup_folder_ofMap {data : Std.ExtTreeMap String String}
    (hcolon : ∀ r : String, r ∈ data → ':' ∉ r.toList) : ((ofMap data).map (·.folder)).Nodup := by
  have hkeys : (data.keys.map folderName).Nodup := by
    rw [List.nodup_map_iff_inj_on Std.ExtTreeMap.nodup_keys]
    intro r hr s hs
    exact folderName_injective (hcolon r (Std.ExtTreeMap.mem_keys.mp hr))
      (hcolon s (Std.ExtTreeMap.mem_keys.mp hs))
  rw [← map_registry_ofMap, List.map_map] at hkeys
  exact hkeys

end Certificate

end RegistrySync
