import Mathlib.Data.List.Nodup
import RegistrySync.Proofs.Sequence
import RegistrySync.Registry.Table

/-!
The index of the registry table agrees with its entries. Under this invariant each operation is
described by the locations it leaves and by what is then found at a location.
-/

namespace RegistrySync.Registry

namespace Entry

@[simp]
theorem location_fresh (location : String) : (fresh location).location = location := rfl

@[simp]
theorem location_setMirrors (mirrors : List String) (e : Entry)
    : (e.setMirrors mirrors).location = e.location := rfl

@[simp]
theorem location_clearMirrors (e : Entry) : e.clearMirrors.location = e.location := rfl

@[simp]
theorem location_allow (e : Entry) : e.allow.location = e.location := rfl

@[simp]
theorem location_block (e : Entry) : e.block.location = e.location := rfl

@[simp]
theorem location_markInsecure (e : Entry) : e.markInsecure.location = e.location := rfl

@[simp]
theorem location_resetAccess (e : Entry) : e.resetAccess.location = e.location := rfl

theorem allow_allow (e : Entry) : e.allow.allow = e.allow := rfl

theorem block_block (e : Entry) : e.block.block = e.block := rfl

theorem markInsecure_markInsecure (e : Entry) : e.markInsecure.markInsecure = e.markInsecure := rfl

end Entry

namespace Table

def locations (t : Table) : List String :=
  t.entries.toList.map (·.location)

/-- The index leads to a position exactly if the entry there has the location. -/
def Indexed (t : Table) : Prop :=
  ∀ (location : String) (position : Nat),
    t.index[location]? = some position ↔ t.locations[position]? = some location

theorem getElem?_locations (t : Table) (position : Nat)
    : t.locations[position]? = t.entries[position]?.map (·.location) := by
  simp [locations]

theorem mem_locations (t : Table) (location : String)
    : location ∈ t.locations ↔ ∃ e ∈ t.entries, e.location = location := by
  simp [locations]

theorem length_locations (t : Table) : t.locations.length = t.entries.size := by
  simp [locations]

theorem indexed_initial : initial.Indexed := by
  intro location position
  simp [initial, locations]

theorem Indexed.of_eq {s t : Table} (h : t.Indexed) (hindex : s.index = t.index)
    (hlocations : s.locations = t.locations) : s.Indexed := by
  intro location position
  rw [hindex, hlocations]
  exact h location position

variable {t : Table}

theorem Indexed.index_eq_none_iff (h : t.Indexed) (location : String)
    : t.index[location]? = none ↔ location ∉ t.locations := by
  rw [List.mem_iff_getElem?, Option.eq_none_iff_forall_ne_some]
  simp only [ne_eq, h location, not_exists]

theorem Indexed.contains_index (h : t.Indexed) (location : String)
    : t.index.contains location = true ↔ location ∈ t.locations := by
  rw [Std.ExtTreeMap.contains_eq_isSome_getElem?, Option.isSome_iff_ne_none, ne_eq,
    h.index_eq_none_iff, not_not]

theorem Indexed.nodup_locations (h : t.Indexed) : t.locations.Nodup := by
  rw [List.nodup_iff_getElem?_ne_getElem?]
  intro i j hij hj heq
  obtain ⟨location, hlocation⟩ : ∃ location, t.locations[j]? = some location :=
    ⟨_, List.getElem?_eq_getElem hj⟩
  have hi := (h location i).mpr (heq.trans hlocation)
  have hj := (h location j).mpr hlocation
  rw [hi] at hj
  injection hj
  omega

theorem find?_eq_bind (t : Table) (location : String)
    : t.find? location = t.index[location]?.bind (t.entries[·]?) := rfl

theorem Indexed.find?_eq_some_iff (h : t.Indexed) (location : String) (e : Entry)
    : t.find? location = some e ↔ e ∈ t.entries ∧ e.location = location := by
  rw [find?_eq_bind, Option.bind_eq_some_iff, Array.mem_iff_getElem?]
  constructor
  . rintro ⟨position, hindex, hentry⟩
    have hlocation := (h location position).mp hindex
    rw [getElem?_locations, hentry] at hlocation
    exact ⟨⟨position, hentry⟩, by simpa using hlocation⟩
  . rintro ⟨⟨position, hentry⟩, hlocation⟩
    refine ⟨position, ?_, hentry⟩
    rw [h location position, getElem?_locations, hentry, Option.map_some, hlocation]

theorem Indexed.find?_isSome_iff (h : t.Indexed) (location : String)
    : (t.find? location).isSome ↔ location ∈ t.locations := by
  rw [Option.isSome_iff_exists, mem_locations]
  simp only [h.find?_eq_some_iff]

theorem Indexed.find?_eq_none_iff (h : t.Indexed) (location : String)
    : t.find? location = none ↔ location ∉ t.locations := by
  rw [← h.find?_isSome_iff, Bool.not_eq_true, Option.isSome_eq_false_iff, Option.isNone_iff_eq_none]

theorem Indexed.find?_eq_none_iff_forall (h : t.Indexed) (location : String)
    : t.find? location = none ↔ ∀ e ∈ t.entries, e.location ≠ location := by
  rw [h.find?_eq_none_iff, mem_locations]
  simp only [not_exists, not_and, ne_eq]

theorem Indexed.map_find?_locations (h : t.Indexed)
    : t.locations.map t.find? = t.entries.toList.map some := by
  rw [locations, List.map_map]
  apply List.map_congr_left
  intro e he
  rw [Function.comp_apply, h.find?_eq_some_iff]
  exact ⟨Array.mem_toList_iff.mp he, rfl⟩

/-! ### Appending -/

theorem Indexed.locations_ensure (h : t.Indexed) (location : String)
    : (t.ensure location).locations =
        if location ∈ t.locations then t.locations else t.locations ++ [location] := by
  unfold ensure
  simp only [h.contains_index]
  split
  . rfl
  . simp [locations]

theorem Indexed.ensure (h : t.Indexed) (location : String) : (t.ensure location).Indexed := by
  intro other position
  rw [h.locations_ensure]
  unfold Table.ensure
  simp only [h.contains_index]
  split
  . exact h other position
  . next hfresh =>
    rw [Sequence.getElem?_concat_eq_some_iff, t.length_locations]
    simp only [Std.ExtTreeMap.getElem?_insert, Std.LawfulEqOrd.compare_eq_iff_eq]
    split
    . next heq =>
      subst heq
      have hnew : t.locations[position]? ≠ some location :=
        fun hold => hfresh (List.mem_of_getElem? hold)
      simp [hnew, eq_comm]
    . next hne => simp [hne, h other position]

theorem Indexed.find?_ensure (h : t.Indexed) (location r : String)
    : (t.ensure location).find? r =
        if r = location then some ((t.find? r).getD (.fresh r)) else t.find? r := by
  by_cases hmem : location ∈ t.locations
  . have hensure : t.ensure location = t := by
      unfold Table.ensure
      rw [if_pos ((h.contains_index location).mpr hmem)]
    rw [hensure]
    split
    . next heq =>
      subst heq
      obtain ⟨e, he⟩ := Option.isSome_iff_exists.mp ((h.find?_isSome_iff r).mpr hmem)
      rw [he, Option.getD_some]
    . rfl
  . have hentries : (t.ensure location).entries = t.entries.push (.fresh location) := by
      unfold Table.ensure
      rw [if_neg (by rwa [h.contains_index])]
    split
    . next heq =>
      subst heq
      rw [(h.find?_eq_none_iff r).mpr hmem, Option.getD_none, (h.ensure r).find?_eq_some_iff,
        hentries]
      simp
    . next hne =>
      apply Option.ext
      intro e
      rw [(h.ensure location).find?_eq_some_iff, h.find?_eq_some_iff, hentries, Array.mem_push]
      constructor
      . rintro ⟨he | rfl, hlocation⟩
        . exact ⟨he, hlocation⟩
        . exact absurd hlocation.symm hne
      . rintro ⟨he, hlocation⟩
        exact ⟨.inl he, hlocation⟩

/-! ### Changing one entry -/

variable {change : Entry → Entry} (hchange : ∀ e, (change e).location = e.location)
include hchange

theorem locations_modify (t : Table) (location : String)
    : (t.modify location change).locations = t.locations := by
  apply List.ext_getElem?
  intro position
  rw [getElem?_locations, getElem?_locations]
  unfold modify
  split
  . simp only [Array.getElem?_modify]
    split
    . rw [Option.map_map]
      apply Option.map_congr
      intro e _
      exact hchange e
    . rfl
  . rfl

theorem Indexed.modify (h : t.Indexed) (location : String)
    : (t.modify location change).Indexed := by
  apply h.of_eq
  . unfold Table.modify
    split <;> rfl
  . exact locations_modify hchange t location

omit hchange in
theorem Indexed.find?_modify (h : t.Indexed) (location r : String)
    : (t.modify location change).find? r =
        if r = location then (t.find? r).map change else t.find? r := by
  unfold Table.modify
  split
  . next position hposition =>
    simp only [find?_eq_bind]
    cases hr : t.index[r]? with
    | none => simp
    | some other =>
      have hiff : position = other ↔ r = location := by
        constructor
        . rintro rfl
          have hlocation := (h location position).mp hposition
          rw [(h r position).mp hr] at hlocation
          injection hlocation
        . rintro rfl
          rw [hposition] at hr
          injection hr
      simp only [Option.bind_some, Array.getElem?_modify, hiff]
  . next hnone =>
    split
    . next heq =>
      subst heq
      rw [find?_eq_bind, hnone]
      rfl
    . rfl

omit hchange

theorem index_modify (t : Table) (location : String)
    : (t.modify location change).index = t.index := by
  unfold modify
  split <;> rfl

theorem isSome_find?_modify (t : Table) (location r : String)
    : ((t.modify location change).find? r).isSome = (t.find? r).isSome := by
  rw [find?_eq_bind, find?_eq_bind, index_modify]
  cases t.index[r]? with
  | none => rfl
  | some position =>
    unfold modify
    split
    . simp only [Option.bind_some, Array.getElem?_modify]
      split
      . rw [Option.isSome_map]
      . rfl
    . rfl

/-- An index that names no entry is no obstacle, so this needs no well-formed table. -/
theorem modify_comm (t : Table) (location other : String)
    : (t.modify location change).modify other change =
        (t.modify other change).modify location change := by
  unfold modify
  cases hlocation : t.index[location]? with
  | none => cases t.index[other]? <;> simp [hlocation]
  | some position =>
    cases t.index[other]? with
    | none => simp [hlocation]
    | some position' =>
      simp only [hlocation]
      congr 1
      apply Array.ext_getElem?
      intro i
      simp only [Array.getElem?_modify]
      split <;> split <;> rfl

theorem modify_of_find?_eq_none {t : Table} {location : String} (h : t.find? location = none)
    : t.modify location change = t := by
  unfold modify
  split
  . next position hposition =>
    rw [find?_eq_bind, hposition, Option.bind_some, Array.getElem?_eq_none_iff] at h
    have hentries : t.entries.modify position change = t.entries := by
      apply Array.ext_getElem?
      intro i
      rw [Array.getElem?_modify]
      split
      . next hi =>
        rw [← hi, Array.getElem?_eq_none h]
        rfl
      . rfl
    rw [hentries]
  . rfl

/-! ### Changing an entry that is created if there is none -/

include hchange

theorem Indexed.upsert (h : t.Indexed) (location : String)
    : (t.upsert location change).Indexed :=
  (h.ensure location).modify hchange location

theorem Indexed.locations_upsert (h : t.Indexed) (location : String)
    : (t.upsert location change).locations =
        if location ∈ t.locations then t.locations else t.locations ++ [location] := by
  unfold Table.upsert
  rw [locations_modify hchange, h.locations_ensure]

omit hchange in
theorem Indexed.find?_upsert (h : t.Indexed) (location r : String)
    : (t.upsert location change).find? r =
        if r = location then some (change ((t.find? r).getD (.fresh r))) else t.find? r := by
  unfold Table.upsert
  rw [(h.ensure location).find?_modify, h.find?_ensure]
  split <;> rfl

/-! ### Changing the entries of several locations -/

def upsertAll (t : Table) (registries : List String) (change : Entry → Entry) : Table :=
  registries.foldl (fun t r => t.upsert r change) t

theorem Indexed.upsertAll (h : t.Indexed) (registries : List String)
    : (t.upsertAll registries change).Indexed := by
  induction registries generalizing t with
  | nil => exact h
  | cons r registries ih => exact ih (h.upsert hchange r)

theorem Indexed.locations_upsertAll (h : t.Indexed) {mentioned : List String}
    (hmentioned : t.locations = mentioned.eraseDups) (registries : List String)
    : (t.upsertAll registries change).locations = (mentioned ++ registries).eraseDups := by
  induction registries generalizing t mentioned with
  | nil => rw [List.append_nil, Table.upsertAll, List.foldl_nil, hmentioned]
  | cons r registries ih =>
    have hlocations : (t.upsert r change).locations = (mentioned ++ [r]).eraseDups := by
      rw [h.locations_upsert hchange, Sequence.eraseDups_concat, hmentioned]
      simp only [List.mem_eraseDups]
    rw [← List.singleton_append, ← List.append_assoc]
    exact ih (h.upsert hchange r) hlocations

/-- A change that may be made twice is made once at each of the locations. -/
theorem Indexed.find?_upsertAll (h : t.Indexed) (hidem : ∀ e, change (change e) = change e)
    (registries : List String) (r : String)
    : (t.upsertAll registries change).find? r =
        if r ∈ registries then some (change ((t.find? r).getD (.fresh r))) else t.find? r := by
  induction registries generalizing t with
  | nil => simp [Table.upsertAll]
  | cons s registries ih =>
    rw [Table.upsertAll, List.foldl_cons, ← Table.upsertAll, ih (h.upsert hchange s),
      h.find?_upsert]
    by_cases hs : r = s
    . simp [hs, hidem]
    . simp [hs]

omit hchange

/-! ### Changing every entry -/

def mapEntries (t : Table) (change : Entry → Entry) : Table :=
  { t with entries := t.entries.map change }

theorem resetAccess_eq_mapEntries (t : Table) : t.resetAccess = t.mapEntries .resetAccess := rfl

theorem clearMirrors_eq_mapEntries (t : Table) : t.clearMirrors = t.mapEntries .clearMirrors := rfl

theorem find?_mapEntries (t : Table) (r : String)
    : (t.mapEntries change).find? r = (t.find? r).map change := by
  simp only [find?_eq_bind, mapEntries]
  cases t.index[r]? with
  | none => rfl
  | some position => simp

include hchange

theorem locations_mapEntries (t : Table) : (t.mapEntries change).locations = t.locations := by
  simp [locations, mapEntries, hchange]

theorem Indexed.mapEntries (h : t.Indexed) : (t.mapEntries change).Indexed :=
  h.of_eq rfl (locations_mapEntries hchange t)

omit hchange

/-! ### What no operation changes -/

def header (t : Table) : List String × String :=
  (t.searchRegistries, t.shortNameMode)

variable (t : Table) (change : Entry → Entry)

theorem header_ensure (location : String) : (t.ensure location).header = t.header := by
  unfold Table.ensure
  split <;> rfl

theorem header_modify (location : String) : (t.modify location change).header = t.header := by
  unfold Table.modify
  split <;> rfl

theorem header_upsert (location : String) : (t.upsert location change).header = t.header := by
  rw [Table.upsert, header_modify, header_ensure]

theorem header_upsertAll (registries : List String)
    : (t.upsertAll registries change).header = t.header := by
  induction registries generalizing t with
  | nil => rfl
  | cons r registries ih => rw [upsertAll, List.foldl_cons, ← upsertAll, ih, header_upsert]

end Table
end RegistrySync.Registry
