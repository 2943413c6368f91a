import RegistrySync.Proofs.Registry.Operations
import RegistrySync.Proofs.Toml.RoundTrip
import RegistrySync.Registry.Document

/-!
The document of a registry table is read back: it says what the table holds, and nothing else.
-/

namespace RegistrySync.Registry

namespace Entry

/-- What the table of an entry says. A flag is there exactly if it is set. -/
def members (e : Entry) : Toml.Members :=
  [("location", .text e.location), ("prefix", .text e.imagePrefix),
      ("mirror", .array (e.mirrors.map .text))] ++
    [("blocked", e.blocked), ("allowed", e.allowed), ("insecure", e.insecure)].filterMap
      fun (key, flag) => if flag = some true then some (key, .bool true) else none

section

variable {e : Entry} (h : e.Tidy)
include h

theorem members_pairs : e.pairs.members = e.members := by
  obtain ⟨location, imagePrefix, mirrors, blocked, allowed, insecure⟩ := e
  obtain ⟨hblocked | hblocked, hallowed | hallowed, hinsecure | hinsecure, -⟩ := h
  all_goals
    dsimp only at hblocked hallowed hinsecure
    subst hblocked hallowed hinsecure
    rfl

theorem lookup_members
    : e.members.lookup "blocked" = e.blocked.map .bool ∧
        e.members.lookup "allowed" = e.allowed.map .bool ∧
        e.members.lookup "insecure" = e.insecure.map .bool := by
  obtain ⟨location, imagePrefix, mirrors, blocked, allowed, insecure⟩ := e
  obtain ⟨hblocked | hblocked, hallowed | hallowed, hinsecure | hinsecure, -⟩ := h
  all_goals
    dsimp only at hblocked hallowed hinsecure
    subst hblocked hallowed hinsecure
    exact ⟨rfl, rfl, rfl⟩

end

theorem eq_of_members_eq {e e' : Entry} (he : e.Tidy) (he' : e'.Tidy) (h : e.members = e'.members)
    : e = e' := by
  obtain ⟨hblocked, hallowed, hinsecure⟩ := lookup_members he
  rw [h] at hblocked hallowed hinsecure
  obtain ⟨hblocked', hallowed', hinsecure'⟩ := lookup_members he'
  have hflags : Function.Injective (Option.map Toml.Node.bool) :=
    Option.map_injective fun _ _ => Toml.Node.bool.inj
  have hblocked := hflags (hblocked.symm.trans hblocked')
  have hallowed := hflags (hallowed.symm.trans hallowed')
  have hinsecure := hflags (hinsecure.symm.trans hinsecure')
  simp only [members, List.cons_append, List.cons.injEq, Prod.mk.injEq, true_and,
    Toml.Node.text.injEq, Toml.Node.array.injEq] at h
  obtain ⟨hlocation, hprefix, hmirrors, -⟩ := h
  have hmirrors := List.map_injective_iff.mpr (fun _ _ => Toml.Node.text.inj) hmirrors
  obtain ⟨location, imagePrefix, mirrors, blocked, allowed, insecure⟩ := e
  obtain ⟨location', imagePrefix', mirrors', blocked', allowed', insecure'⟩ := e'
  dsimp only at hlocation hprefix hmirrors hblocked hallowed hinsecure
  rw [hlocation, hprefix, hmirrors, hblocked, hallowed, hinsecure]

theorem keys_flag (key : String) (flag : Option Bool)
    : (Entry.flag key flag).keys.Sublist [key] := by
  cases flag with
  | none => exact List.nil_sublist _
  | some b => exact List.Sublist.refl _

theorem keys_pairs (e : Entry)
    : e.pairs.keys.Sublist ["location", "prefix", "mirror", "blocked", "allowed", "insecure"] := by
  have hflags := ((keys_flag "blocked" e.blocked).append (keys_flag "allowed" e.allowed)).append
    (keys_flag "insecure" e.insecure)
  have hkeys := (List.Sublist.refl ["location", "prefix", "mirror"]).append hflags
  simpa [pairs, Toml.Pairs.keys] using hkeys

end Entry

namespace Table

def members (t : Table) : Toml.Members :=
  [("unqualified-search-registries", .array (t.searchRegistries.map .text)),
    ("short-name-mode", .text t.shortNameMode),
    ("registry", .array (t.entries.toList.map fun e => .table e.members))]

theorem clear_document (t : Table) : t.document.Clear where
  name := show Toml.IsKey "registry" by decide
  top := show ∀ key ∈ ["unqualified-search-registries", "short-name-mode"], Toml.IsKey key by decide
  tables := by
    intro pairs hpairs key hkey
    obtain ⟨e, -, rfl⟩ := List.mem_map.mp hpairs
    have hkeys : ∀ key ∈ ["location", "prefix", "mirror", "blocked", "allowed", "insecure"],
        Toml.IsKey key := by
      decide
    exact hkeys key (e.keys_pairs.subset hkey)
  nodup_top :=
    show ["registry", "unqualified-search-registries", "short-name-mode"].Nodup by decide
  nodup_tables := by
    intro pairs hpairs
    obtain ⟨e, -, rfl⟩ := List.mem_map.mp hpairs
    exact e.keys_pairs.nodup (by decide)

theorem members_document {t : Table} (h : t.Tidy) : t.document.members = t.members := by
  have hentries : t.entries.toList.map (fun e => Toml.Node.table e.pairs.members) =
      t.entries.toList.map (fun e => .table e.members) := by
    apply List.map_congr_left
    intro e he
    rw [Entry.members_pairs (h e (Array.mem_toList_iff.mp he))]
  rw [Toml.Document.members, document, List.map_map, Function.comp_def, hentries]
  rfl

theorem entries_eq_of_members_eq {t t' : Table} (ht : t.Tidy) (ht' : t'.Tidy)
    (h : t.members = t'.members) : t.entries = t'.entries := by
  have htables : t.entries.toList.map (fun e => Toml.Node.table e.members) =
      t'.entries.toList.map (fun e => .table e.members) := by
    simp only [members, List.cons.injEq, Prod.mk.injEq, true_and, Toml.Node.array.injEq] at h
    exact h.2.2.1
  have hsize := congrArg List.length htables
  rw [List.length_map, List.length_map] at hsize
  apply Array.ext'
  apply List.ext_getElem hsize
  intro i hi hi'
  have hmembers := List.getElem_of_eq htables (i := i) (by rwa [List.length_map])
  rw [List.getElem_map, List.getElem_map] at hmembers
  exact Entry.eq_of_members_eq (ht _ (Array.mem_toList_iff.mp (List.getElem_mem hi)))
    (ht' _ (Array.mem_toList_iff.mp (List.getElem_mem hi'))) (Toml.Node.table.inj hmembers)

/-- The text of a table is read as what the table says, so tables of one text have the same
entries. -/
theorem toml_round_trip (operations : List Operation)
    : Toml.read? (after operations).toToml = some (after operations).members ∧
        ∀ others, (after operations).toToml = (after others).toToml ↔
          (after operations).entries = (after others).entries := by
  have hread : ∀ operations, Toml.read? (after operations).toToml =
      some (after operations).members := by
    intro operations
    rw [toToml, Toml.read?_print (clear_document _), members_document (tidy_after operations)]
  refine ⟨hread operations, fun others => ⟨fun h => ?_, fun h => ?_⟩⟩
  . have hmembers := hread operations
    rw [h, hread others] at hmembers
    exact entries_eq_of_members_eq (tidy_after operations) (tidy_after others)
      (Option.some.inj hmembers).symm
  . have hheader := (header_after operations).trans (header_after others).symm
    obtain ⟨hsearch, hmode⟩ := Prod.mk.inj hheader
    rw [toToml, toToml, document, document, hsearch, hmode, h]

end Table
end RegistrySync.Registry
