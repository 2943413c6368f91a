import RegistrySync.Proofs.Configuration.LastWriter

/-!
Configurations that differ in the order of their entries only. Histories that say the same of every
registry, and mention the same registries, lead to such configurations.
-/

namespace RegistrySync

namespace Configuration

open Registry (Table)

theorem header_apply {c c' : Configuration} {change : Change} (h : c.apply change = .ok c')
    : c'.registries.header = c.registries.header := by
  unfold apply at h
  cases change with
  | setRegistryPolicy allowed blocked insecure =>
    simp only at h
    split at h
    . contradiction
    . injection h with h
      rw [← h, setRegistryPolicy_eq]
      simp only [Table.header_upsertAll]
      rfl
  | setMirrors registry mirrors =>
    injection h with h
    rw [← h]
    exact Table.header_upsert _ _ registry
  | clearMirrors registry =>
    simp only at h
    split at h
    . injection h with h
      rw [← h]
      exact Table.header_modify _ _ registry
    . contradiction
  | clearAllMirrors =>
    injection h with h
    rw [← h]
    rfl
  | replaceCertificates certificates =>
    injection h with h
    rw [← h]

theorem header_next (c : Configuration) (change : Change)
    : (c.next change).registries.header = c.registries.header := by
  unfold next
  split
  . next h => exact header_apply h
  . rfl

theorem header_after (h : History) : (after h).registries.header = Table.initial.header := by
  induction h using List.reverseRecOn with
  | nil => rfl
  | append_singleton h change ih => rw [after_concat, header_next, ih]

structure Alike (c d : Configuration) : Prop where
  header : c.registries.header = d.registries.header
  entries : c.registries.entries.toList.Perm d.registries.entries.toList
  policy : c.policy = d.policy
  certificates : c.certificates = d.certificates

theorem alike_after {h k : History} (haccess : h.accessLists = k.accessLists)
    (hcertificates : h.certificates = k.certificates) (hmirrors : ∀ r, h.mirrors r = k.mirrors r)
    (hmentioned : ∀ r, r ∈ h.mentioned ↔ r ∈ k.mentioned) : (after h).Alike (after k) where
  header := by rw [header_after, header_after]
  entries := by
    have hentry : h.entry = k.entry := by
      funext r
      rw [History.entry, History.entry, haccess, hmirrors]
    rw [(reads_after h).entries_eq, (reads_after k).entries_eq, hentry]
    apply List.Perm.map
    rw [List.perm_ext_iff_of_nodup]
    . exact hmentioned
    . rw [← (reads_after h).locations]
      exact (reads_after h).indexed.nodup_locations
    . rw [← (reads_after k).locations]
      exact (reads_after k).indexed.nodup_locations
  policy := by rw [(reads_after h).policy, (reads_after k).policy, haccess]
  certificates := by rw [(reads_after h).certificates, (reads_after k).certificates, hcertificates]

end Configuration
end RegistrySync
