import RegistrySync.Proofs.Configuration.LastWriter

/-!
Registries and signature policy agree in every configuration that changes lead to: what is blocked
is what is rejected, and nothing is allowed while something is blocked.
-/

namespace RegistrySync

namespace Registry.Table

def blocked (t : Table) : List String :=
  (t.entries.toList.filter (·.blocked = some true)).map (·.location)

theorem Indexed.mem_blocked {t : Table} (h : t.Indexed) (r : String)
    : r ∈ t.blocked ↔ ∃ e, t.find? r = some e ∧ e.blocked = some true := by
  simp only [blocked, List.mem_map, List.mem_filter, h.find?_eq_some_iff, Array.mem_toList_iff,
    decide_eq_true_eq]
  constructor
  . rintro ⟨e, ⟨he, hblocked⟩, hlocation⟩
    exact ⟨e, ⟨he, hlocation⟩, hblocked⟩
  . rintro ⟨e, ⟨he, hlocation⟩, hblocked⟩
    exact ⟨e, ⟨he, hblocked⟩, hlocation⟩

end Registry.Table

namespace Configuration.Reads

variable {c : Configuration} {h : History} (hreads : c.Reads h)
include hreads

theorem mem_blocked (r : String) : r ∈ c.registries.blocked ↔ r ∈ h.accessLists.blocked := by
  rw [hreads.indexed.mem_blocked]
  constructor
  . rintro ⟨e, hfind?, hblocked⟩
    have hentry := hreads.getD_find? r
    rw [hfind?, Option.getD_some] at hentry
    subst hentry
    simpa [History.entry] using hblocked
  . intro hr
    refine ⟨h.entry r, hreads.find? r ?_, by simp [History.entry, hr]⟩
    apply h.mem_mentioned_of_mem_accessLists r
    simp [hr]

theorem hasAllowedAndBlocked_eq_false : c.registries.hasAllowedAndBlocked = false := by
  unfold Registry.Table.hasAllowedAndBlocked
  rw [← Array.any_toList, ← Array.any_toList, hreads.entries_eq]
  rcases h.allowed_eq_nil_or_blocked_eq_nil with hnone | hnone
  . have : (h.mentioned.map h.entry).any (·.allowed.isSome) = false := by
      simp [History.entry, hnone]
    rw [this, Bool.false_and]
  . have : (h.mentioned.map h.entry).any (·.blocked.isSome) = false := by
      simp [History.entry, hnone]
    rw [this, Bool.and_false]

theorem policy_eq_rejecting_blocked : c.policy = .rejecting c.registries.blocked := by
  rw [hreads.policy]
  apply Policy.rejecting_congr
  intro r
  rw [hreads.mem_blocked]

end Configuration.Reads

namespace Configuration

theorem after_rejects_blocked (h : History)
    : (after h).registries.hasAllowedAndBlocked = false ∧
      (after h).policy = .rejecting (after h).registries.blocked ∧
      (∀ r, (after h).policy.isRejected r = true ↔
        ∃ e, (after h).registries.find? r = some e ∧ e.blocked = some true) ∧
      (∀ r, r ∈ (after h).policy.rejected ↔ r ∈ (after h).registries.blocked) ∧
      (after h).policy.rejected.Pairwise fun r s => Text.bytes r < Text.bytes s := by
  have hreads := reads_after h
  have hpolicy := hreads.policy_eq_rejecting_blocked
  refine ⟨hreads.hasAllowedAndBlocked_eq_false, hpolicy, ?_, ?_, Policy.pairwise_rejected _⟩
  . intro r
    rw [hpolicy, Policy.isRejected_rejecting, hreads.indexed.mem_blocked]
  . intro r
    rw [hpolicy, Policy.mem_rejected_rejecting]

end Configuration
end RegistrySync
