import Mathlib.Data.Option.Basic
import RegistrySync.Proofs.Configuration.History

/-!
Running a history of changes from the initial configuration gives the configuration that the
history determines by its last writers.
-/

namespace RegistrySync.Configuration

open Registry (Table Entry)

/-- A refused change leaves the configuration as it was. -/
def next (c : Configuration) (change : Change) : Configuration :=
  match c.apply change with
  | .ok c => c
  | .error _ => c

def after (h : History) : Configuration :=
  h.foldl next initial

theorem sink_configuration (c : Configuration) (change : Change)
    : (Sink.configuration change c).2 = c.next change := by
  unfold Sink.configuration next
  cases c.apply change <;> rfl

theorem after_concat (h : History) (change : Change)
    : after (h ++ [change]) = (after h).next change := by
  rw [after, List.foldl_append]
  rfl

theorem apply_eq_error_iff (c : Configuration) (change : Change) (cause : Refusal)
    : c.apply change = .error cause ↔
        (∃ allowed blocked insecure, change = .setRegistryPolicy allowed blocked insecure ∧
          allowed ≠ [] ∧ blocked ≠ [] ∧ cause = .allowedAndBlocked) ∨
        (∃ registry, change = .clearMirrors registry ∧ c.registries.find? registry = none ∧
          cause = .unknownRegistry registry) := by
  unfold apply
  cases change with
  | setRegistryPolicy allowed blocked insecure =>
    cases allowed <;> cases blocked <;> simp [eq_comm]
  | clearMirrors registry =>
    cases hfind? : c.registries.find? registry <;> simp [hfind?, eq_comm]
  | _ => simp

/-! ### The registry policy -/

theorem foldl_allow (c : Configuration) (rs : List String)
    : rs.foldl allow c = { c with registries := c.registries.upsertAll rs .allow } := by
  induction rs generalizing c with
  | nil => rfl
  | cons r rs ih =>
    rw [List.foldl_cons, ih]
    rfl

theorem foldl_block (c : Configuration) (rs : List String)
    : rs.foldl block c =
        { c with
          registries := c.registries.upsertAll rs .block
          policy := rs.foldl Policy.reject c.policy } := by
  induction rs generalizing c with
  | nil => rfl
  | cons r rs ih =>
    rw [List.foldl_cons, ih]
    rfl

theorem foldl_markInsecure (c : Configuration) (rs : List String)
    : rs.foldl markInsecure c =
        { c with registries := c.registries.upsertAll rs .markInsecure } := by
  induction rs generalizing c with
  | nil => rfl
  | cons r rs ih =>
    rw [List.foldl_cons, ih]
    rfl

theorem setRegistryPolicy_eq (c : Configuration) (allowed blocked insecure : List String)
    : c.setRegistryPolicy allowed blocked insecure =
        { c with
          registries := ((c.registries.resetAccess.upsertAll allowed .allow).upsertAll
            blocked .block).upsertAll insecure .markInsecure
          policy := blocked.foldl Policy.reject c.policy.resetTransports } := by
  rw [setRegistryPolicy, foldl_allow, foldl_block, foldl_markInsecure]
  rfl

/-! ### What a configuration has in common with a history -/

structure Reads (c : Configuration) (h : History) : Prop where
  indexed : c.registries.Indexed
  locations : c.registries.locations = h.mentioned
  find? : ∀ r ∈ h.mentioned, c.registries.find? r = some (h.entry r)
  policy : c.policy = .rejecting h.accessLists.blocked
  certificates : c.certificates = h.certificates

theorem reads_initial : initial.Reads [] where
  indexed := Table.indexed_initial
  locations := rfl
  find? := by simp [History.mentioned]
  policy := Policy.rejecting_nil.symm
  certificates := rfl

namespace Reads

variable {c : Configuration} {h : History} (hreads : c.Reads h)
include hreads

theorem find?_eq_none (r : String) (hr : r ∉ h.mentioned) : c.registries.find? r = none := by
  rw [hreads.indexed.find?_eq_none_iff, hreads.locations]
  exact hr

theorem find?_isSome_iff (r : String) : (c.registries.find? r).isSome ↔ r ∈ h.mentioned := by
  rw [hreads.indexed.find?_isSome_iff, hreads.locations]

theorem getD_find? (r : String) : (c.registries.find? r).getD (.fresh r) = h.entry r := by
  by_cases hr : r ∈ h.mentioned
  . rw [hreads.find? r hr, Option.getD_some]
  . rw [hreads.find?_eq_none r hr, Option.getD_none, h.entry_of_not_mem r hr]

theorem entries_eq : c.registries.entries.toList = h.mentioned.map h.entry := by
  apply List.map_injective_iff.mpr (Option.some_injective Entry)
  rw [← hreads.indexed.map_find?_locations, hreads.locations, List.map_map]
  apply List.map_congr_left
  exact hreads.find?

theorem setMirrors (registry : String) (mirrors : List String)
    : Reads { c with registries := c.registries.upsert registry (.setMirrors mirrors) }
        (h ++ [.setMirrors registry mirrors]) where
  indexed := hreads.indexed.upsert (Entry.location_setMirrors mirrors) registry
  locations := by
    rw [hreads.indexed.locations_upsert (Entry.location_setMirrors mirrors), hreads.locations,
      History.mentioned_concat, Change.mentions, Sequence.eraseDups_concat]
    simp only [History.mentioned, List.mem_eraseDups]
  find? := by
    intro r hr
    rw [hreads.indexed.find?_upsert, hreads.getD_find?, h.entry_concat _ r rfl]
    rw [h.mem_mentioned_concat] at hr
    by_cases heq : r = registry
    . simp [heq, Change.mirrors?]
    . have hr : r ∈ h.mentioned := by simpa [Change.mentions, heq] using hr
      rw [if_neg heq, hreads.find? r hr]
      simp only [Change.mirrors?, Ne.symm heq, if_false, Option.getD_none]
      rfl
  policy := by
    rw [hreads.policy, History.accessLists_concat]
    rfl
  certificates := by
    rw [hreads.certificates, History.certificates_concat]
    rfl

theorem silent (change : Change) (t : Table) (certificates : List Certificate)
    (hlists : change.accessLists? = none) (hmentions : change.mentions = [])
    (hcertificates : certificates = change.certificates?.getD c.certificates)
    (hindexed : t.Indexed) (hlocations : t.locations = c.registries.locations)
    (hfind? : ∀ r ∈ h.mentioned,
      t.find? r = some ((h.entry r).setMirrors ((change.mirrors? r).getD (h.mirrors r))))
    : Reads ⟨t, c.policy, certificates⟩ (h ++ [change]) where
  indexed := hindexed
  locations := by
    rw [hlocations, hreads.locations, History.mentioned_concat, hmentions, List.append_nil]
    rfl
  find? := by
    intro r hr
    rw [h.mem_mentioned_concat, hmentions] at hr
    rw [h.entry_concat _ r hlists]
    exact hfind? r (by simpa using hr)
  policy := by
    rw [hreads.policy, History.accessLists_concat, hlists]
    rfl
  certificates := by
    rw [hcertificates, hreads.certificates, History.certificates_concat]

omit hreads in
theorem getD_map_resetAccess (o : Option Entry) (r : String)
    : (o.map Entry.resetAccess).getD (.fresh r) = (o.getD (.fresh r)).resetAccess := by
  cases o <;> rfl

theorem setRegistryPolicy (allowed blocked insecure : List String)
    (haccepted : allowed = [] ∨ blocked = [])
    : Reads (c.setRegistryPolicy allowed blocked insecure)
        (h ++ [.setRegistryPolicy allowed blocked insecure]) := by
  have hlists : Change.accessLists? (.setRegistryPolicy allowed blocked insecure) =
      some ⟨allowed, blocked, insecure⟩ := by
    rcases haccepted with rfl | rfl <;> simp [Change.accessLists?]
  have hmentions : Change.mentions (.setRegistryPolicy allowed blocked insecure) =
      allowed ++ blocked ++ insecure := by
    simp only [Change.mentions, hlists]
  have hreset := hreads.indexed.mapEntries Entry.location_resetAccess
  have hallowed := hreset.upsertAll Entry.location_allow allowed
  have hblocked := hallowed.upsertAll Entry.location_block blocked
  rw [setRegistryPolicy_eq, Table.resetAccess_eq_mapEntries]
  constructor
  case indexed => exact hblocked.upsertAll Entry.location_markInsecure insecure
  case locations =>
    rw [History.mentioned_concat, hmentions, ← List.append_assoc, ← List.append_assoc]
    apply hblocked.locations_upsertAll Entry.location_markInsecure
    apply hallowed.locations_upsertAll Entry.location_block
    apply hreset.locations_upsertAll Entry.location_allow
    rw [Table.locations_mapEntries Entry.location_resetAccess, hreads.locations]
    rfl
  case find? =>
    intro r hr
    rw [hblocked.find?_upsertAll Entry.location_markInsecure Entry.markInsecure_markInsecure,
      hallowed.find?_upsertAll Entry.location_block Entry.block_block,
      hreset.find?_upsertAll Entry.location_allow Entry.allow_allow, Table.find?_mapEntries]
    have hreset_getD : ((c.registries.find? r).map Entry.resetAccess).getD (.fresh r) =
        ⟨r, "", h.mirrors r, none, none, none⟩ := by
      rw [getD_map_resetAccess, hreads.getD_find?]
      rfl
    have hreset_find? : r ∈ h.mentioned → (c.registries.find? r).map Entry.resetAccess =
        some ⟨r, "", h.mirrors r, none, none, none⟩ := by
      intro hold
      rw [hreads.find? r hold]
      rfl
    have hdisjoint : r ∈ allowed → r ∉ blocked := by
      rcases haccepted with rfl | rfl <;> simp
    rw [h.mem_mentioned_concat, hmentions, List.mem_append, List.mem_append] at hr
    simp only [History.entry, History.accessLists_concat, hlists, Option.getD_some,
      History.mirrors_concat, Change.mirrors?, Option.getD_none]
    generalize (c.registries.find? r).map Entry.resetAccess = found at hreset_getD hreset_find?
    by_cases ha : r ∈ allowed
    . simp only [ha, hdisjoint ha, if_true, if_false, Option.getD_some, hreset_getD]
      split <;> rfl
    . by_cases hb : r ∈ blocked
      . simp only [ha, hb, if_true, if_false, Option.getD_some, hreset_getD]
        split <;> rfl
      . simp only [ha, hb, if_false, hreset_getD]
        split
        . rfl
        . next hi => exact hreset_find? (by simpa [ha, hb, hi] using hr)
  case policy =>
    rw [History.accessLists_concat, hlists, hreads.policy, Policy.resetTransports_rejecting]
    exact Policy.foldl_reject_rejecting [] blocked
  case certificates =>
    rw [hreads.certificates, History.certificates_concat]
    rfl

theorem clearMirrors (registry : String)
    : Reads { c with registries := c.registries.modify registry .clearMirrors }
        (h ++ [.clearMirrors registry]) := by
  apply hreads.silent
  case hlists => rfl
  case hmentions => rfl
  case hcertificates => rfl
  case hindexed => exact hreads.indexed.modify Entry.location_clearMirrors registry
  case hlocations => exact Table.locations_modify Entry.location_clearMirrors _ registry
  case hfind? =>
    intro r hr
    rw [hreads.indexed.find?_modify, hreads.find? r hr]
    by_cases heq : r = registry
    . simp only [heq, if_true, Change.mirrors?, Option.getD_some]
      rfl
    . simp only [heq, Ne.symm heq, if_false, Change.mirrors?, Option.getD_none]
      rfl

theorem clearAllMirrors
    : Reads { c with registries := c.registries.clearMirrors } (h ++ [.clearAllMirrors]) := by
  rw [Table.clearMirrors_eq_mapEntries]
  apply hreads.silent
  case hlists => rfl
  case hmentions => rfl
  case hcertificates => rfl
  case hindexed => exact hreads.indexed.mapEntries Entry.location_clearMirrors
  case hlocations => exact Table.locations_mapEntries Entry.location_clearMirrors _
  case hfind? =>
    intro r hr
    rw [Table.find?_mapEntries, hreads.find? r hr]
    rfl

theorem replaceCertificates (certificates : List Certificate)
    : Reads { c with certificates } (h ++ [.replaceCertificates certificates]) := by
  apply hreads.silent
  case hlists => rfl
  case hmentions => rfl
  case hcertificates => rfl
  case hindexed => exact hreads.indexed
  case hlocations => rfl
  case hfind? => exact hreads.find?

theorem refused (change : Change) (cause : Refusal) (hcause : c.apply change = .error cause)
    : Reads c (h ++ [change]) := by
  rcases (apply_eq_error_iff c change cause).mp hcause with
    ⟨allowed, blocked, insecure, rfl, hallowed, hblocked, -⟩ | ⟨registry, rfl, hunknown, -⟩
  . have hlists : Change.accessLists? (.setRegistryPolicy allowed blocked insecure) = none := by
      cases allowed <;> cases blocked <;> simp_all [Change.accessLists?]
    apply hreads.silent
    case hlists => exact hlists
    case hmentions => simp only [Change.mentions, hlists]
    case hcertificates => rfl
    case hindexed => exact hreads.indexed
    case hlocations => rfl
    case hfind? => exact hreads.find?
  . apply hreads.silent
    case hlists => rfl
    case hmentions => rfl
    case hcertificates => rfl
    case hindexed => exact hreads.indexed
    case hlocations => rfl
    case hfind? =>
      intro r hr
      have hne : registry ≠ r := by
        rintro rfl
        rw [hreads.find? registry hr] at hunknown
        contradiction
      rw [hreads.find? r hr]
      simp only [Change.mirrors?, hne, if_false, Option.getD_none]
      rfl

theorem next (change : Change) : Reads (c.next change) (h ++ [change]) := by
  unfold Configuration.next
  split
  . next c' haccepted =>
    cases change with
    | setRegistryPolicy allowed blocked insecure =>
      simp only [apply] at haccepted
      split at haccepted
      . contradiction
      . next hlists =>
        injection haccepted with haccepted
        rw [← haccepted]
        apply hreads.setRegistryPolicy
        cases allowed <;> cases blocked <;> simp_all
    | setMirrors registry mirrors =>
      injection haccepted with haccepted
      rw [← haccepted]
      exact hreads.setMirrors registry mirrors
    | clearMirrors registry =>
      simp only [apply] at haccepted
      split at haccepted
      . injection haccepted with haccepted
        rw [← haccepted]
        exact hreads.clearMirrors registry
      . contradiction
    | clearAllMirrors =>
      injection haccepted with haccepted
      rw [← haccepted]
      exact hreads.clearAllMirrors
    | replaceCertificates certificates =>
      injection haccepted with haccepted
      rw [← haccepted]
      exact hreads.replaceCertificates certificates
  . next cause hcause => exact hreads.refused change cause hcause

end Reads

theorem reads_after (h : History) : (after h).Reads h := by
  induction h using List.reverseRecOn with
  | nil => exact reads_initial
  | append_singleton h change ih =>
    rw [after_concat]
    exact ih.next change

/-- The entries are those of the registries mentioned so far, each with what its last writers
left it with, and the two ways to be refused depend on the lists of a policy and on the mentions
alone. -/
theorem after_refines_history (h : History)
    : (after h).registries.entries.toList = h.mentioned.map h.entry ∧
      (∀ r, (after h).registries.find? r = if r ∈ h.mentioned then some (h.entry r) else none) ∧
      (after h).certificates = h.certificates ∧
      (∀ change cause, (after h).apply change = .error cause ↔
        (∃ allowed blocked insecure, change = .setRegistryPolicy allowed blocked insecure ∧
          allowed ≠ [] ∧ blocked ≠ [] ∧ cause = .allowedAndBlocked) ∨
        (∃ registry, change = .clearMirrors registry ∧ registry ∉ h.mentioned ∧
          cause = .unknownRegistry registry)) ∧
      (∀ change, after (h ++ [change]) = ((after h).apply change).toOption.getD (after h)) := by
  have hreads := reads_after h
  refine ⟨hreads.entries_eq, ?_, hreads.certificates, ?_, ?_⟩
  . intro r
    split
    . next hr => exact hreads.find? r hr
    . next hr => exact hreads.find?_eq_none r hr
  . intro change cause
    simp only [apply_eq_error_iff, ← hreads.find?_isSome_iff, Bool.not_eq_true,
      Option.isSome_eq_false_iff, Option.isNone_iff_eq_none]
  . intro change
    rw [after_concat, Configuration.next]
    cases (after h).apply change <;> rfl

end RegistrySync.Configuration
