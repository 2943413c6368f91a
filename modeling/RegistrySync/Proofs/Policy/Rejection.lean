import Mathlib.Data.List.Induction
import RegistrySync.Policy.Basic
import RegistrySync.Proofs.Text.ByteOrder

/-!
Which registries a policy rejects: the two queries on any policy, and the policies that arise from
the default one by rejecting registries.
-/

namespace RegistrySync.Policy

/-! ### Queries -/

theorem mem_rejectedOn (p : Policy) (t : Transport) (r : String)
    : r ∈ p.rejectedOn t ↔ p.rejectsOn r t = true := by
  unfold rejectedOn rejectsOn
  cases p.scopes? t with
  | none => simp
  | some scopes =>
    simp only [List.mem_map, List.mem_filter, Prod.exists, exists_and_right, exists_eq_right,
      Std.ExtTreeMap.mem_toList_iff_getElem?_eq_some, Std.ExtTreeMap.getD_eq_getD_getElem?]
    cases scopes[r]? with
    | none => simp
    | some rules => simp

theorem mem_rejected (p : Policy) (r : String)
    : r ∈ p.rejected ↔ ∃ t, p.rejectsOn r t = true := by
  unfold rejected
  rw [Std.ExtTreeSet.mem_toList, Std.ExtTreeSet.mem_ofList, List.contains_iff_mem,
    List.mem_flatMap]
  constructor
  . rintro ⟨t, -, hr⟩
    exact ⟨t, (mem_rejectedOn p t r).mp hr⟩
  . rintro ⟨t, hr⟩
    refine ⟨t, ?_, (mem_rejectedOn p t r).mpr hr⟩
    cases t <;> simp [Transport.all]

theorem pairwise_rejected (p : Policy)
    : p.rejected.Pairwise fun r s => Text.bytes r < Text.bytes s := by
  apply Std.ExtTreeSet.ordered_toList.imp
  intro r s h
  rw [Text.bytes_lt_iff]
  exact compare_lt_iff_lt.mp h

/-! ### Rejecting registries by default -/

def rejections (registries : List String) : Scopes :=
  .ofList (registries.map fun r => (r, [Requirement.reject]))

/-- The default policy and a reject rule for each of the registries, on the rejecting transports. -/
def rejecting (registries : List String) : Policy :=
  { initial with
    docker := some (rejections registries)
    atomic := some (rejections registries) }

theorem rejections_concat (registries : List String) (r : String)
    : rejections (registries ++ [r]) = (rejections registries).insert r [.reject] := by
  simp only [rejections, Std.ExtTreeMap.ofList_eq_foldl, List.map_append, List.map_cons,
    List.map_nil, List.foldl_append, List.foldl_cons, List.foldl_nil]

theorem getElem?_rejections (registries : List String) (r : String)
    : (rejections registries)[r]? = if r ∈ registries then some [Requirement.reject] else none := by
  induction registries using List.reverseRecOn with
  | nil => simp [rejections]
  | append_singleton registries s ih =>
    rw [rejections_concat, Std.ExtTreeMap.getElem?_insert, ih]
    by_cases hs : s = r
    . simp [hs]
    . simp [hs, Ne.symm hs]

theorem rejecting_congr {rs ss : List String} (h : ∀ r, r ∈ rs ↔ r ∈ ss)
    : rejecting rs = rejecting ss := by
  have : rejections rs = rejections ss := by
    apply Std.ExtTreeMap.ext_getElem?
    intro r
    rw [getElem?_rejections, getElem?_rejections]
    simp only [h r]
  rw [rejecting, rejecting, this]

theorem rejecting_nil : rejecting [] = initial := rfl

theorem resetTransports_rejecting (registries : List String)
    : (rejecting registries).resetTransports = initial := rfl

theorem reject_rejecting (registries : List String) (r : String)
    : (rejecting registries).reject r = rejecting (registries ++ [r]) := by
  rw [rejecting, rejecting, rejections_concat]
  rfl

theorem foldl_reject_rejecting (registries more : List String)
    : more.foldl reject (rejecting registries) = rejecting (registries ++ more) := by
  induction more generalizing registries with
  | nil => simp
  | cons r more ih =>
    rw [List.foldl_cons, reject_rejecting, ih]
    simp

theorem rejectsOn_rejecting (registries : List String) (r : String) (t : Transport)
    : (rejecting registries).rejectsOn r t = true ↔
        t ∈ Transport.rejecting ∧ r ∈ registries := by
  have hrejections : ((rejections registries).getD r []).contains Requirement.reject = true ↔
      r ∈ registries := by
    rw [Std.ExtTreeMap.getD_eq_getD_getElem?, getElem?_rejections]
    split <;> simp [*]
  cases t with
  | docker => simpa [rejectsOn, scopes?, rejecting, Transport.rejecting] using hrejections
  | atomic => simpa [rejectsOn, scopes?, rejecting, Transport.rejecting] using hrejections
  | dockerDaemon =>
    simp only [rejectsOn, scopes?, rejecting, initial, Transport.rejecting,
      Std.ExtTreeMap.getD_insert]
    split <;> simp

theorem isRejected_rejecting (registries : List String) (r : String)
    : (rejecting registries).isRejected r = true ↔ r ∈ registries := by
  simp [isRejected, Transport.rejecting, rejectsOn_rejecting]

theorem mem_rejected_rejecting (registries : List String) (r : String)
    : r ∈ (rejecting registries).rejected ↔ r ∈ registries := by
  rw [mem_rejected]
  simp only [rejectsOn_rejecting, exists_and_right, and_iff_right_iff_imp]
  intro _
  exact ⟨.docker, by simp [Transport.rejecting]⟩

end RegistrySync.Policy
