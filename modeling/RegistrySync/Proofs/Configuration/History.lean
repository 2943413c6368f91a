import RegistrySync.Proofs.Policy.Rejection
import RegistrySync.Proofs.Registry.Index
import RegistrySync.Sink

/-!
A configuration after a history of changes is what the history says on its own: the last change
that writes a part of the configuration decides it, and registries stay where they were first
mentioned. The changes of a history may be refused.
-/

namespace RegistrySync

structure AccessLists where
  allowed : List String
  blocked : List String
  insecure : List String

namespace Change

/-- The lists of a registry policy, unless it is refused. -/
def accessLists? : Change → Option AccessLists
  | .setRegistryPolicy allowed blocked insecure =>
    if !allowed.isEmpty && !blocked.isEmpty then none else some ⟨allowed, blocked, insecure⟩
  | _ => none

def mentions : Change → List String
  | .setMirrors registry _ => [registry]
  | change => match change.accessLists? with
    | some lists => lists.allowed ++ lists.blocked ++ lists.insecure
    | none => []

/-- The mirrors that a change leaves a registry with, if it is about them. -/
def mirrors? (registry : String) : Change → Option (List String)
  | .setMirrors other mirrors => if other = registry then some mirrors else none
  | .clearMirrors other => if other = registry then some [] else none
  | .clearAllMirrors => some []
  | _ => none

def certificates? : Change → Option (List Certificate)
  | .replaceCertificates certificates => some certificates
  | _ => none

end Change

/-- Changes that were asked for, the first one first. -/
abbrev History := List Change

namespace History

variable (h : History)

def mentioned : List String :=
  (h.flatMap Change.mentions).eraseDups

def accessLists : AccessLists :=
  (h.filterMap Change.accessLists?).getLastD ⟨[], [], []⟩

def mirrors (registry : String) : List String :=
  (h.filterMap (Change.mirrors? registry)).getLastD []

def certificates : List Certificate :=
  (h.filterMap Change.certificates?).getLastD []

def entry (registry : String) : Registry.Entry where
  location := registry
  imagePrefix := ""
  mirrors := h.mirrors registry
  blocked := if registry ∈ h.accessLists.blocked then some true else none
  allowed := if registry ∈ h.accessLists.allowed then some true else none
  insecure := if registry ∈ h.accessLists.insecure then some true else none

/-! ### One more change -/

variable (change : Change) (r : String)

theorem mentioned_concat
    : mentioned (h ++ [change]) = (h.flatMap Change.mentions ++ change.mentions).eraseDups := by
  simp [mentioned]

theorem accessLists_concat
    : accessLists (h ++ [change]) = change.accessLists?.getD h.accessLists := by
  unfold accessLists
  cases hlists : change.accessLists? <;> simp [hlists]

theorem mirrors_concat
    : mirrors (h ++ [change]) r = (change.mirrors? r).getD (h.mirrors r) := by
  unfold mirrors
  cases hmirrors : change.mirrors? r <;> simp [hmirrors]

theorem certificates_concat
    : certificates (h ++ [change]) = change.certificates?.getD h.certificates := by
  unfold certificates
  cases hcertificates : change.certificates? <;> simp [hcertificates]

theorem entry_concat (hlists : change.accessLists? = none)
    : entry (h ++ [change]) r =
        (h.entry r).setMirrors ((change.mirrors? r).getD (h.mirrors r)) := by
  simp only [entry, accessLists_concat, mirrors_concat, hlists, Option.getD_none]
  rfl

theorem mem_mentioned : r ∈ h.mentioned ↔ ∃ change ∈ h, r ∈ change.mentions := by
  simp [mentioned]

theorem mem_mentioned_concat
    : r ∈ mentioned (h ++ [change]) ↔ r ∈ h.mentioned ∨ r ∈ change.mentions := by
  simp [mentioned]

/-! ### A registry that is not mentioned -/

theorem allowed_eq_nil_or_blocked_eq_nil
    : h.accessLists.allowed = [] ∨ h.accessLists.blocked = [] := by
  rcases Sequence.getLastD_filterMap Change.accessLists? h ⟨[], [], []⟩ with
    hnone | ⟨change, -, hlists⟩
  . rw [accessLists, hnone]
    exact .inl rfl
  . rw [← accessLists] at hlists
    cases change with
    | setRegistryPolicy allowed blocked insecure =>
      simp only [Change.accessLists?, Option.ite_none_left_eq_some, Option.some.injEq] at hlists
      obtain ⟨haccepted, hlists⟩ := hlists
      rw [← hlists]
      cases allowed <;> cases blocked <;> simp_all
    | _ => simp [Change.accessLists?] at hlists

theorem mem_mentioned_of_mem_accessLists
    (hr : r ∈ h.accessLists.allowed ++ h.accessLists.blocked ++ h.accessLists.insecure)
    : r ∈ h.mentioned := by
  rcases Sequence.getLastD_filterMap Change.accessLists? h ⟨[], [], []⟩ with
    hnone | ⟨change, hmem, hlists⟩
  . rw [accessLists, hnone] at hr
    simp at hr
  . rw [← accessLists] at hlists
    apply (mem_mentioned h r).mpr
    refine ⟨change, hmem, ?_⟩
    cases change with
    | setRegistryPolicy allowed blocked insecure => simpa only [Change.mentions, hlists] using hr
    | _ => simp [Change.accessLists?] at hlists

theorem mirrors_eq_nil (hr : r ∉ h.mentioned) : h.mirrors r = [] := by
  rcases Sequence.getLastD_filterMap (Change.mirrors? r) h [] with hnone | ⟨change, hmem, hmirrors⟩
  . exact hnone
  . rw [← mirrors] at hmirrors
    cases change with
    | setMirrors registry mirrors =>
      simp only [Change.mirrors?, Option.ite_none_right_eq_some] at hmirrors
      obtain ⟨rfl, -⟩ := hmirrors
      exact absurd ((mem_mentioned h registry).mpr ⟨_, hmem, by simp [Change.mentions]⟩) hr
    | clearMirrors registry =>
      simp only [Change.mirrors?, Option.ite_none_right_eq_some, Option.some.injEq] at hmirrors
      exact hmirrors.2.symm
    | clearAllMirrors =>
      simp only [Change.mirrors?, Option.some.injEq] at hmirrors
      exact hmirrors.symm
    | _ => simp [Change.mirrors?] at hmirrors

theorem entry_of_not_mem (hr : r ∉ h.mentioned) : h.entry r = .fresh r := by
  have hlists := mt (mem_mentioned_of_mem_accessLists h r) hr
  simp only [List.mem_append, not_or] at hlists
  simp [entry, mirrors_eq_nil h r hr, hlists, Registry.Entry.fresh]

end History
end RegistrySync
