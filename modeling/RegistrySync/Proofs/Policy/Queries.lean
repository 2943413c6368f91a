import RegistrySync.Policy.Document
import RegistrySync.Proofs.Policy.Rejection

/-!
The queries on a policy that was read from a document and changed since: they answer for just the
scopes with a reject rule, whatever transports there are, and a rejection changes the answers for
its own registry only.
-/

namespace RegistrySync

namespace Policy

variable (p : Policy)

/-! ### Rules -/

/-- The rules of a scope, if the transport and the scope are there. -/
def rules? (t : Transport) (scope : String) : Option (List Requirement) :=
  (p.scopes? t).bind (·[scope]?)

theorem rejectsOn_iff (r : String) (t : Transport)
    : p.rejectsOn r t = true ↔ ∃ rules, p.rules? t r = some rules ∧ .reject ∈ rules := by
  unfold rejectsOn rules?
  cases p.scopes? t with
  | none => simp
  | some scopes =>
    rw [Option.bind_some]
    dsimp only
    rw [Std.ExtTreeMap.getD_eq_getD_getElem?]
    cases scopes[r]? <;> simp

theorem isRejected_iff (r : String)
    : p.isRejected r = true ↔ ∀ t ∈ Transport.rejecting, p.rejectsOn r t = true := by
  rw [isRejected, List.all_eq_true]

theorem mem_rejected_of_isRejected {r : String} (h : p.isRejected r = true) : r ∈ p.rejected := by
  rw [mem_rejected]
  exact ⟨.docker, (p.isRejected_iff r).mp h .docker (by decide)⟩

variable {p}

theorem rejectsOn_congr {q : Policy} {r : String} {t : Transport}
    (h : p.rules? t r = q.rules? t r) : p.rejectsOn r t = q.rejectsOn r t := by
  rw [Bool.eq_iff_iff, rejectsOn_iff, rejectsOn_iff, h]

theorem isRejected_congr {q : Policy} {r : String} (h : ∀ t, p.rules? t r = q.rules? t r)
    : p.isRejected r = q.isRejected r := by
  rw [Bool.eq_iff_iff, isRejected_iff, isRejected_iff]
  simp only [fun t => rejectsOn_congr (h t)]

theorem mem_rejected_congr {q : Policy} {r : String} (h : ∀ t, p.rules? t r = q.rules? t r)
    : r ∈ p.rejected ↔ r ∈ q.rejected := by
  simp only [mem_rejected, fun t => rejectsOn_congr (h t)]

/-! ### A rejection -/

theorem insert_comm (scopes : Scopes) (r s : String) (rules : List Requirement)
    : (scopes.insert r rules).insert s rules = (scopes.insert s rules).insert r rules := by
  apply Std.ExtTreeMap.ext_getElem?
  intro scope
  simp only [Std.ExtTreeMap.getElem?_insert]
  split <;> split <;> rfl

theorem insert_insert (scopes : Scopes) (r : String) (rules : List Requirement)
    : (scopes.insert r rules).insert r rules = scopes.insert r rules := by
  apply Std.ExtTreeMap.ext_getElem?
  intro scope
  simp only [Std.ExtTreeMap.getElem?_insert]
  split <;> rfl

theorem eq_of_scopes? {q : Policy} (hdefault : p.default = q.default)
    (h : ∀ t, p.scopes? t = q.scopes? t) : p = q := by
  rcases p with ⟨default, docker, dockerDaemon, atomic⟩
  obtain ⟨rfl, rfl, rfl⟩ : docker = q.docker ∧ dockerDaemon = q.dockerDaemon ∧ atomic = q.atomic :=
    ⟨h .docker, h .dockerDaemon, h .atomic⟩
  rw [show default = q.default from hdefault]

variable (p)

theorem default_reject (r : String) : (p.reject r).default = p.default := rfl

theorem scopes?_reject (r : String) (t : Transport)
    : (p.reject r).scopes? t =
        if t ∈ Transport.rejecting then some (((p.scopes? t).getD ∅).insert r [.reject])
        else p.scopes? t := by
  cases t <;> rfl

theorem rules?_reject (r s : String) (t : Transport)
    : (p.reject r).rules? t s =
        if t ∈ Transport.rejecting ∧ s = r then some [.reject] else p.rules? t s := by
  rw [rules?, scopes?_reject]
  by_cases ht : t ∈ Transport.rejecting
  . rw [if_pos ht, Option.bind_some, Std.ExtTreeMap.getElem?_insert]
    simp only [Std.LawfulEqOrd.compare_eq_iff_eq]
    by_cases hs : s = r
    . rw [if_pos hs.symm, if_pos ⟨ht, hs⟩]
    . rw [if_neg (Ne.symm hs), if_neg (hs ∘ And.right), rules?]
      cases p.scopes? t <;> simp
  . rw [if_neg ht, if_neg (ht ∘ And.left), rules?]

theorem rules?_reject_of_ne {r s : String} (h : s ≠ r) (t : Transport)
    : (p.reject r).rules? t s = p.rules? t s := by
  rw [rules?_reject, if_neg (h ∘ And.right)]

theorem isRejected_reject (r : String) : (p.reject r).isRejected r = true := by
  rw [isRejected_iff]
  intro t ht
  rw [rejectsOn_iff]
  refine ⟨[.reject], ?_, List.mem_singleton_self _⟩
  rw [rules?_reject, if_pos ⟨ht, rfl⟩]

/-- The rule that is put in is the same for all registries. -/
theorem reject_comm (r s : String) : (p.reject r).reject s = (p.reject s).reject r := by
  apply eq_of_scopes?
  . rfl
  . intro t
    simp only [scopes?_reject]
    split
    . rw [Option.getD_some, Option.getD_some, insert_comm]
    . rfl

theorem reject_reject (r : String) : (p.reject r).reject r = p.reject r := by
  apply eq_of_scopes?
  . rfl
  . intro t
    simp only [scopes?_reject]
    split
    . rw [Option.getD_some, insert_insert]
    . rfl

/-! ### A reset -/

theorem rejectsOn_resetTransports (r : String) (t : Transport)
    : p.resetTransports.rejectsOn r t = false := by
  have hinitial : p.resetTransports.rejectsOn r t = (rejecting []).rejectsOn r t := by
    cases t <;> rfl
  rw [hinitial, ← Bool.not_eq_true, rejectsOn_rejecting]
  exact fun h => List.not_mem_nil h.2

theorem isRejected_resetTransports (r : String) : p.resetTransports.isRejected r = false := by
  rw [← Bool.not_eq_true, isRejected_iff]
  intro h
  have hdocker := h .docker (by decide)
  rw [rejectsOn_resetTransports] at hdocker
  contradiction

theorem rejected_resetTransports : p.resetTransports.rejected = [] := by
  apply List.eq_nil_iff_forall_not_mem.mpr
  intro r hr
  obtain ⟨t, ht⟩ := (mem_rejected _ r).mp hr
  rw [rejectsOn_resetTransports] at ht
  contradiction

/-! ### Policies that are loaded and edited -/

inductive Edit where
  | load (text : String)
  | reject (registry : String)
  | resetTransports
  deriving DecidableEq, Repr

/-- A text that is no policy document is not loaded. -/
def perform (p : Policy) : Edit → Policy
  | .load text => (ofJson? text).getD p
  | .reject registry => p.reject registry
  | .resetTransports => p.resetTransports

def after (edits : List Edit) : Policy :=
  edits.foldl perform initial

theorem queries_exact (edits : List Edit)
    : let p := after edits
      p.rejected.Pairwise (fun r s => Text.bytes r < Text.bytes s) ∧
      (∀ r, r ∈ p.rejected ↔ ∃ t rules, p.rules? t r = some rules ∧ .reject ∈ rules) ∧
      (∀ r, p.isRejected r = true ↔
        (∃ rules, p.rules? .docker r = some rules ∧ .reject ∈ rules) ∧
        (∃ rules, p.rules? .atomic r = some rules ∧ .reject ∈ rules)) ∧
      (∀ r, p.isRejected r = true → r ∈ p.rejected) ∧
      (∀ r, (p.reject r).isRejected r = true ∧ (p.reject r).default = p.default ∧
        (p.reject r).scopes? .dockerDaemon = p.scopes? .dockerDaemon) ∧
      (∀ r s, s ≠ r → (p.reject r).isRejected s = p.isRejected s ∧
        (s ∈ (p.reject r).rejected ↔ s ∈ p.rejected) ∧
        ∀ t, (p.reject r).rules? t s = p.rules? t s) ∧
      (∀ r s, (p.reject r).reject s = (p.reject s).reject r) ∧
      (∀ r, (p.reject r).reject r = p.reject r) ∧
      (∀ r, p.resetTransports.isRejected r = false) ∧
      p.resetTransports.rejected = [] ∧
      p.resetTransports.default = p.default := by
  intro p
  refine ⟨p.pairwise_rejected, ?_, ?_, fun r => p.mem_rejected_of_isRejected, ?_, ?_, p.reject_comm,
    p.reject_reject, p.isRejected_resetTransports, p.rejected_resetTransports, rfl⟩
  . intro r
    simp only [mem_rejected, rejectsOn_iff]
  . intro r
    simp [isRejected_iff, Transport.rejecting, rejectsOn_iff]
  . intro r
    exact ⟨p.isRejected_reject r, p.default_reject r, p.scopes?_reject r .dockerDaemon⟩
  . intro r s hs
    have hrules := p.rules?_reject_of_ne hs
    exact ⟨isRejected_congr hrules, mem_rejected_congr hrules, hrules⟩

end Policy
end RegistrySync
