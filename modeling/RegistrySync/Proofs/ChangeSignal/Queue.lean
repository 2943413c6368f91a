import Mathlib.Data.List.Nodup
import RegistrySync.ChangeSignal
import RegistrySync.Proofs.Sequence

/-!
The requests of a change signal stand in one queue, whose head is in the slot. The posts that are
pending are on this queue, and the other way round but for those that were cancelled in the slot.
-/

namespace RegistrySync.ChangeSignal

def queue (s : ChangeSignal) : List Nat :=
  s.slot.toList ++ s.waiting

structure Queued (s : ChangeSignal) : Prop where
  lt : ∀ n ∈ s.queue, n < s.posts.length
  nodup : s.queue.Nodup
  pending : ∀ (n : Nat), s.posts[n]? = some .pending → n ∈ s.queue
  slotFirst : s.slot = none → s.waiting = []

theorem queued_start : start.Queued where
  lt := by simp [start, queue]
  nodup := by simp [start, queue]
  pending := by simp [start]
  slotFirst := by simp [start]

variable {s : ChangeSignal}

theorem queue_eq_nil_iff (s : ChangeSignal) : s.queue = [] ↔ s.slot = none ∧ s.waiting = [] := by
  rw [queue, List.append_eq_nil_iff, Option.toList_eq_nil_iff]

theorem Queued.queue_eq_nil (h : s.Queued) (hslot : s.slot = none) : s.queue = [] :=
  (queue_eq_nil_iff s).mpr ⟨hslot, h.slotFirst hslot⟩

/-! ### Moving up -/

@[simp]
theorem queue_refill (s : ChangeSignal) : s.refill.queue = s.queue := by
  unfold refill
  split
  . next hslot hwaiting => simp only [queue, hslot, hwaiting, Option.toList, List.nil_append]; rfl
  . rfl

@[simp]
theorem posts_refill (s : ChangeSignal) : s.refill.posts = s.posts := by
  unfold refill
  split <;> rfl

@[simp]
theorem isReceiving_refill (s : ChangeSignal) : s.refill.isReceiving = s.isReceiving := by
  unfold refill
  split <;> rfl

theorem slotFirst_refill (s : ChangeSignal) (hslot : s.refill.slot = none)
    : s.refill.waiting = [] := by
  unfold refill at hslot ⊢
  split at hslot
  . contradiction
  . next h =>
    cases hwaiting : s.waiting with
    | nil => cases s.slot <;> rfl
    | cons n rest => exact absurd hwaiting (h n rest hslot)

/-! ### Posting -/

variable (hreceiving : s.isReceiving = true)

include hreceiving in
theorem queue_post : s.post.queue = s.queue ++ [s.posts.length] := by
  unfold post
  rw [if_pos hreceiving, queue_refill]
  simp [queue]

include hreceiving in
theorem posts_post : s.post.posts = s.posts ++ [.pending] := by
  unfold post
  rw [if_pos hreceiving, posts_refill]

include hreceiving in
theorem isReceiving_post : s.post.isReceiving = true := by
  unfold post
  rw [if_pos hreceiving, isReceiving_refill, hreceiving]

include hreceiving in
theorem Queued.post (h : s.Queued) : s.post.Queued where
  lt := by
    rw [queue_post hreceiving, posts_post hreceiving, List.length_append]
    intro n hn
    rcases List.mem_append.mp hn with hn | hn
    . have := h.lt n hn
      omega
    . rw [List.mem_singleton.mp hn]
      simp
  nodup := by
    rw [queue_post hreceiving]
    apply List.Nodup.append h.nodup (List.nodup_singleton _)
    rw [List.disjoint_singleton]
    intro hmem
    exact absurd (h.lt _ hmem) (Nat.lt_irrefl _)
  pending := by
    rw [queue_post hreceiving, posts_post hreceiving]
    intro n hn
    rw [Sequence.getElem?_concat_eq_some_iff] at hn
    rw [List.mem_append, List.mem_singleton]
    rcases hn with hn | ⟨rfl, -⟩
    . exact .inl (h.pending n hn)
    . exact .inr rfl
  slotFirst := by
    unfold ChangeSignal.post
    rw [if_pos hreceiving]
    apply slotFirst_refill

/-! ### Leaving the slot -/

omit hreceiving in
theorem getElem?_settle (s : ChangeSignal) (n m : Nat) (status : Status)
    : (s.settle n status).posts[m]? =
        if n = m ∧ s.posts[m]? = some .pending then some status else s.posts[m]? := by
  unfold settle
  rw [List.getElem?_modify]
  by_cases hnm : n = m
  . cases hm : s.posts[m]? with
    | none => simp [hnm]
    | some old => by_cases hold : old = .pending <;> simp [hnm, hold]
  . cases hm : s.posts[m]? <;> simp [hnm]

omit hreceiving in
theorem length_posts_settle (s : ChangeSignal) (n : Nat) (status : Status)
    : (s.settle n status).posts.length = s.posts.length := by
  simp [settle]

/-- The request in the slot leaves, its post gets a status, and the next request moves up. -/
def vacate (s : ChangeSignal) (n : Nat) (status : Status) : ChangeSignal :=
  ({ s with slot := none }.settle n status).refill

omit hreceiving in
theorem getElem?_posts_vacate (s : ChangeSignal) (n m : Nat) (status : Status)
    : (s.vacate n status).posts[m]? =
        if n = m ∧ s.posts[m]? = some .pending then some status else s.posts[m]? := by
  rw [vacate, posts_refill, getElem?_settle]

omit hreceiving in
theorem length_posts_vacate (s : ChangeSignal) (n : Nat) (status : Status)
    : (s.vacate n status).posts.length = s.posts.length := by
  rw [vacate, posts_refill, length_posts_settle]

omit hreceiving in
theorem isReceiving_vacate (s : ChangeSignal) (n : Nat) (status : Status)
    : (s.vacate n status).isReceiving = s.isReceiving :=
  isReceiving_refill _

omit hreceiving in
theorem queue_vacate (s : ChangeSignal) (n : Nat) (status : Status)
    : (s.vacate n status).queue = s.waiting := by
  rw [vacate, queue_refill]
  simp [queue, settle]

variable {n : Nat} (hslot : s.slot = some n)

include hreceiving hslot in
theorem accept_eq_vacate : s.accept = (.taken, s.vacate n .accepted) := by
  unfold accept
  rw [if_neg (by simp [hreceiving])]
  simp only [hslot]
  rfl

omit hslot in
include hreceiving in
theorem accept_of_slot_eq_none (hnone : s.slot = none)
    : s.accept = (if s.isClosed then .closed else .pending, s) := by
  simp [accept, hreceiving, hnone]

include hslot in
theorem queue_eq_cons : s.queue = n :: s.waiting := by
  simp [queue, hslot]

include hslot in
theorem Queued.vacate (h : s.Queued) {status : Status} (hstatus : status ≠ .pending)
    : (s.vacate n status).Queued where
  lt := by
    rw [queue_vacate, length_posts_vacate]
    intro m hm
    apply h.lt m
    rw [queue_eq_cons hslot]
    exact List.mem_cons_of_mem _ hm
  nodup := by
    rw [queue_vacate]
    have hnodup := h.nodup
    rw [queue_eq_cons hslot] at hnodup
    exact hnodup.of_cons
  pending := by
    intro m
    rw [getElem?_posts_vacate, queue_vacate]
    split
    . intro hm
      injection hm with hm
      contradiction
    . next hne =>
      intro hm
      have hmem := h.pending m hm
      rw [queue_eq_cons hslot, List.mem_cons] at hmem
      rcases hmem with rfl | hmem
      . exact absurd ⟨rfl, hm⟩ hne
      . exact hmem
  slotFirst := by
    apply slotFirst_refill

/-! ### Cancelling -/

theorem getElem?_posts_cancel (s : ChangeSignal) (n m : Nat)
    : (s.cancel n).posts[m]? =
        if n = m ∧ s.posts[m]? = some .pending then some .cancelled else s.posts[m]? :=
  getElem?_settle _ n m .cancelled

theorem length_posts_cancel (s : ChangeSignal) (n : Nat)
    : (s.cancel n).posts.length = s.posts.length :=
  length_posts_settle _ n .cancelled

theorem queue_cancel (s : ChangeSignal) (n : Nat)
    : (s.cancel n).queue = s.slot.toList ++ s.waiting.filter (· ≠ n) := rfl

theorem queue_cancel_sublist (s : ChangeSignal) (n : Nat)
    : (s.cancel n).queue.Sublist s.queue := by
  rw [queue_cancel]
  exact List.Sublist.append (List.Sublist.refl _) List.filter_sublist

theorem Queued.cancel (h : s.Queued) (n : Nat) : (s.cancel n).Queued where
  lt := by
    rw [length_posts_cancel]
    intro m hm
    exact h.lt m ((queue_cancel_sublist s n).mem hm)
  nodup := h.nodup.sublist (queue_cancel_sublist s n)
  pending := by
    intro m
    rw [getElem?_posts_cancel, queue_cancel]
    split
    . intro hm
      contradiction
    . next hne =>
      intro hm
      have hmem := h.pending m hm
      rw [queue, List.mem_append] at hmem
      rw [List.mem_append, List.mem_filter]
      rcases hmem with hmem | hmem
      . exact .inl hmem
      . have : m ≠ n := by
          rintro rfl
          exact hne ⟨rfl, hm⟩
        exact .inr ⟨hmem, by simpa using this⟩
  slotFirst := by
    intro hslot
    have hwaiting := h.slotFirst hslot
    change s.waiting.filter _ = []
    rw [hwaiting, List.filter_nil]

end RegistrySync.ChangeSignal
