import Mathlib.Logic.Relation
import RegistrySync.Proofs.ChangeSignal.Queue

/-!
Runs of a change signal, with a ledger of what becomes of the request of each post. Requests are
taken in the order in which their posts were started, one by each accept that answers so, and a post
is accepted when its own request is taken.
-/

namespace RegistrySync.ChangeSignal

inductive Operation where
  | post (sender : Nat)
  | accept
  | cancel (post : Nat)
  | cloneSender (sender : Nat)
  | dropSender (sender : Nat)
  | dropReceiver
  deriving DecidableEq, Repr

/-- A sender can be used until it is dropped, and a post be cancelled while it is pending. -/
def Enabled (s : ChangeSignal) : Operation → Prop
  | .post n | .cloneSender n | .dropSender n => s.senders[n]? = some true
  | .cancel n => s.posts[n]? = some .pending
  | .accept | .dropReceiver => True

def perform (s : ChangeSignal) : Operation → ChangeSignal
  | .post _ => s.post
  | .accept => s.accept.2
  | .cancel n => s.cancel n
  | .cloneSender _ => s.cloneSender
  | .dropSender n => s.dropSender n
  | .dropReceiver => s.dropReceiver

/-! ### Single operations -/

variable {s : ChangeSignal}

theorem accept_of_stopped (hstopped : s.isReceiving = false) : s.accept = (.gone, s) := by
  simp [accept, hstopped]

theorem accept_eq (s : ChangeSignal)
    : s.accept = (.gone, s) ∧ s.isReceiving = false ∨
      (∃ n, s.accept = (.taken, s.vacate n .accepted) ∧ s.isReceiving = true ∧ s.slot = some n) ∨
      (s.accept = (.closed, s) ∨ s.accept = (.pending, s)) ∧ s.isReceiving = true ∧
        s.slot = none := by
  cases hreceiving : s.isReceiving with
  | false => exact .inl ⟨accept_of_stopped hreceiving, rfl⟩
  | true =>
    cases hslot : s.slot with
    | some n => exact .inr (.inl ⟨n, accept_eq_vacate hreceiving hslot, rfl, rfl⟩)
    | none =>
      refine .inr (.inr ⟨?_, rfl, rfl⟩)
      rw [accept_of_slot_eq_none hreceiving hslot]
      cases s.isClosed with
      | true => exact .inl rfl
      | false => exact .inr rfl

theorem accept_eq_taken_iff (hstopped : s.isReceiving = false → s.slot = none)
    : s.accept.1 = .taken ↔ ∃ n, s.slot = some n := by
  rcases accept_eq s with ⟨haccept, hreceiving⟩ | ⟨n, haccept, -, hslot⟩ | ⟨haccept, -, hslot⟩
  . simp [haccept, hstopped hreceiving]
  . simp [haccept, hslot]
  . rcases haccept with haccept | haccept <;> simp [haccept, hslot]

theorem getElem?_posts_dropReceiver (s : ChangeSignal) (n : Nat)
    : s.dropReceiver.posts[n]? =
        if s.posts[n]? = some .pending then some .stopped else s.posts[n]? := by
  rw [dropReceiver, List.getElem?_map]
  cases hn : s.posts[n]? with
  | none => simp
  | some old => by_cases hold : old = .pending <;> simp [hold]

theorem posts_post_eq (s : ChangeSignal)
    : s.post.posts = s.posts ++ [if s.isReceiving then .pending else .stopped] := by
  cases hreceiving : s.isReceiving with
  | true => exact posts_post hreceiving
  | false => simp [post, hreceiving]

theorem queue_post_eq (s : ChangeSignal)
    : s.post.queue = s.queue ++ if s.isReceiving then [s.posts.length] else [] := by
  cases hreceiving : s.isReceiving with
  | true => exact queue_post hreceiving
  | false => simp [post, hreceiving, queue]

theorem isReceiving_post_eq (s : ChangeSignal) : s.post.isReceiving = s.isReceiving := by
  cases hreceiving : s.isReceiving with
  | true => exact isReceiving_post hreceiving
  | false => simp [post, hreceiving]

theorem Queued.post_of_stopped (h : s.Queued) (hreceiving : s.isReceiving = false)
    : s.post.Queued := by
  have hpost : s.post = { s with posts := s.posts ++ [.stopped] } := by
    simp [ChangeSignal.post, hreceiving]
  rw [hpost]
  constructor
  case lt =>
    intro n hn
    have := h.lt n hn
    simp only [List.length_append]
    omega
  case nodup => exact h.nodup
  case pending =>
    intro n hn
    rw [Sequence.getElem?_concat_eq_some_iff] at hn
    rcases hn with hn | ⟨-, hn⟩
    . exact h.pending n hn
    . contradiction
  case slotFirst => exact h.slotFirst

theorem Queued.dropReceiver (s : ChangeSignal) : s.dropReceiver.Queued where
  lt := by simp [ChangeSignal.dropReceiver, queue]
  nodup := by simp [ChangeSignal.dropReceiver, queue]
  pending := by
    intro n
    rw [getElem?_posts_dropReceiver]
    split
    . simp
    . next hn => exact fun h => absurd h hn
  slotFirst := fun _ => rfl

/-- A status other than pending is the last one of its post. -/
theorem getElem?_posts_perform_of_ne (o : Operation) {n : Nat} {status : Status}
    (hn : s.posts[n]? = some status) (hstatus : status ≠ .pending)
    : (s.perform o).posts[n]? = some status := by
  have hpending : s.posts[n]? ≠ some .pending := by
    rw [hn]
    simpa using hstatus
  cases o with
  | post _ =>
    rw [perform, posts_post_eq, Sequence.getElem?_concat_eq_some_iff]
    exact .inl hn
  | accept =>
    rcases accept_eq s with ⟨haccept, -⟩ | ⟨m, haccept, -, -⟩ | ⟨haccept | haccept, -, -⟩
    . rw [perform, haccept]
      exact hn
    . rw [perform, haccept, getElem?_posts_vacate, if_neg (fun h => hpending h.2)]
      exact hn
    . rw [perform, haccept]
      exact hn
    . rw [perform, haccept]
      exact hn
  | cancel m =>
    rw [perform, getElem?_posts_cancel, if_neg (fun h => hpending h.2)]
    exact hn
  | cloneSender _ => exact hn
  | dropSender _ => exact hn
  | dropReceiver =>
    rw [perform, getElem?_posts_dropReceiver, if_neg hpending]
    exact hn

/-! ### The ledger -/

/-- What became of the request of a post. -/
inductive Fate where
  | outstanding
  | taken
  /-- The post was cancelled while it waited for the slot. -/
  | withdrawn
  /-- The receiver was dropped. -/
  | failed
  deriving DecidableEq, Repr

/-- The status of the post, unless it was cancelled. -/
def Fate.status : Fate → Status
  | outstanding => .pending
  | taken => .accepted
  | withdrawn => .cancelled
  | failed => .stopped

structure Ledger where
  signal : ChangeSignal
  /-- Of the requests in the order in which their posts were started. -/
  fates : List Fate
  /-- How many accepts answered that they took a request. -/
  taken : Nat
  deriving DecidableEq

namespace Ledger

def start : Ledger := ⟨.start, [], 0⟩

/-- A request is taken out of the slot. -/
def fatesAfter (l : Ledger) : Operation → List Fate
  | .post _ => l.fates ++ [if l.signal.isReceiving then .outstanding else .failed]
  | .accept => match l.signal.accept.1, l.signal.slot with
    | .taken, some n => l.fates.set n .taken
    | _, _ => l.fates
  | .cancel n => if n ∈ l.signal.waiting then l.fates.set n .withdrawn else l.fates
  | .cloneSender _ | .dropSender _ => l.fates
  | .dropReceiver => l.fates.map fun fate => if fate = .outstanding then .failed else fate

def takes (l : Ledger) (o : Operation) : Bool :=
  o = .accept && l.signal.accept.1 = .taken

def perform (l : Ledger) (o : Operation) : Ledger where
  signal := l.signal.perform o
  fates := l.fatesAfter o
  taken := l.taken + (l.takes o).toNat

def Step (l m : Ledger) : Prop :=
  ∃ o, l.signal.Enabled o ∧ m = l.perform o

abbrev Steps : Ledger → Ledger → Prop := Relation.ReflTransGen Step

/-- The request is outstanding, and those of all posts that were started earlier are not. -/
def IsEarliest (l : Ledger) (n : Nat) : Prop :=
  l.fates[n]? = some .outstanding ∧ ∀ m < n, l.fates[m]? ≠ some .outstanding

instance (l : Ledger) (n : Nat) : Decidable (l.IsEarliest n) :=
  inferInstanceAs (Decidable (_ ∧ ∀ m < n, _))

structure Kept (l : Ledger) : Prop where
  queued : l.signal.Queued
  stopped : l.signal.isReceiving = false → l.signal.queue = []
  sorted : l.signal.queue.Pairwise (· < ·)
  length : l.fates.length = l.signal.posts.length
  outstanding : ∀ n, n ∈ l.signal.queue ↔ l.fates[n]? = some .outstanding
  status : ∀ (n : Nat) (fate : Fate), l.fates[n]? = some fate →
    l.signal.posts[n]? = some fate.status ∨ l.signal.posts[n]? = some .cancelled
  count : l.taken = l.fates.count .taken

theorem kept_start : start.Kept where
  queued := queued_start
  stopped := by simp [start, ChangeSignal.start]
  sorted := by simp [start, ChangeSignal.start, queue]
  length := rfl
  outstanding := by simp [start, ChangeSignal.start, queue]
  status := by simp [start]
  count := rfl

/-! ### Single operations on the ledger -/

theorem perform_accept (l : Ledger)
    : l.perform .accept = l ∧ l.signal.accept.1 ≠ .taken ∨
      ∃ n, l.signal.isReceiving = true ∧ l.signal.slot = some n ∧
        l.perform .accept = ⟨l.signal.vacate n .accepted, l.fates.set n .taken, l.taken + 1⟩ := by
  rcases accept_eq l.signal with ⟨haccept, -⟩ | ⟨n, haccept, hreceiving, hslot⟩ | ⟨haccept, -, -⟩
  . refine .inl ⟨?_, by simp [haccept]⟩
    simp [perform, ChangeSignal.perform, fatesAfter, takes, haccept]
  . refine .inr ⟨n, hreceiving, hslot, ?_⟩
    simp [perform, ChangeSignal.perform, fatesAfter, takes, haccept, hslot]
  . refine .inl ?_
    rcases haccept with haccept | haccept <;>
      simp [perform, ChangeSignal.perform, fatesAfter, takes, haccept]

namespace Kept

variable {l : Ledger} (kept : l.Kept)
include kept

theorem lt_length {n : Nat} (hn : n ∈ l.signal.queue) : n < l.fates.length := by
  rw [kept.length]
  exact kept.queued.lt n hn

theorem slot_eq_none (hstopped : l.signal.isReceiving = false) : l.signal.slot = none :=
  ((queue_eq_nil_iff l.signal).mp (kept.stopped hstopped)).1

theorem slot_eq_some_iff (n : Nat) : l.signal.slot = some n ↔ l.IsEarliest n := by
  have hsorted := kept.sorted
  constructor
  . intro hslot
    rw [queue_eq_cons hslot, List.pairwise_cons] at hsorted
    refine ⟨(kept.outstanding n).mp (by simp [queue_eq_cons hslot]), ?_⟩
    intro m hm houtstanding
    have hmem := (kept.outstanding m).mpr houtstanding
    rw [queue_eq_cons hslot, List.mem_cons] at hmem
    rcases hmem with rfl | hmem
    . omega
    . have := hsorted.1 m hmem
      omega
  . rintro ⟨houtstanding, hearlier⟩
    have hmem := (kept.outstanding n).mpr houtstanding
    cases hslot : l.signal.slot with
    | none =>
      rw [kept.queued.queue_eq_nil hslot] at hmem
      contradiction
    | some first =>
      have hfirst : first ∈ l.signal.queue := by simp [queue_eq_cons hslot]
      rw [queue_eq_cons hslot, List.mem_cons] at hmem
      rcases hmem with rfl | hmem
      . rfl
      . rw [queue_eq_cons hslot, List.pairwise_cons] at hsorted
        exact absurd ((kept.outstanding first).mp hfirst) (hearlier first (hsorted.1 n hmem))

theorem accept_eq_taken_iff : l.signal.accept.1 = .taken ↔ ∃ n, l.IsEarliest n := by
  rw [ChangeSignal.accept_eq_taken_iff kept.slot_eq_none]
  simp only [kept.slot_eq_some_iff]

theorem post (sender : Nat) : (l.perform (.post sender)).Kept where
  queued := by
    cases hreceiving : l.signal.isReceiving with
    | true => exact kept.queued.post hreceiving
    | false => exact kept.queued.post_of_stopped hreceiving
  stopped := by
    simp only [perform, ChangeSignal.perform, isReceiving_post_eq, queue_post_eq]
    intro hstopped
    rw [kept.stopped hstopped, hstopped]
    rfl
  sorted := by
    simp only [perform, ChangeSignal.perform, queue_post_eq, List.pairwise_append]
    refine ⟨kept.sorted, by split <;> simp, ?_⟩
    intro m hm n hn
    have := kept.queued.lt m hm
    split at hn <;> simp_all
  length := by simp [perform, ChangeSignal.perform, fatesAfter, posts_post_eq, kept.length]
  outstanding := by
    intro n
    simp only [perform, ChangeSignal.perform, fatesAfter, queue_post_eq, List.mem_append,
      Sequence.getElem?_concat_eq_some_iff, kept.outstanding, kept.length]
    split <;> simp
  status := by
    intro n fate
    simp only [perform, ChangeSignal.perform, fatesAfter, posts_post_eq,
      Sequence.getElem?_concat_eq_some_iff, kept.length]
    rintro (hn | ⟨hn, rfl⟩)
    . exact (kept.status n fate hn).imp .inl .inl
    . refine .inl (.inr ⟨hn, ?_⟩)
      split <;> rfl
  count := by
    simp only [perform, fatesAfter, takes, List.count_append, kept.count]
    split <;> simp

theorem accept : (l.perform .accept).Kept := by
  rcases perform_accept l with ⟨haccept, -⟩ | ⟨n, hreceiving, hslot, haccept⟩
  . rw [haccept]
    exact kept
  . rw [haccept]
    have hqueue := queue_eq_cons hslot
    have hmem : n ∈ l.signal.queue := by simp [hqueue]
    have houtstanding := (kept.outstanding n).mp hmem
    have hlt := kept.lt_length hmem
    have hsorted := kept.sorted
    rw [hqueue, List.pairwise_cons] at hsorted
    constructor
    case queued => exact kept.queued.vacate hslot (fun h => nomatch h)
    case stopped =>
      intro hstopped
      rw [isReceiving_vacate, hreceiving] at hstopped
      contradiction
    case sorted =>
      rw [queue_vacate]
      exact hsorted.2
    case length => simp only [List.length_set, length_posts_vacate, kept.length]
    case outstanding =>
      intro m
      have hm := kept.outstanding m
      rw [hqueue, List.mem_cons] at hm
      rw [queue_vacate, List.getElem?_set]
      split
      . next heq =>
        subst heq
        have : n ∉ l.signal.waiting := fun hwaiting => absurd (hsorted.1 n hwaiting) (by omega)
        simp [this]
      . next hne => simpa [Ne.symm hne] using hm
    case status =>
      intro m fate
      rw [getElem?_posts_vacate, List.getElem?_set]
      by_cases heq : n = m
      . subst heq
        have hstatus := kept.status n .outstanding houtstanding
        simp only [if_true, hlt, true_and, Option.some.injEq]
        rintro rfl
        rcases hstatus with hstatus | hstatus <;> simp [hstatus, Fate.status]
      . simpa [heq] using kept.status m fate
    case count =>
      rw [List.count_set hlt, (List.getElem_eq_iff hlt).mpr houtstanding, ← kept.count]
      rfl

theorem slot_ne_of_mem_waiting {n : Nat} (hwaiting : n ∈ l.signal.waiting)
    : l.signal.slot ≠ some n := by
  intro hslot
  have hsorted := kept.sorted
  rw [queue_eq_cons hslot, List.pairwise_cons] at hsorted
  exact absurd (hsorted.1 n hwaiting) (Nat.lt_irrefl n)

theorem cancel (n : Nat) : (l.perform (.cancel n)).Kept where
  queued := kept.queued.cancel n
  stopped := by
    intro hstopped
    exact List.sublist_nil.mp (kept.stopped hstopped ▸ queue_cancel_sublist l.signal n)
  sorted := kept.sorted.sublist (queue_cancel_sublist l.signal n)
  length := by
    simp only [perform, ChangeSignal.perform, fatesAfter, length_posts_cancel, ← kept.length]
    split <;> simp
  outstanding := by
    intro m
    have hm := kept.outstanding m
    simp only [perform, ChangeSignal.perform, fatesAfter, queue_cancel]
    split
    . next hwaiting =>
      have hlt := kept.lt_length (List.mem_append_right _ hwaiting)
      have hslot := kept.slot_ne_of_mem_waiting hwaiting
      rw [List.getElem?_set]
      by_cases heq : n = m
      . subst heq
        simp [hlt, hslot]
      . simpa [heq, Ne.symm heq, queue] using hm
    . next hwaiting =>
      have : l.signal.waiting.filter (· ≠ n) = l.signal.waiting := by
        apply List.filter_eq_self.mpr
        intro k hk
        simp only [decide_eq_true_eq]
        rintro rfl
        exact hwaiting hk
      rw [this]
      exact hm
  status := by
    intro m fate
    simp only [perform, ChangeSignal.perform, fatesAfter, getElem?_posts_cancel]
    intro hfate
    by_cases hpending : n = m ∧ l.signal.posts[m]? = some .pending
    . simp [hpending]
    . rw [if_neg hpending]
      split at hfate
      . next hwaiting =>
        have hlt := kept.lt_length (List.mem_append_right _ hwaiting)
        have houtstanding := (kept.outstanding n).mp (List.mem_append_right _ hwaiting)
        rw [List.getElem?_set] at hfate
        split at hfate
        . next heq =>
          subst heq
          have hstatus := kept.status n .outstanding houtstanding
          refine .inr (hstatus.resolve_left ?_)
          intro h
          exact hpending ⟨rfl, h⟩
        . exact kept.status m fate hfate
      . exact kept.status m fate hfate
  count := by
    simp only [perform, fatesAfter, takes, kept.count]
    split
    . next hwaiting =>
      have hlt := kept.lt_length (List.mem_append_right _ hwaiting)
      have houtstanding := (kept.outstanding n).mp (List.mem_append_right _ hwaiting)
      rw [List.count_set hlt, (List.getElem_eq_iff hlt).mpr houtstanding]
      rfl
    . rfl

theorem senders (senders : List Bool)
    : { l with signal := { l.signal with senders } : Ledger }.Kept :=
  { kept with queued := { kept.queued with } }

theorem dropReceiver : (l.perform .dropReceiver).Kept where
  queued := Queued.dropReceiver l.signal
  stopped := fun _ => rfl
  sorted := List.Pairwise.nil
  length := by
    simp [perform, ChangeSignal.perform, fatesAfter, ChangeSignal.dropReceiver, kept.length]
  outstanding := by
    intro n
    simp only [perform, ChangeSignal.perform, fatesAfter, List.getElem?_map]
    have hqueue : l.signal.dropReceiver.queue = [] := rfl
    cases l.fates[n]? with
    | none => simp [hqueue]
    | some fate => cases fate <;> simp [hqueue]
  status := by
    intro n fate
    simp only [perform, ChangeSignal.perform, fatesAfter, List.getElem?_map,
      getElem?_posts_dropReceiver, Option.map_eq_some_iff]
    rintro ⟨old, hold, rfl⟩
    rcases kept.status n old hold with hstatus | hstatus
    . rw [hstatus]
      cases old <;> simp [Fate.status]
    . simp [hstatus]
  count := by
    simp only [perform, fatesAfter, takes, kept.count]
    induction l.fates with
    | nil => rfl
    | cons fate fates ih => cases fate <;> simp_all

theorem perform (o : Operation) : (l.perform o).Kept := by
  cases o with
  | post sender => exact kept.post sender
  | accept => exact kept.accept
  | cancel n => exact kept.cancel n
  | cloneSender _ => exact kept.senders _
  | dropSender _ => exact kept.senders _
  | dropReceiver => exact kept.dropReceiver

theorem steps {m : Ledger} (hsteps : l.Steps m) : m.Kept := by
  induction hsteps with
  | refl => exact kept
  | tail _ hstep ih =>
    obtain ⟨o, -, rfl⟩ := hstep
    exact ih.perform o

theorem forall₂_status
    : List.Forall₂ (fun fate status => status = fate.status ∨ status = .cancelled)
        l.fates l.signal.posts := by
  apply List.forall₂_iff_get.mpr
  refine ⟨kept.length, ?_⟩
  intro n hfate hpost
  have := kept.status n _ (List.getElem?_eq_getElem hfate)
  simpa [List.getElem?_eq_getElem hpost] using this

theorem fates_cancel {n : Nat} (hpending : l.signal.posts[n]? = some .pending)
    : (l.perform (.cancel n)).fates =
        if l.IsEarliest n then l.fates else l.fates.set n .withdrawn := by
  have hmem := kept.queued.pending n hpending
  simp only [Ledger.perform, fatesAfter, ← kept.slot_eq_some_iff]
  by_cases hslot : l.signal.slot = some n
  . have : n ∉ l.signal.waiting := fun hwaiting => kept.slot_ne_of_mem_waiting hwaiting hslot
    simp [hslot, this]
  . have : n ∈ l.signal.waiting := by
      rcases List.mem_append.mp hmem with hmem | hmem
      . exact absurd (by simpa using hmem) hslot
      . exact hmem
    simp [hslot, this]

omit kept in
theorem takes_eq_true_iff (o : Operation)
    : l.takes o = true ↔ o = .accept ∧ l.signal.accept.1 = .taken := by
  simp [takes]

theorem fate_perform_eq_taken_iff (o : Operation) (n : Nat)
    : (l.perform o).fates[n]? = some .taken ↔
        l.fates[n]? = some .taken ∨ l.takes o = true ∧ l.IsEarliest n := by
  cases o with
  | post _ =>
    simp only [Ledger.perform, fatesAfter, Sequence.getElem?_concat_eq_some_iff,
      takes_eq_true_iff, reduceCtorEq, false_and, or_false, or_iff_left_iff_imp, and_imp]
    intro _ hfate
    split at hfate <;> contradiction
  | accept =>
    rcases perform_accept l with ⟨haccept, hanswer⟩ | ⟨m, hreceiving, hslot, haccept⟩
    . simp [haccept, takes_eq_true_iff, hanswer]
    . have hlt := kept.lt_length (n := m) (by simp [queue_eq_cons hslot])
      have hanswer : l.signal.accept.1 = .taken := by rw [accept_eq_vacate hreceiving hslot]
      rw [haccept, takes_eq_true_iff, ← kept.slot_eq_some_iff, hslot, List.getElem?_set]
      by_cases heq : m = n
      . simp [heq, heq ▸ hlt, hanswer]
      . simp [heq]
  | cancel m =>
    simp only [Ledger.perform, fatesAfter, takes_eq_true_iff, reduceCtorEq, false_and, or_false]
    split
    . next hwaiting =>
      have houtstanding := (kept.outstanding m).mp (List.mem_append_right _ hwaiting)
      have hlt := kept.lt_length (List.mem_append_right _ hwaiting)
      by_cases heq : m = n
      . subst heq
        rw [houtstanding, List.getElem?_set_self hlt]
        simp
      . rw [List.getElem?_set_ne heq]
    . rfl
  | cloneSender _ => simp [Ledger.perform, fatesAfter, takes_eq_true_iff]
  | dropSender _ => simp [Ledger.perform, fatesAfter, takes_eq_true_iff]
  | dropReceiver =>
    simp only [Ledger.perform, fatesAfter, takes_eq_true_iff, reduceCtorEq, false_and, or_false,
      List.getElem?_map]
    cases l.fates[n]? with
    | none => simp
    | some fate => cases fate <;> simp

theorem status_perform_eq_accepted_iff (o : Operation) (n : Nat)
    : (l.signal.perform o).posts[n]? = some .accepted ↔
        l.signal.posts[n]? = some .accepted ∨
          l.takes o = true ∧ l.IsEarliest n ∧ l.signal.posts[n]? = some .pending := by
  cases o with
  | post _ =>
    simp only [ChangeSignal.perform, posts_post_eq, Sequence.getElem?_concat_eq_some_iff,
      takes_eq_true_iff, reduceCtorEq, false_and, or_false, or_iff_left_iff_imp, and_imp]
    intro _ hstatus
    split at hstatus <;> contradiction
  | accept =>
    rcases accept_eq l.signal with
      ⟨haccept, -⟩ | ⟨m, haccept, -, hslot⟩ | ⟨haccept | haccept, -, -⟩
    . simp [ChangeSignal.perform, takes_eq_true_iff, haccept]
    . rw [ChangeSignal.perform, haccept, getElem?_posts_vacate, takes_eq_true_iff, haccept,
        ← kept.slot_eq_some_iff, hslot]
      by_cases h : m = n ∧ l.signal.posts[n]? = some .pending
      . simp [h.1, h.2]
      . rw [if_neg h]
        simp only [true_and, Option.some.injEq, h, or_false]
    . simp [ChangeSignal.perform, takes_eq_true_iff, haccept]
    . simp [ChangeSignal.perform, takes_eq_true_iff, haccept]
  | cancel m =>
    simp only [ChangeSignal.perform, getElem?_posts_cancel, takes_eq_true_iff, reduceCtorEq,
      false_and, or_false]
    split
    . next h => simp [h.2]
    . rfl
  | cloneSender _ => simp [ChangeSignal.perform, cloneSender, takes_eq_true_iff]
  | dropSender _ => simp [ChangeSignal.perform, dropSender, takes_eq_true_iff]
  | dropReceiver =>
    simp only [ChangeSignal.perform, getElem?_posts_dropReceiver, takes_eq_true_iff, reduceCtorEq,
      false_and, or_false]
    split
    . next h => simp [h]
    . rfl

end Kept

theorem count_taken {fates : List Fate} {posts : List Status}
    (h : List.Forall₂ (fun fate status => status = fate.status ∨ status = .cancelled) fates posts)
    : fates.count .taken =
        posts.count .accepted + (fates.zip posts).count (.taken, .cancelled) := by
  induction h with
  | nil => rfl
  | @cons fate status fates posts hstatus _ ih =>
    rcases hstatus with rfl | rfl <;> cases fate <;> simp [Fate.status, ih] <;> omega

theorem getElem?_posts_steps {l m : Ledger} (hsteps : l.Steps m) {n : Nat} {status : Status}
    (hn : l.signal.posts[n]? = some status) (hstatus : status ≠ .pending)
    : m.signal.posts[n]? = some status := by
  induction hsteps with
  | refl => exact hn
  | tail _ hstep ih =>
    obtain ⟨o, -, rfl⟩ := hstep
    exact getElem?_posts_perform_of_ne o ih hstatus

theorem first_in_first_out {l : Ledger} (h : start.Steps l)
    : (∀ n, l.signal.slot = some n ↔ l.IsEarliest n) ∧
      (l.signal.accept.1 = .taken ↔ ∃ n, l.IsEarliest n) ∧
      (∀ o n, (l.perform o).fates[n]? = some .taken ↔
        l.fates[n]? = some .taken ∨ l.takes o = true ∧ l.IsEarliest n) ∧
      (∀ n, l.signal.posts[n]? = some .pending → (l.perform (.cancel n)).fates =
        if l.IsEarliest n then l.fates else l.fates.set n .withdrawn) ∧
      (∀ o n, (l.perform o).signal.posts[n]? = some .accepted ↔
        l.signal.posts[n]? = some .accepted ∨
          l.takes o = true ∧ l.IsEarliest n ∧ l.signal.posts[n]? = some .pending) ∧
      l.taken = l.signal.posts.count .accepted +
        (l.fates.zip l.signal.posts).count (.taken, .cancelled) ∧
      (∀ m, l.Steps m → ∀ (n : Nat) status, l.signal.posts[n]? = some status →
        status ≠ .pending → m.signal.posts[n]? = some status) := by
  have kept := kept_start.steps h
  refine ⟨kept.slot_eq_some_iff, kept.accept_eq_taken_iff, kept.fate_perform_eq_taken_iff, ?_,
    kept.status_perform_eq_accepted_iff, ?_, ?_⟩
  . intro n hpending
    exact kept.fates_cancel hpending
  . rw [kept.count]
    exact count_taken kept.forall₂_status
  . intro m hsteps n status hn hstatus
    exact getElem?_posts_steps hsteps hn hstatus

/-- Of three posts the first is cancelled in the slot and the second while it waits: two requests
are taken, one of them that of a cancelled post. -/
theorem first_in_first_out_of_cancelled
    : ∃ l, start.Steps l ∧ l.fates = [.taken, .withdrawn, .taken] ∧
        l.signal.posts = [.cancelled, .cancelled, .accepted] ∧ l.taken = 2 ∧
        l.taken = l.signal.posts.count .accepted +
          (l.fates.zip l.signal.posts).count (.taken, .cancelled) := by
  have h : start.Steps _ := Relation.ReflTransGen.refl
    |>.tail ⟨.post 0, rfl, rfl⟩
    |>.tail ⟨.cloneSender 0, rfl, rfl⟩
    |>.tail ⟨.post 1, rfl, rfl⟩
    |>.tail ⟨.dropSender 0, rfl, rfl⟩
    |>.tail ⟨.post 1, rfl, rfl⟩
    |>.tail ⟨.cancel 0, rfl, rfl⟩
    |>.tail ⟨.cancel 1, rfl, rfl⟩
    |>.tail ⟨.accept, trivial, rfl⟩
    |>.tail ⟨.accept, trivial, rfl⟩
  exact ⟨_, h, by decide, by decide, by decide, (first_in_first_out h).2.2.2.2.2.1⟩

end Ledger
end RegistrySync.ChangeSignal
