import RegistrySync.Proofs.ChangeSignal.Ledger

/-!
Progress of a change signal. While there is a receiver no post waits for nothing: a request is in
the slot, and as many accepts as there are requests take all of them. The receiver is told that the
signal is closed only if no request can come any more, and once it is dropped no post succeeds.
-/

namespace RegistrySync.ChangeSignal

def Step (s u : ChangeSignal) : Prop :=
  ∃ o, s.Enabled o ∧ u = s.perform o

abbrev Steps : ChangeSignal → ChangeSignal → Prop := Relation.ReflTransGen Step

/-- Somebody can still post, or has a post pending. -/
def HasSender (s : ChangeSignal) : Prop :=
  true ∈ s.senders ∨ Status.pending ∈ s.posts

/-- So many accepts in a row, with what they answer. -/
def acceptMany : Nat → ChangeSignal → List Answer × ChangeSignal
  | 0, s => ([], s)
  | k + 1, s => (s.accept.1 :: (acceptMany k s.accept.2).1, (acceptMany k s.accept.2).2)

variable {s u : ChangeSignal}

theorem exists_ledger (h : start.Steps s) : ∃ l, Ledger.start.Steps l ∧ l.signal = s := by
  induction h with
  | refl => exact ⟨.start, .refl, rfl⟩
  | tail _ hstep ih =>
    obtain ⟨l, hsteps, rfl⟩ := ih
    obtain ⟨o, henabled, rfl⟩ := hstep
    exact ⟨l.perform o, hsteps.tail ⟨o, henabled, rfl⟩, rfl⟩

theorem Steps.perform (h : s.Steps u) (o : Operation) (henabled : u.Enabled o)
    : s.Steps (u.perform o) :=
  h.tail ⟨o, henabled, rfl⟩

theorem queued_of_steps (h : start.Steps s) : s.Queued := by
  obtain ⟨l, hsteps, rfl⟩ := exists_ledger h
  exact (Ledger.kept_start.steps hsteps).queued

/-! ### What an accept answers -/

theorem isClosed_eq_true_iff (s : ChangeSignal) : s.isClosed = true ↔ ¬ s.HasSender := by
  simp [isClosed, HasSender]

theorem Queued.exists_slot (h : s.Queued) {n : Nat} (hpending : s.posts[n]? = some .pending)
    : ∃ first, s.slot = some first := by
  rw [← Option.ne_none_iff_exists']
  intro hslot
  have hmem := h.pending n hpending
  rw [h.queue_eq_nil hslot] at hmem
  contradiction

theorem accept_answers (hreceiving : s.isReceiving = true)
    : (s.accept.1 = .taken ↔ ∃ n, s.slot = some n) ∧
      (s.accept.1 = .closed ↔ s.slot = none ∧ ¬ s.HasSender) ∧
      (s.accept.1 = .pending ↔ s.slot = none ∧ s.HasSender) ∧
      (s.accept.1 ≠ .taken → s.accept.2 = s) := by
  cases hslot : s.slot with
  | some n =>
    rw [accept_eq_vacate hreceiving hslot]
    simp
  | none =>
    rw [accept_of_slot_eq_none hreceiving hslot, ← isClosed_eq_true_iff]
    have hsender : s.HasSender ↔ ¬ s.isClosed = true := by
      rw [isClosed_eq_true_iff, not_not]
    rw [hsender]
    cases s.isClosed <;> simp

/-! ### Taking all requests -/

theorem requests_eq_length_queue (s : ChangeSignal) : s.requests = s.queue.length := by
  rw [requests, queue, List.length_append]

theorem getElem?_posts_acceptMany (k : Nat) {n : Nat} {status : Status}
    (hn : s.posts[n]? = some status) (hstatus : status ≠ .pending)
    : (acceptMany k s).2.posts[n]? = some status := by
  induction k generalizing s with
  | zero => exact hn
  | succ k ih => exact ih (getElem?_posts_perform_of_ne .accept hn hstatus)

theorem Queued.takes_all (h : s.Queued) (hreceiving : s.isReceiving = true) {requests : List Nat}
    (hqueue : s.queue = requests)
    : (acceptMany requests.length s).1 = List.replicate requests.length .taken ∧
      (acceptMany requests.length s).2.queue = [] ∧
      ∀ (n : Nat), s.posts[n]? = some .pending →
        (acceptMany requests.length s).2.posts[n]? = some .accepted := by
  -- Each accept takes the first request, and the queue is then that of the others.
  induction requests generalizing s with
  | nil =>
    refine ⟨rfl, hqueue, ?_⟩
    intro n hpending
    have hmem := h.pending n hpending
    rw [hqueue] at hmem
    contradiction
  | cons first others ih =>
    have hslot : s.slot = some first := by
      cases hslot : s.slot with
      | none =>
        rw [h.queue_eq_nil hslot] at hqueue
        contradiction
      | some n =>
        rw [queue_eq_cons hslot] at hqueue
        injection hqueue with hfirst
        rw [hfirst]
    have hwaiting : (s.vacate first .accepted).queue = others := by
      rw [queue_eq_cons hslot] at hqueue
      injection hqueue with _ hothers
      rw [queue_vacate, hothers]
    have hqueued : (s.vacate first .accepted).Queued := h.vacate hslot (by decide)
    obtain ⟨hanswers, hnone, hposts⟩ :=
      ih hqueued ((isReceiving_vacate s first .accepted).trans hreceiving) hwaiting
    rw [List.length_cons, acceptMany, accept_eq_vacate hreceiving hslot]
    refine ⟨?_, hnone, ?_⟩
    . rw [hanswers, List.replicate_succ]
    . intro n hpending
      by_cases hfirst : first = n
      . have haccepted : (s.vacate first .accepted).posts[n]? = some .accepted := by
          rw [getElem?_posts_vacate, if_pos ⟨hfirst, hpending⟩]
        exact getElem?_posts_acceptMany others.length haccepted (by decide)
      . apply hposts
        rw [getElem?_posts_vacate, if_neg (fun h => hfirst h.1), hpending]

/-! ### When no request can come any more -/

theorem posts_dropReceiver_of_not_mem (hnone : Status.pending ∉ s.posts)
    : s.dropReceiver.posts = s.posts := by
  apply List.ext_getElem?
  intro n
  rw [getElem?_posts_dropReceiver, if_neg]
  exact fun hn => hnone (List.mem_of_getElem? hn)

/-- Nothing is in the slot, and nobody can put anything there. -/
structure Exhausted (s : ChangeSignal) : Prop where
  slot : s.slot = none
  senders : ¬ s.HasSender

theorem Exhausted.perform (h : s.Exhausted) {o : Operation} (henabled : s.Enabled o)
    : (s.perform o).Exhausted ∧ (s.perform o).posts = s.posts := by
  have hsender : ∀ n, s.senders[n]? ≠ some true :=
    fun n hn => h.senders (.inl (List.mem_of_getElem? hn))
  have hpost : Status.pending ∉ s.posts := fun hmem => h.senders (.inr hmem)
  cases o with
  | post n => exact absurd henabled (hsender n)
  | accept =>
    have haccept : s.accept.2 = s := by
      cases hreceiving : s.isReceiving with
      | false => rw [accept_of_stopped hreceiving]
      | true => rw [accept_of_slot_eq_none hreceiving h.slot]
    rw [ChangeSignal.perform, haccept]
    exact ⟨h, rfl⟩
  | cancel n => exact absurd (List.mem_of_getElem? henabled) hpost
  | cloneSender n => exact absurd henabled (hsender n)
  | dropSender n => exact absurd henabled (hsender n)
  | dropReceiver =>
    have hposts := posts_dropReceiver_of_not_mem hpost
    refine ⟨⟨rfl, ?_⟩, hposts⟩
    rintro (hmem | hmem)
    . exact h.senders (.inl hmem)
    . rw [ChangeSignal.perform, hposts] at hmem
      exact hpost hmem

theorem Exhausted.steps (h : s.Exhausted) (hsteps : s.Steps u)
    : u.Exhausted ∧ u.posts = s.posts := by
  induction hsteps with
  | refl => exact ⟨h, rfl⟩
  | tail _ hstep ih =>
    obtain ⟨o, henabled, rfl⟩ := hstep
    obtain ⟨hexhausted, hposts⟩ := ih.1.perform henabled
    exact ⟨hexhausted, hposts.trans ih.2⟩

/-! ### When the receiver is dropped -/

theorem not_mem_posts_dropReceiver (s : ChangeSignal) : Status.pending ∉ s.dropReceiver.posts := by
  rw [dropReceiver, List.mem_map]
  rintro ⟨old, -, hold⟩
  split at hold
  . contradiction
  . contradiction

/-- No post is pending, and no receiver will take a request. -/
structure Abandoned (s : ChangeSignal) : Prop where
  isReceiving : s.isReceiving = false
  posts : Status.pending ∉ s.posts

theorem Abandoned.perform (h : s.Abandoned) {o : Operation} (henabled : s.Enabled o)
    : (s.perform o).isReceiving = false ∧
      ∃ k, (s.perform o).posts = s.posts ++ List.replicate k .stopped := by
  have hsame : ∀ posts, posts = s.posts → ∃ k, posts = s.posts ++ List.replicate k .stopped :=
    fun posts hposts => ⟨0, by simp [hposts]⟩
  cases o with
  | post _ =>
    refine ⟨(isReceiving_post_eq s).trans h.isReceiving, 1, ?_⟩
    rw [ChangeSignal.perform, posts_post_eq, h.isReceiving]
    rfl
  | accept =>
    rw [ChangeSignal.perform, accept_of_stopped h.isReceiving]
    exact ⟨h.isReceiving, hsame _ rfl⟩
  | cancel n => exact absurd (List.mem_of_getElem? henabled) h.posts
  | cloneSender _ => exact ⟨h.isReceiving, hsame _ rfl⟩
  | dropSender _ => exact ⟨h.isReceiving, hsame _ rfl⟩
  | dropReceiver => exact ⟨rfl, hsame _ (posts_dropReceiver_of_not_mem h.posts)⟩

theorem Abandoned.steps (h : s.Abandoned) (hsteps : s.Steps u)
    : u.Abandoned ∧ ∃ k, u.posts = s.posts ++ List.replicate k .stopped := by
  induction hsteps with
  | refl => exact ⟨h, 0, by simp⟩
  | tail _ hstep ih =>
    obtain ⟨o, henabled, rfl⟩ := hstep
    obtain ⟨habandoned, k, hposts⟩ := ih
    obtain ⟨hreceiving, more, hmore⟩ := habandoned.perform henabled
    refine ⟨⟨hreceiving, ?_⟩, k + more, ?_⟩
    . rw [hmore, List.mem_append, List.mem_replicate]
      rintro (hmem | ⟨-, hmem⟩)
      . exact habandoned.posts hmem
      . contradiction
    . rw [hmore, hposts, List.append_assoc, List.replicate_append_replicate]

theorem getElem?_posts_of_abandoned (hsteps : s.dropReceiver.Steps u) (n : Nat)
    : u.posts[n]? =
        if n < s.posts.length then
          if s.posts[n]? = some .pending then some .stopped else s.posts[n]?
        else if n < u.posts.length then some .stopped else none := by
  have hlength : s.dropReceiver.posts.length = s.posts.length := by simp [dropReceiver]
  obtain ⟨-, k, hposts⟩ :=
    Abandoned.steps ⟨rfl, not_mem_posts_dropReceiver s⟩ hsteps
  split
  . next hlt =>
    rw [hposts, List.getElem?_append_left (hlength ▸ hlt), getElem?_posts_dropReceiver]
  . next hge =>
    rw [hposts, List.getElem?_append_right (by omega), List.getElem?_replicate, hlength,
      List.length_append, List.length_replicate, hlength]
    congr 1
    rw [eq_iff_iff]
    omega

/-! ### Nobody is stranded -/

theorem no_post_stranded (h : start.Steps s) (hreceiving : s.isReceiving = true)
    : (∀ n : Nat, s.posts[n]? = some .pending → ∃ first, s.slot = some first) ∧
      (s.accept.1 = .taken ↔ ∃ first, s.slot = some first) ∧
      (s.accept.1 = .closed ↔ s.slot = none ∧ ¬ s.HasSender) ∧
      (s.accept.1 = .pending ↔ s.slot = none ∧ s.HasSender) ∧
      (s.accept.1 ≠ .taken → s.accept.2 = s) ∧
      (s.accept.1 = .closed → ∀ u, s.Steps u → u.slot = none ∧ u.posts = s.posts) ∧
      (acceptMany s.requests s).1 = List.replicate s.requests .taken ∧
      (acceptMany s.requests s).2.slot = none ∧
      (∀ n : Nat, s.posts[n]? = some .pending →
        (acceptMany s.requests s).2.posts[n]? = some .accepted) ∧
      ∀ u, s.dropReceiver.Steps u →
        (∀ n : Nat, s.posts[n]? = some .pending → u.posts[n]? = some .stopped) ∧
        (∀ n, s.posts.length ≤ n → n < u.posts.length → u.posts[n]? = some .stopped) ∧
        ∀ n : Nat, u.posts[n]? = some .accepted → s.posts[n]? = some .accepted := by
  have hqueued := queued_of_steps h
  obtain ⟨htaken, hclosed, hpending, hsame⟩ := accept_answers hreceiving
  obtain ⟨hanswers, hqueue, haccepted⟩ := hqueued.takes_all hreceiving rfl
  rw [← requests_eq_length_queue] at hanswers hqueue haccepted
  refine ⟨fun n hn => hqueued.exists_slot hn, htaken, hclosed, hpending, hsame, ?_, hanswers, ?_,
    haccepted, ?_⟩
  . intro hend u hsteps
    obtain ⟨hslot, hsender⟩ := hclosed.mp hend
    obtain ⟨hexhausted, hposts⟩ := Exhausted.steps ⟨hslot, hsender⟩ hsteps
    exact ⟨hexhausted.slot, hposts⟩
  . exact ((queue_eq_nil_iff _).mp hqueue).1
  . intro u hsteps
    have hposts := getElem?_posts_of_abandoned hsteps
    refine ⟨?_, ?_, ?_⟩
    . intro n hn
      rw [hposts, if_pos (List.getElem?_eq_some_iff.mp hn).1, if_pos hn]
    . intro n hge hlt
      rw [hposts, if_neg (Nat.not_lt.mpr hge), if_pos hlt]
    . intro n hn
      rw [hposts] at hn
      split at hn
      . split at hn
        . contradiction
        . exact hn
      . split at hn
        . contradiction
        . contradiction

/-- The first of three posts is cancelled in the slot and its sender dropped: three accepts take
three requests, and both posts that were pending are accepted. -/
theorem no_post_stranded_behind_cancelled
    : ∃ s, start.Steps s ∧ s.isReceiving = true ∧
        s.posts = [.cancelled, .pending, .pending] ∧ s.senders = [false, true] ∧
        s.requests = 3 ∧ (acceptMany 3 s).1 = [.taken, .taken, .taken] ∧
        (acceptMany 3 s).2.slot = none ∧
        (acceptMany 3 s).2.posts = [.cancelled, .accepted, .accepted] := by
  have hstart : start.Steps start := .refl
  have hposted := hstart.perform (.cloneSender 0) rfl
    |>.perform (.post 0) rfl
    |>.perform (.post 1) rfl
    |>.perform (.post 1) rfl
  have h := hposted.perform (.cancel 0) rfl |>.perform (.dropSender 0) rfl
  obtain ⟨-, -, -, -, -, -, hanswers, hslot, -, -⟩ := no_post_stranded h rfl
  exact ⟨_, h, rfl, by decide, by decide, by decide, hanswers, hslot, by decide⟩

end RegistrySync.ChangeSignal
