import RegistrySync.Proofs.Synchronizer.Execution

/-!
No change is lost, however the calls and the writer interleave: each accepted request has its own
pass, which writes all that had been changed before the request was accepted, and once all calls
have returned the last pass has written the current configuration.
-/

namespace RegistrySync

theorem Call.position?_of_request? {call : Call} {request : Nat}
    (h : call.request? = some request) : ∃ position, call.position? = some position := by
  obtain ⟨change, stage⟩ := call
  cases stage with
  | posted position request => exact ⟨position, rfl⟩
  | _ => contradiction

namespace Synchronizer

theorem change_eq_ok_iff {s t : Synchronizer} {change : Change}
    : s.change change = .ok t ↔
        ∃ configuration, s.configuration.apply change = .ok configuration ∧
          t = { s with configuration } := by
  unfold Synchronizer.change
  cases s.configuration.apply change <;> simp [Except.map, eq_comm]

theorem destinations_acceptRequest (s : Synchronizer)
    : s.acceptRequest.destinations = s.destinations := by
  unfold acceptRequest
  split <;> rfl

end Synchronizer

namespace Execution

variable {e : Execution}

/-- The change of a request is one of the first changes made. -/
def Ahead (e : Execution) (request madeBefore : Nat) : Prop :=
  ∀ call ∈ e.calls, call.request? = some request →
    ∃ position < madeBefore, call.position? = some position ∧
      e.made[position]? = some call.change

/-- The pass for a request writes the configuration after some of the changes, the request's own
and all that were made before it was accepted among them. -/
structure Contains (e : Execution) (w : Writing) : Prop where
  posted : ∃ call ∈ e.calls, call.request? = some w.request
  ahead : e.Ahead w.request w.madeBefore
  madeBefore_le : w.madeBefore ≤ w.made
  made_le : w.made ≤ e.made.length
  configuration : w.configuration = .after (e.made.take w.made)

structure Invariant (e : Execution) : Prop where
  receiving : e.signal.isReceiving = true
  queued : e.signal.Queued
  configuration : e.configuration = .after e.made
  position : ∀ call ∈ e.calls, ∀ p, call.position? = some p → e.made[p]? = some call.change
  maker : ∀ p < e.made.length, ∃ call ∈ e.calls, call.position? = some p
  poster : ∀ n < e.signal.posts.length, ∃ call ∈ e.calls, call.request? = some n
  acceptedPosts : ∀ (n : Nat), e.signal.posts[n]? = some .accepted → n ∈ e.accepted
  acceptedRequests : ∀ n ∈ e.accepted, n < e.signal.posts.length ∧ n ∉ e.signal.queue
  nodup : e.accepted.Nodup
  served : e.written.map (·.request) ++ e.writer.request?.toList = e.accepted
  count : e.synchronizer.accepted = e.accepted.length
  sequence : e.reports.map (·.sequence) = List.range' 1 e.written.length
  lastReport : e.synchronizer.report = e.reports.getLast?
  contained : ∀ w ∈ e.written, e.Contains w
  monotone : (e.written.map (·.made)).Pairwise (· ≤ ·)
  ahead : ∀ n m, e.writer = .accepted n m ∨ e.writer = .locked n m →
    m ≤ e.made.length ∧ e.Ahead n m
  disk : ∀ r summary, e.synchronizer.report = some r → r.outcome = .ok summary →
    ∃ before, Pass.run e.lastWritten e.synchronizer.destinations before =
      (.ok summary, e.synchronizer.tree)

theorem invariant_start (d : Destinations) (t : FileTree) : (start d t).Invariant where
  receiving := rfl
  queued := ChangeSignal.queued_start
  configuration := rfl
  position := by simp [start]
  maker := by simp [start]
  poster := by simp [start, signal, Synchronizer.start, ChangeSignal.start]
  acceptedPosts := by simp [start, signal, Synchronizer.start, ChangeSignal.start]
  acceptedRequests := by simp [start]
  nodup := List.nodup_nil
  served := rfl
  count := rfl
  sequence := rfl
  lastReport := rfl
  contained := by simp [start]
  monotone := List.Pairwise.nil
  ahead := by simp [start]
  disk := by simp [start, Synchronizer.start]

/-! ### Calls -/

theorem forall_calls_setStage {P : Call → Prop} (h : ∀ call ∈ e.calls, P call) (i : Nat)
    {change : Change} {stage : Call.Stage} (hnew : P ⟨change, stage⟩)
    : ∀ call ∈ (e.setStage i change stage).calls, P call := by
  intro call hcall
  rcases List.mem_or_eq_of_mem_set hcall with hcall | rfl
  . exact h call hcall
  . exact hnew

theorem mem_calls_setStage {i : Nat} {call : Call} (hcall : e.calls[i]? = some call)
    (change : Change) (stage : Call.Stage)
    : ⟨change, stage⟩ ∈ (e.setStage i change stage).calls := by
  apply List.mem_set
  exact (List.getElem?_eq_some_iff.mp hcall).choose

theorem exists_calls_setStage {P : Call → Prop} (h : ∃ call ∈ e.calls, P call) {i : Nat}
    {change : Change} {old stage : Call.Stage} (hcall : e.calls[i]? = some ⟨change, old⟩)
    (hkeep : P ⟨change, old⟩ → P ⟨change, stage⟩)
    : ∃ call ∈ (e.setStage i change stage).calls, P call := by
  obtain ⟨call, hmem, hP⟩ := h
  obtain ⟨j, hj⟩ := List.mem_iff_getElem?.mp hmem
  by_cases hij : i = j
  . subst hij
    rw [hcall] at hj
    injection hj with hj
    subst hj
    exact ⟨_, mem_calls_setStage hcall change stage, hkeep hP⟩
  . refine ⟨call, List.mem_iff_getElem?.mpr ⟨j, ?_⟩, hP⟩
    rw [setStage, List.getElem?_set_ne hij, hj]

theorem Ahead.setStage {i n m : Nat} {change : Change} {old stage : Call.Stage}
    (h : e.Ahead n m) (hcall : e.calls[i]? = some ⟨change, old⟩)
    (hposition : Call.position? ⟨change, stage⟩ = Call.position? ⟨change, old⟩)
    (hrequest : Call.request? ⟨change, stage⟩ = some n → Call.request? ⟨change, old⟩ = some n)
    : (e.setStage i change stage).Ahead n m := by
  apply forall_calls_setStage h
  intro hnew
  have hold := h ⟨change, old⟩ (List.mem_of_getElem? hcall) (hrequest hnew)
  rw [hposition]
  exact hold

theorem Contains.setStage {i : Nat} {w : Writing} {change : Change} {old stage : Call.Stage}
    (h : e.Contains w) (hcall : e.calls[i]? = some ⟨change, old⟩)
    (hposition : Call.position? ⟨change, stage⟩ = Call.position? ⟨change, old⟩)
    (hrequest : Call.request? ⟨change, stage⟩ = some w.request ↔
      Call.request? ⟨change, old⟩ = some w.request)
    : (e.setStage i change stage).Contains w where
  posted := exists_calls_setStage h.posted hcall hrequest.mpr
  ahead := h.ahead.setStage hcall hposition hrequest.mp
  madeBefore_le := h.madeBefore_le
  made_le := h.made_le
  configuration := h.configuration

theorem Ahead.begin {n m : Nat} (h : e.Ahead n m) (change : Change)
    : (e.begin change).Ahead n m := by
  intro call hcall hrequest
  rcases List.mem_append.mp hcall with hcall | hcall
  . exact h call hcall hrequest
  . rw [List.mem_singleton.mp hcall] at hrequest
    contradiction

theorem Contains.begin {w : Writing} (h : e.Contains w) (change : Change)
    : (e.begin change).Contains w where
  posted := by
    obtain ⟨call, hcall, hrequest⟩ := h.posted
    exact ⟨call, List.mem_append_left _ hcall, hrequest⟩
  ahead := h.ahead.begin change
  madeBefore_le := h.madeBefore_le
  made_le := h.made_le
  configuration := h.configuration

theorem Contains.of_eq {f : Execution} {w : Writing} (h : e.Contains w)
    (hcalls : f.calls = e.calls) (hmade : f.made = e.made) : f.Contains w := by
  obtain ⟨posted, ahead, madeBefore_le, made_le, configuration⟩ := h
  unfold Ahead at ahead
  rw [← hcalls, ← hmade] at ahead
  rw [← hcalls] at posted
  rw [← hmade] at made_le configuration
  exact ⟨posted, ahead, madeBefore_le, made_le, configuration⟩

theorem Ahead.change {i n m : Nat} {change : Change} (h : e.Ahead n m) (hm : m ≤ e.made.length)
    (s : Synchronizer) : (e.change i change s).Ahead n m := by
  apply forall_calls_setStage
  . intro call hcall hrequest
    obtain ⟨position, hposition, hcallPosition, hmade⟩ := h call hcall hrequest
    refine ⟨position, hposition, hcallPosition, ?_⟩
    rw [Execution.change, List.getElem?_append_left (by omega)]
    exact hmade
  . intro hrequest
    contradiction

theorem Contains.change {i : Nat} {w : Writing} {change : Change} (h : e.Contains w)
    (hcall : e.calls[i]? = some ⟨change, .started⟩) (s : Synchronizer)
    : (e.change i change s).Contains w where
  posted := exists_calls_setStage h.posted hcall (fun hrequest => nomatch hrequest)
  ahead := h.ahead.change (Nat.le_trans h.madeBefore_le h.made_le) s
  madeBefore_le := h.madeBefore_le
  made_le := by
    rw [Execution.change, List.length_append]
    exact Nat.le_add_right_of_le h.made_le
  configuration := by
    rw [Execution.change, List.take_append_of_le_length h.made_le]
    exact h.configuration

namespace Invariant

variable (inv : e.Invariant)
include inv

theorem mem_accepted_of_mem_written {w : Writing} (hw : w ∈ e.written)
    : w.request ∈ e.accepted := by
  rw [← inv.served]
  exact List.mem_append_left _ (List.mem_map_of_mem hw)

theorem mem_accepted_of_writer {n m : Nat}
    (hwriter : e.writer = .accepted n m ∨ e.writer = .locked n m)
    : n ∈ e.accepted := by
  rw [← inv.served]
  rcases hwriter with hwriter | hwriter <;> simp [hwriter, Writer.request?]

theorem ne_length_of_mem_accepted {n : Nat} (hn : n ∈ e.accepted)
    : e.signal.posts.length ≠ n :=
  Nat.ne_of_gt (inv.acceptedRequests n hn).1

theorem begin (change : Change) : (e.begin change).Invariant :=
  { inv with
    position := by
      intro call hcall
      rcases List.mem_append.mp hcall with hcall | hcall
      . exact inv.position call hcall
      . rw [List.mem_singleton.mp hcall]
        intro p hp
        contradiction
    maker := by
      intro p hp
      obtain ⟨call, hcall, hposition⟩ := inv.maker p hp
      exact ⟨call, List.mem_append_left _ hcall, hposition⟩
    poster := by
      intro n hn
      obtain ⟨call, hcall, hrequest⟩ := inv.poster n hn
      exact ⟨call, List.mem_append_left _ hcall, hrequest⟩
    contained := by
      intro w hw
      exact (inv.contained w hw).begin change
    ahead := by
      intro n m hwriter
      obtain ⟨hm, hahead⟩ := inv.ahead n m hwriter
      exact ⟨hm, hahead.begin change⟩ }

theorem setStage {i : Nat} {change : Change} {old stage : Call.Stage}
    (hcall : e.calls[i]? = some ⟨change, old⟩)
    (hposition : Call.position? ⟨change, stage⟩ = Call.position? ⟨change, old⟩)
    (hrequest : Call.request? ⟨change, stage⟩ = Call.request? ⟨change, old⟩)
    : (e.setStage i change stage).Invariant :=
  { inv with
    position := by
      apply forall_calls_setStage inv.position
      rw [hposition]
      exact inv.position _ (List.mem_of_getElem? hcall)
    maker := by
      intro p hp
      apply exists_calls_setStage (inv.maker p hp) hcall
      rw [hposition]
      exact id
    poster := by
      intro n hn
      apply exists_calls_setStage (inv.poster n hn) hcall
      rw [hrequest]
      exact id
    contained := by
      intro w hw
      apply (inv.contained w hw).setStage hcall hposition
      rw [hrequest]
    ahead := by
      intro n m hwriter
      obtain ⟨hm, hahead⟩ := inv.ahead n m hwriter
      refine ⟨hm, hahead.setStage hcall hposition ?_⟩
      rw [hrequest]
      exact id }

theorem change {i : Nat} {change : Change} {s : Synchronizer}
    (hcall : e.calls[i]? = some ⟨change, .started⟩) (hchange : e.synchronizer.change change = .ok s)
    : (e.change i change s).Invariant := by
  obtain ⟨configuration, happly, rfl⟩ := Synchronizer.change_eq_ok_iff.mp hchange
  exact { inv with
    configuration := by
      rw [Execution.change, Configuration.after_concat, ← inv.configuration]
      unfold Configuration.next Execution.configuration
      rw [happly]
    position := by
      apply forall_calls_setStage
      . intro call hcall p hp
        have hmade := inv.position call hcall p hp
        have hlt := (List.getElem?_eq_some_iff.mp hmade).choose
        rw [Execution.change, List.getElem?_append_left hlt]
        exact hmade
      . intro p hp
        injection hp with hp
        subst hp
        exact List.getElem?_concat_length
    maker := by
      intro p hp
      rw [Execution.change, List.length_append] at hp
      rcases Nat.lt_succ_iff_lt_or_eq.mp hp with hp | rfl
      . exact exists_calls_setStage (inv.maker p hp) hcall (fun hposition => nomatch hposition)
      . exact ⟨_, mem_calls_setStage hcall change _, rfl⟩
    poster := by
      intro n hn
      exact exists_calls_setStage (inv.poster n hn) hcall (fun hrequest => nomatch hrequest)
    contained := by
      intro w hw
      exact (inv.contained w hw).change hcall _
    ahead := by
      intro n m hwriter
      obtain ⟨hm, hahead⟩ := inv.ahead n m hwriter
      refine ⟨?_, hahead.change hm _⟩
      rw [Execution.change, List.length_append]
      exact Nat.le_add_right_of_le hm }

theorem post {i : Nat} {change : Change} {position : Nat}
    (hcall : e.calls[i]? = some ⟨change, .changed position⟩)
    : (e.post i change position).Invariant := by
  have hposts := ChangeSignal.posts_post inv.receiving
  have hqueue := ChangeSignal.queue_post inv.receiving
  -- The number of the new request is larger than that of every request accepted so far.
  have hnew : ∀ n ∈ e.accepted,
      ¬ Call.request? ⟨change, .posted position e.signal.posts.length⟩ = some n := by
    intro n hn hrequest
    injection hrequest with hrequest
    exact inv.ne_length_of_mem_accepted hn hrequest
  exact { inv with
    receiving := ChangeSignal.isReceiving_post inv.receiving
    queued := inv.queued.post inv.receiving
    position := by
      apply forall_calls_setStage inv.position
      exact inv.position ⟨change, .changed position⟩ (List.mem_of_getElem? hcall)
    maker := by
      intro p hp
      exact exists_calls_setStage (inv.maker p hp) hcall id
    poster := by
      intro n hn
      change n < e.signal.post.posts.length at hn
      rw [hposts, List.length_append] at hn
      rcases Nat.lt_succ_iff_lt_or_eq.mp hn with hn | rfl
      . exact exists_calls_setStage (inv.poster n hn) hcall (fun hrequest => nomatch hrequest)
      . exact ⟨_, mem_calls_setStage hcall change _, rfl⟩
    acceptedPosts := by
      intro n hn
      change e.signal.post.posts[n]? = _ at hn
      rw [hposts, Sequence.getElem?_concat_eq_some_iff] at hn
      rcases hn with hn | ⟨-, hn⟩
      . exact inv.acceptedPosts n hn
      . contradiction
    acceptedRequests := by
      intro n hn
      obtain ⟨hlt, hmem⟩ := inv.acceptedRequests n hn
      change n < e.signal.post.posts.length ∧ n ∉ e.signal.post.queue
      rw [hposts, hqueue, List.length_append, List.mem_append, List.mem_singleton]
      refine ⟨Nat.lt_add_right _ hlt, ?_⟩
      rintro (h | h)
      . exact hmem h
      . exact Nat.ne_of_lt hlt h
    contained := by
      intro w hw
      have hset : (e.setStage i change (.posted position e.signal.posts.length)).Contains w := by
        refine (inv.contained w hw).setStage hcall ?_ ?_
        . rfl
        constructor
        . intro hrequest
          exact absurd hrequest (hnew _ (inv.mem_accepted_of_mem_written hw))
        . intro hrequest
          contradiction
      exact hset.of_eq rfl rfl
    ahead := by
      intro n m hwriter
      obtain ⟨hm, hahead⟩ := inv.ahead n m hwriter
      refine ⟨hm, hahead.setStage hcall rfl ?_⟩
      intro hrequest
      exact absurd hrequest (hnew n (inv.mem_accepted_of_writer hwriter)) }

theorem accept {n : Nat} (hidle : e.writer = .idle) (hslot : e.signal.slot = some n)
    : (e.accept n).Invariant := by
  have hqueue := ChangeSignal.queue_eq_cons hslot
  have hnodup := inv.queued.nodup
  rw [hqueue, List.nodup_cons] at hnodup
  have hmem : n ∈ e.signal.queue := by
    rw [hqueue]
    exact List.mem_cons_self
  have hsynchronizer := Synchronizer.acceptRequest_eq inv.receiving hslot
  have hsignal : (e.accept n).signal = e.signal.vacate n .accepted := by
    rw [signal, Execution.accept, hsynchronizer]
    rfl
  have hconfiguration : (e.accept n).configuration = e.configuration := by
    rw [Execution.configuration, Execution.accept, hsynchronizer]
    rfl
  exact { inv with
    receiving := by
      rw [hsignal, ChangeSignal.isReceiving_vacate]
      exact inv.receiving
    queued := by
      rw [hsignal]
      exact inv.queued.vacate hslot (fun h => nomatch h)
    configuration := by
      rw [hconfiguration]
      exact inv.configuration
    poster := by
      rw [hsignal, ChangeSignal.length_posts_vacate]
      exact inv.poster
    acceptedPosts := by
      rw [hsignal]
      intro k hk
      rw [ChangeSignal.getElem?_posts_vacate] at hk
      apply List.mem_append.mpr
      split at hk
      . next h => exact .inr (List.mem_singleton.mpr h.1.symm)
      . exact .inl (inv.acceptedPosts k hk)
    acceptedRequests := by
      rw [hsignal, ChangeSignal.length_posts_vacate, ChangeSignal.queue_vacate]
      intro k hk
      rcases List.mem_append.mp hk with hk | hk
      . obtain ⟨hlt, hnot⟩ := inv.acceptedRequests k hk
        rw [hqueue] at hnot
        exact ⟨hlt, List.not_mem_of_not_mem_cons hnot⟩
      . rw [List.mem_singleton.mp hk]
        exact ⟨inv.queued.lt n hmem, hnodup.1⟩
    nodup := by
      apply List.Nodup.append inv.nodup (List.nodup_singleton n)
      rw [List.disjoint_singleton]
      intro hn
      exact (inv.acceptedRequests n hn).2 hmem
    served := by
      have hserved := inv.served
      rw [hidle] at hserved
      change e.written.map _ ++ [n] = e.accepted ++ [n]
      rw [← hserved]
      simp [Writer.request?]
    count := by
      change e.synchronizer.acceptRequest.accepted = (e.accepted ++ [n]).length
      rw [hsynchronizer, List.length_append, ← inv.count]
      rfl
    lastReport := by
      change e.synchronizer.acceptRequest.report = _
      rw [hsynchronizer]
      exact inv.lastReport
    contained := by
      intro w hw
      exact (inv.contained w hw).of_eq rfl rfl
    -- A posted request belongs to a call that has made its change already.
    ahead := by
      intro k m hwriter
      have : n = k ∧ e.made.length = m := by simpa [Execution.accept] using hwriter
      obtain ⟨rfl, rfl⟩ := this
      refine ⟨Nat.le_refl _, ?_⟩
      intro call hcall hrequest
      obtain ⟨position, hposition⟩ := Call.position?_of_request? hrequest
      have hmade := inv.position call hcall position hposition
      exact ⟨position, (List.getElem?_eq_some_iff.mp hmade).choose, hposition, hmade⟩
    disk := by
      change ∀ r summary, e.synchronizer.acceptRequest.report = _ → _ → ∃ before,
        Pass.run _ e.synchronizer.acceptRequest.destinations before =
          (_, e.synchronizer.acceptRequest.tree)
      rw [hsynchronizer]
      exact inv.disk }

theorem lock {n m : Nat} (haccepted : e.writer = .accepted n m) : (e.lock n m).Invariant :=
  { inv with
    served := by
      have hserved := inv.served
      rw [haccepted] at hserved
      exact hserved
    contained := by
      intro w hw
      exact (inv.contained w hw).of_eq rfl rfl
    ahead := by
      intro k l hwriter
      have : n = k ∧ m = l := by simpa [Execution.lock] using hwriter
      obtain ⟨rfl, rfl⟩ := this
      exact inv.ahead n m (.inl haccepted) }

theorem contains_writing {n m : Nat} (hlocked : e.writer = .locked n m)
    : e.Contains (e.writing n m) where
  posted := by
    apply inv.poster n
    exact (inv.acceptedRequests n (inv.mem_accepted_of_writer (.inr hlocked))).1
  ahead := (inv.ahead n m (.inr hlocked)).2
  madeBefore_le := (inv.ahead n m (.inr hlocked)).1
  made_le := Nat.le_refl _
  configuration := by
    change e.configuration = .after (e.made.take e.made.length)
    rw [List.take_length]
    exact inv.configuration

theorem runPass {n m : Nat} (hlocked : e.writer = .locked n m) : (e.runPass n m).Invariant := by
  have hserved := inv.served
  rw [hlocked] at hserved
  have hlength : e.accepted.length = e.written.length + 1 := by
    rw [← hserved]
    simp [Writer.request?]
  -- All accepted requests but the one at hand have been written.
  obtain ⟨report, hreports, hsequence⟩ : ∃ report : Report,
      (e.runPass n m).reports = e.reports ++ [report] ∧
        report.sequence = e.synchronizer.accepted := ⟨_, rfl, rfl⟩
  exact { inv with
    served := by
      change (e.written ++ [e.writing n m]).map _ ++ [] = e.accepted
      rw [List.append_nil, List.map_append]
      exact hserved
    sequence := by
      change _ = List.range' 1 (e.written ++ [e.writing n m]).length
      rw [hreports, List.map_append, inv.sequence, List.length_append, List.length_singleton,
        List.range'_concat, List.map_singleton, hsequence, inv.count, hlength]
      simp [Nat.add_comm]
    lastReport := by
      change some _ = (e.reports ++ [_]).getLast?
      rw [List.getLast?_concat]
    contained := by
      intro w hw
      rcases List.mem_append.mp hw with hw | hw
      . exact (inv.contained w hw).of_eq rfl rfl
      . rw [List.mem_singleton.mp hw]
        exact (inv.contains_writing hlocked).of_eq rfl rfl
    monotone := by
      change ((e.written ++ [e.writing n m]).map _).Pairwise _
      rw [List.map_append, List.pairwise_append]
      refine ⟨inv.monotone, List.pairwise_singleton _ _, ?_⟩
      intro made hmade last hlast
      obtain ⟨w, hw, rfl⟩ := List.mem_map.mp hmade
      rw [List.mem_singleton.mp hlast]
      exact (inv.contained w hw).made_le
    ahead := by
      intro k l hwriter
      rcases hwriter with hwriter | hwriter <;> contradiction
    disk := by
      intro r summary hr houtcome
      injection hr with hr
      subst hr
      have hlast : (e.runPass n m).lastWritten = e.configuration := by
        unfold lastWritten Execution.runPass
        rw [List.map_append]
        exact List.getLastD_concat
      refine ⟨e.synchronizer.tree, ?_⟩
      rw [hlast]
      exact Prod.ext houtcome rfl }

/-- A change of the signal that accepts nothing and adds no request. -/
theorem ofSignal {s : ChangeSignal} (hreceiving : s.isReceiving = true) (hqueued : s.Queued)
    (hlength : s.posts.length = e.signal.posts.length)
    (haccepted : ∀ (n : Nat), s.posts[n]? = some .accepted → e.signal.posts[n]? = some .accepted)
    (hqueue : ∀ n ∈ s.queue, n ∈ e.signal.queue)
    : { e with synchronizer := { e.synchronizer with signal := s } }.Invariant :=
  { inv with
    receiving := hreceiving
    queued := hqueued
    poster := by
      intro n hn
      apply inv.poster n
      rw [← hlength]
      exact hn
    acceptedPosts := by
      intro n hn
      exact inv.acceptedPosts n (haccepted n hn)
    acceptedRequests := by
      intro n hn
      obtain ⟨hlt, hnot⟩ := inv.acceptedRequests n hn
      rw [← hlength] at hlt
      refine ⟨hlt, ?_⟩
      intro hmem
      exact hnot (hqueue n hmem)
    contained := by
      intro w hw
      exact (inv.contained w hw).of_eq rfl rfl }

theorem cancel (n : Nat) : (e.cancel n).Invariant := by
  apply inv.ofSignal
  . exact inv.receiving
  . exact inv.queued.cancel n
  . apply ChangeSignal.length_posts_cancel
  . intro k hk
    rw [ChangeSignal.getElem?_posts_cancel] at hk
    split at hk
    . contradiction
    . exact hk
  . intro k hk
    exact (ChangeSignal.queue_cancel_sublist _ n).mem hk

theorem withdraw {n : Nat} (hslot : e.signal.slot = some n) : (e.withdraw n).Invariant := by
  apply inv.ofSignal
  . rw [ChangeSignal.isReceiving_vacate]
    exact inv.receiving
  . exact inv.queued.vacate hslot (fun h => nomatch h)
  . apply ChangeSignal.length_posts_vacate
  . intro k hk
    rw [ChangeSignal.getElem?_posts_vacate] at hk
    split at hk
    . contradiction
    . exact hk
  . intro k hk
    rw [ChangeSignal.queue_vacate] at hk
    rw [ChangeSignal.queue_eq_cons hslot]
    exact List.mem_cons_of_mem _ hk

theorem step {f : Execution} (hstep : Step e f) : f.Invariant := by
  cases hstep with
  | begin change => exact inv.begin change
  | change call _ changed => exact inv.change call changed
  | refuse call _ _ => exact inv.setStage call rfl rfl
  | post call => exact inv.post call
  | accept idle slot => exact inv.accept idle slot
  | lock accepted => exact inv.lock accepted
  | runPass locked => exact inv.runPass locked
  | abandonStarted call => exact inv.setStage call rfl rfl
  | abandonChanged call => exact inv.setStage call rfl rfl
  | cancel _ => exact inv.cancel _
  | withdraw _ slot => exact inv.withdraw slot

end Invariant

theorem destinations_of_step {e f : Execution} (hstep : Step e f)
    : f.synchronizer.destinations = e.synchronizer.destinations := by
  cases hstep with
  | change _ _ changed =>
    obtain ⟨configuration, -, rfl⟩ := Synchronizer.change_eq_ok_iff.mp changed
    rfl
  | accept idle slot => exact Synchronizer.destinations_acceptRequest e.synchronizer
  | _ => rfl

theorem destinations_of_reachable {d : Destinations} {t : FileTree} (h : Reachable d t e)
    : e.synchronizer.destinations = d := by
  induction h with
  | start => rfl
  | next _ hstep ih => rw [destinations_of_step hstep, ih]

theorem invariant_of_reachable {d : Destinations} {t : FileTree} (h : Reachable d t e)
    : e.Invariant := by
  induction h with
  | start => exact invariant_start d t
  | next _ hstep ih => exact ih.step hstep

/-! ### When all calls have returned -/

theorem Invariant.contains_of_mem_writings (inv : e.Invariant) {w : Writing}
    (hw : w ∈ e.writings) : e.Contains w := by
  unfold writings at hw
  split at hw
  . next n m hlocked =>
    rcases List.mem_append.mp hw with hw | hw
    . exact inv.contained w hw
    . rw [List.mem_singleton.mp hw]
      exact inv.contains_writing hlocked
  . exact inv.contained w hw

theorem lastWritten_concat {written : List Writing} {w : Writing}
    (h : e.written = written ++ [w]) : e.lastWritten = w.configuration := by
  unfold lastWritten
  rw [h, List.map_append]
  exact List.getLastD_concat

section

variable (inv : e.Invariant) (hidle : e.writer = .idle)
  (hreturned : ∀ call ∈ e.calls, call.Returned e.signal)
include inv hidle hreturned

theorem exists_written_of_lt_length {p : Nat} (hp : p < e.made.length)
    : ∃ w ∈ e.written, p < w.made := by
  obtain ⟨⟨change, stage⟩, hcall, hposition⟩ := inv.maker p hp
  have hcallReturned := hreturned _ hcall
  -- Of the calls that made a change, those that returned have an accepted request.
  cases stage with
  | posted position request =>
    injection hposition with hposition
    subst hposition
    have hmem := inv.acceptedPosts request hcallReturned
    rw [← inv.served, hidle] at hmem
    obtain ⟨w, hw, rfl⟩ : ∃ w ∈ e.written, w.request = request := by
      simpa [Writer.request?] using hmem
    have hcontains := inv.contained w hw
    obtain ⟨position, hlt, hposition, -⟩ := hcontains.ahead _ hcall rfl
    injection hposition with hposition
    subst hposition
    exact ⟨w, hw, Nat.lt_of_lt_of_le hlt hcontains.madeBefore_le⟩
  | started => contradiction
  | changed _ => contradiction
  | refused _ => contradiction
  | abandoned _ => contradiction

theorem lastWritten_eq_configuration : e.lastWritten = e.configuration := by
  rw [inv.configuration]
  rcases List.eq_nil_or_concat' e.written with hwritten | ⟨written, w, hwritten⟩
  . have hmade : e.made = [] := by
      apply List.eq_nil_of_length_eq_zero
      apply Nat.eq_zero_of_not_pos
      intro hp
      obtain ⟨w, hw, -⟩ := exists_written_of_lt_length inv hidle hreturned hp
      rw [hwritten] at hw
      contradiction
    rw [lastWritten, hwritten, hmade]
    rfl
  . have hlast : w ∈ e.written := by
      rw [hwritten]
      exact List.mem_concat_self
    have hcontains := inv.contained w hlast
    -- Each change is in some writing, and the last one has at least as many as any other.
    have hmade : e.made.length ≤ w.made := by
      apply Nat.le_of_not_lt
      intro hlt
      obtain ⟨v, hv, hvmade⟩ := exists_written_of_lt_length inv hidle hreturned hlt
      have hmonotone := inv.monotone
      rw [hwritten, List.map_append, List.pairwise_append] at hmonotone
      rw [hwritten] at hv
      rcases List.mem_append.mp hv with hv | hv
      . have : v.made ≤ w.made :=
          hmonotone.2.2 _ (List.mem_map_of_mem hv) _ (List.mem_singleton_self _)
        omega
      . rw [List.mem_singleton.mp hv] at hvmade
        omega
    rw [lastWritten_concat hwritten, hcontains.configuration, List.take_of_length_le hmade]

end

theorem no_lost_update {d : Destinations} {t : FileTree} (h : Reachable d t e)
    : (e.reports.map (·.sequence) = List.range' 1 e.written.length ∧
        e.synchronizer.report = e.reports.getLast? ∧
        e.synchronizer.accepted = e.accepted.length ∧
        e.accepted.Nodup ∧
        (∀ (n : Nat), e.signal.posts[n]? = some .accepted → n ∈ e.accepted) ∧
        e.written.map (·.request) ++ e.writer.request?.toList = e.accepted) ∧
      (∀ w ∈ e.writings, e.Contains w) ∧
      (e.writer = .idle → (∀ call ∈ e.calls, call.Returned e.signal) →
        e.lastWritten = e.configuration ∧
        ∀ r summary, e.synchronizer.report = some r → r.outcome = .ok summary →
          ∃ before, Pass.run e.configuration d before = (.ok summary, e.synchronizer.tree)) := by
  have inv := invariant_of_reachable h
  refine ⟨?_, ?_, ?_⟩
  . exact ⟨inv.sequence, inv.lastReport, inv.count, inv.nodup, inv.acceptedPosts, inv.served⟩
  . intro w hw
    exact inv.contains_of_mem_writings hw
  . intro hidle hreturned
    have hlast := lastWritten_eq_configuration inv hidle hreturned
    refine ⟨hlast, ?_⟩
    rw [← hlast, ← destinations_of_reachable h]
    exact inv.disk

/-- Two requests are posted in the other order than their changes were made, and a third change is
made between the acceptance of the first request and its pass. -/
theorem no_lost_update_of_overtaking
    : ∃ e, Reachable .standard .empty e ∧ e.writer = .idle ∧
        (∀ call ∈ e.calls, call.Returned e.signal) ∧
        e.made = [.setMirrors "a" ["m"], .setRegistryPolicy [] ["b"] [], .setMirrors "a" []] ∧
        e.written.map (fun w => (w.request, w.made)) = [(0, 3), (1, 3), (2, 3)] ∧
        e.reports.map (·.sequence) = [1, 2, 3] ∧ e.lastWritten = e.configuration := by
  have h := Reachable.start (d := .standard) (t := .empty)
    |>.next (.begin (.setMirrors "a" ["m"]))
    |>.next (.begin (.setRegistryPolicy [] ["b"] []))
    |>.next (.begin (.setMirrors "a" []))
    |>.next (.change (i := 0) rfl nofun rfl)
    |>.next (.change (i := 1) rfl nofun rfl)
    |>.next (.post (i := 1) rfl)
    |>.next (.accept rfl rfl)
    |>.next (.change (i := 2) rfl nofun rfl)
    |>.next (.lock rfl)
    |>.next (.runPass rfl)
    |>.next (.post (i := 2) rfl)
    |>.next (.post (i := 0) rfl)
    |>.next (.accept rfl rfl)
    |>.next (.lock rfl)
    |>.next (.runPass rfl)
    |>.next (.accept rfl rfl)
    |>.next (.lock rfl)
    |>.next (.runPass rfl)
  obtain ⟨⟨hsequence, -⟩, -, hreturn⟩ := no_lost_update h
  have hlast := hreturn rfl (by decide)
  exact ⟨_, h, rfl, by decide, rfl, rfl, hsequence, hlast.1⟩

end Execution
end RegistrySync
