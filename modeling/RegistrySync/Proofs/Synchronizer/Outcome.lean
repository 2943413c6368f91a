import RegistrySync.Proofs.Synchronizer.Service

/-!
Changes one after the other, each with time for the writer to finish. What a caller is told is about
the change alone: how the pass for a change ends is only reported, and neither it nor what happens
to the files in between has an influence on later changes.
-/

namespace RegistrySync.Synchronizer

/-- Changes and what their callers were told. -/
abbrev Log := List (Change × Except SinkError Unit)

def Log.changes (log : Log) : List Change :=
  log.map Prod.fst

/-- How many of the changes were not refused. -/
def Log.taken (log : Log) : Nat :=
  log.countP fun (_, result) => result.isOk

/-- The writer finishes after each change, and in between the files may become any others. -/
inductive Run (d : Destinations) (t : FileTree) : Log → Synchronizer → Prop where
  | start : Run d t [] (start d t)
  | change {log : Log} {s : Synchronizer} (change : Change) :
      Run d t log s → Run d t (log ++ [(change, (sink change s).1)]) (sink change s).2
  | disturb {log : Log} {s : Synchronizer} (tree : FileTree) :
      Run d t log s → Run d t log { s with tree }

/-- The writer is there and has nothing to do. -/
structure Resting (s : Synchronizer) : Prop where
  isBusy : s.isBusy = false
  isReceiving : s.signal.isReceiving = true
  queue : s.signal.queue = []

theorem resting_start (d : Destinations) (t : FileTree) : (start d t).Resting where
  isBusy := rfl
  isReceiving := rfl
  queue := rfl

/-- A change was made, and its request is in the slot. -/
def posted (c : Configuration) (s : Synchronizer) : Synchronizer :=
  { s with configuration := c, signal := s.signal.post }

/-- The request is accepted, and the pass for it is over. -/
def served (c : Configuration) (s : Synchronizer) : Synchronizer :=
  { s with
    configuration := c
    signal := s.signal.post.vacate s.signal.posts.length .accepted
    accepted := s.accepted + 1
    isBusy := false
    report := some ⟨s.accepted + 1, (Pass.run c s.destinations s.tree).1⟩
    tree := (Pass.run c s.destinations s.tree).2 }

variable {s : Synchronizer} {change : Change}

/-! ### One change -/

namespace Resting

theorem slot (h : s.Resting) : s.signal.slot = none :=
  ((ChangeSignal.queue_eq_nil_iff s.signal).mp h.queue).1

theorem waiting (h : s.Resting) : s.signal.waiting = [] :=
  ((ChangeSignal.queue_eq_nil_iff s.signal).mp h.queue).2

theorem serve (h : s.Resting) : s.serve = s := by
  have haccept : s.acceptRequest = s := by
    unfold acceptRequest
    rw [ChangeSignal.accept_of_slot_eq_none h.isReceiving h.slot]
    cases s.signal.isClosed <;> rfl
  unfold Synchronizer.serve
  simp only [h.isBusy, haccept, Bool.false_eq_true, if_false]

theorem drain (h : s.Resting) : s.drain = s := by
  unfold Synchronizer.drain
  induction s.signal.requests + 1 with
  | zero => rfl
  | succ n ih => rw [Nat.repeat, ih, h.serve]

theorem sink_of_refused (h : s.Resting) {cause : Refusal}
    (hrefused : s.configuration.apply change = .error cause)
    : sink change s = (.error (.refused cause), s) := by
  have hsubmit : s.submit change = (.error cause, s) := by
    unfold submit
    rw [hrefused]
  unfold sink
  simp only [hsubmit, h.drain, outcomeOf]

theorem post (h : s.Resting)
    : s.signal.post.slot = some s.signal.posts.length ∧ s.signal.post.waiting = [] := by
  unfold ChangeSignal.post ChangeSignal.refill
  simp [h.isReceiving, h.slot, h.waiting]

variable (c : Configuration)

theorem runPass_posted (h : s.Resting) : (posted c s).acceptRequest.runPass = served c s := by
  rw [acceptRequest_eq (ChangeSignal.isReceiving_post h.isReceiving) h.post.1]
  rfl

theorem serve_posted (h : s.Resting) : (posted c s).serve = served c s := by
  have hreceiving : (posted c s).signal.isReceiving = true :=
    ChangeSignal.isReceiving_post h.isReceiving
  rw [serve_eq_of_idle (posted c s) h.isBusy hreceiving h.post.1, h.runPass_posted]

theorem served (h : s.Resting) : (served c s).Resting where
  isBusy := rfl
  isReceiving :=
    (ChangeSignal.isReceiving_vacate _ _ _).trans (ChangeSignal.isReceiving_post h.isReceiving)
  queue := (ChangeSignal.queue_vacate _ _ _).trans h.post.2

theorem drain_posted (h : s.Resting) : (posted c s).drain = s.served c := by
  have hrequests : (posted c s).signal.requests = 1 := by
    simp [posted, ChangeSignal.requests, h.post]
  -- The first turn serves the only request, and the second one finds none.
  rw [Synchronizer.drain, hrequests, Nat.repeat, Nat.repeat, Nat.repeat, h.serve_posted,
    (h.served c).serve]

theorem getElem?_posts_served (h : s.Resting)
    : (s.served c).signal.posts[s.signal.posts.length]? = some .accepted := by
  have hpending : s.signal.post.posts[s.signal.posts.length]? = some .pending := by
    rw [ChangeSignal.posts_post h.isReceiving, List.getElem?_concat_length]
  rw [Synchronizer.served, ChangeSignal.getElem?_posts_vacate, if_pos ⟨rfl, hpending⟩]

theorem outcome_served (h : s.Resting)
    : (s.served c).outcome s.signal.posts.length = .ok () := by
  rw [outcome, h.getElem?_posts_served]
  rfl

variable {c}

theorem sink_of_taken (h : s.Resting) (htaken : s.configuration.apply change = .ok c)
    : sink change s = (.ok (), s.served c) := by
  have hsubmit : s.submit change = (.ok s.signal.posts.length, posted c s) := by
    unfold submit
    rw [htaken]
    rfl
  unfold sink
  simp only [hsubmit, h.drain_posted, outcomeOf, h.outcome_served]

theorem sink_eq_error_iff (h : s.Resting) (e : SinkError)
    : (sink change s).1 = .error e ↔
        ∃ cause, s.configuration.apply change = .error cause ∧ e = .refused cause := by
  cases happly : s.configuration.apply change with
  | ok c => simp [h.sink_of_taken happly]
  | error cause => simp [h.sink_of_refused happly, eq_comm]

theorem sink_eq_error_iff_of_indexed (h : s.Resting)
    (hindexed : s.configuration.registries.Indexed) (e : SinkError)
    : (sink change s).1 = .error e ↔
        (∃ allowed blocked insecure, change = .setRegistryPolicy allowed blocked insecure ∧
          allowed ≠ [] ∧ blocked ≠ [] ∧ e = .refused .allowedAndBlocked) ∨
        (∃ registry, change = .clearMirrors registry ∧
          (∀ entry ∈ s.configuration.registries.entries, entry.location ≠ registry) ∧
          e = .refused (.unknownRegistry registry)) := by
  rw [h.sink_eq_error_iff]
  simp only [Configuration.apply_eq_error_iff, hindexed.find?_eq_none_iff_forall]
  constructor
  . rintro ⟨cause, hcause | hcause, rfl⟩
    . obtain ⟨allowed, blocked, insecure, hchange, hallowed, hblocked, rfl⟩ := hcause
      exact .inl ⟨allowed, blocked, insecure, hchange, hallowed, hblocked, rfl⟩
    . obtain ⟨registry, hchange, hentry, rfl⟩ := hcause
      exact .inr ⟨registry, hchange, hentry, rfl⟩
  . rintro (⟨allowed, blocked, insecure, hchange, hallowed, hblocked, rfl⟩ | hclear)
    . exact ⟨_, .inl ⟨allowed, blocked, insecure, hchange, hallowed, hblocked, rfl⟩, rfl⟩
    . obtain ⟨registry, hchange, hentry, rfl⟩ := hclear
      exact ⟨_, .inr ⟨registry, hchange, hentry, rfl⟩, rfl⟩

end Resting

/-! ### A whole run -/

structure Ran (d : Destinations) (log : Log) (s : Synchronizer) : Prop where
  resting : s.Resting
  destinations : s.destinations = d
  configuration : s.configuration = .after log.changes
  accepted : s.accepted = log.taken
  report : s.report.map (·.sequence) = if log.taken = 0 then none else some log.taken

variable {d : Destinations} {t : FileTree} {log : Log}

theorem ran_start (d : Destinations) (t : FileTree) : Ran d [] (start d t) where
  resting := resting_start d t
  destinations := rfl
  configuration := rfl
  accepted := rfl
  report := rfl

namespace Ran

theorem sink (h : Ran d log s) (change : Change)
    : Ran d (log ++ [(change, (sink change s).1)]) (sink change s).2 := by
  have hconfiguration : (Synchronizer.sink change s).2.configuration
      = .after (Log.changes (log ++ [(change, (Synchronizer.sink change s).1)])) := by
    rw [configuration_sink, h.configuration, Log.changes, Log.changes, List.map_append,
      List.map_singleton, Configuration.after_concat]
  cases happly : s.configuration.apply change with
  | error cause =>
    have hsink := h.resting.sink_of_refused happly
    rw [hsink] at hconfiguration ⊢
    have htaken : Log.taken (log ++ [(change, .error (.refused cause))]) = log.taken := by
      simp [Log.taken, Except.isOk, Except.toBool]
    exact ⟨h.resting, h.destinations, hconfiguration, h.accepted.trans htaken.symm,
      htaken ▸ h.report⟩
  | ok c =>
    have hsink := h.resting.sink_of_taken happly
    rw [hsink] at hconfiguration ⊢
    have htaken : Log.taken (log ++ [(change, .ok ())]) = s.accepted + 1 := by
      simp [h.accepted, Log.taken, Except.isOk, Except.toBool]
    refine ⟨h.resting.served c, h.destinations, hconfiguration, htaken.symm, ?_⟩
    rw [htaken, if_neg (Nat.succ_ne_zero _)]
    rfl

theorem disturb (h : Ran d log s) (tree : FileTree) : Ran d log { s with tree } :=
  ⟨⟨h.resting.isBusy, h.resting.isReceiving, h.resting.queue⟩, h.destinations, h.configuration,
    h.accepted, h.report⟩

end Ran

theorem Run.ran (h : Run d t log s) : Ran d log s := by
  induction h with
  | start => exact ran_start d t
  | change change _ ih => exact ih.sink change
  | disturb tree _ ih => exact ih.disturb tree

theorem results_and_reports_apart (h : Run d t log s)
    : s.configuration = .after log.changes ∧
      s.report.map (·.sequence) = (if log.taken = 0 then none else some log.taken) ∧
      s.serve = s ∧
      ∀ change,
        (∀ e, (sink change s).1 = .error e ↔
          (∃ allowed blocked insecure, change = .setRegistryPolicy allowed blocked insecure ∧
            allowed ≠ [] ∧ blocked ≠ [] ∧ e = .refused .allowedAndBlocked) ∨
          (∃ registry, change = .clearMirrors registry ∧
            (∀ entry ∈ s.configuration.registries.entries, entry.location ≠ registry) ∧
            e = .refused (.unknownRegistry registry))) ∧
        (∀ e, (sink change s).1 = .error e → (sink change s).2 = s) ∧
        ((sink change s).1 = .ok () → ∃ c, s.configuration.apply change = .ok c ∧
          (sink change s).2.configuration = c ∧
          (sink change s).2.tree = (Pass.run c d s.tree).2 ∧
          (sink change s).2.report = some ⟨log.taken + 1, (Pass.run c d s.tree).1⟩) := by
  have hran := h.ran
  have hresting := hran.resting
  have hindexed : s.configuration.registries.Indexed := by
    rw [hran.configuration]
    exact (Configuration.reads_after log.changes).indexed
  refine ⟨hran.configuration, hran.report, hresting.serve, fun change => ⟨?_, ?_, ?_⟩⟩
  . exact hresting.sink_eq_error_iff_of_indexed hindexed
  . intro e he
    obtain ⟨cause, hrefused, -⟩ := (hresting.sink_eq_error_iff e).mp he
    rw [hresting.sink_of_refused hrefused]
  . intro hok
    cases happly : s.configuration.apply change with
    | error cause =>
      rw [hresting.sink_of_refused happly] at hok
      contradiction
    | ok c =>
      rw [hresting.sink_of_taken happly, ← hran.destinations, ← hran.accepted]
      exact ⟨c, rfl, rfl, rfl, rfl⟩

/-- The first pass fails because the folder of the policy is a file, two changes are refused, and
the pass after the file is gone completes. -/
theorem results_and_reports_apart_after_failed_pass
    : ∃ d t log s, Run d t log s ∧
        log = [(.setMirrors "quay.io" ["m"], .ok ()),
          (.setRegistryPolicy ["a.io"] ["b.io"] [], .error (.refused .allowedAndBlocked)),
          (.clearMirrors "c.io", .error (.refused (.unknownRegistry "c.io")))] ∧
        s.report.map (·.sequence) = some 1 ∧
        s.report.map (·.outcome) =
          some (.error ⟨.policy, ⟨.ofText "blocker", .alreadyExists⟩⟩) ∧
        (sink .clearAllMirrors { s with tree := .empty }).1 = .ok () ∧
        (sink .clearAllMirrors { s with tree := .empty }).2.report.map (·.sequence) = some 2 ∧
        (sink .clearAllMirrors { s with tree := .empty }).2.report.map (·.outcome) =
          some (.ok ⟨1, 0, 0⟩) := by
  let d : Destinations :=
    ⟨.ofText "registries.conf", .ofText "blocker/policy.json", .ofText "certs"⟩
  let t := FileTree.empty.put "blocker" [] (.file "old".toUTF8)
  have h := Run.start (d := d) (t := t)
    |>.change (.setMirrors "quay.io" ["m"])
    |>.change (.setRegistryPolicy ["a.io"] ["b.io"] [])
    |>.change (.clearMirrors "c.io")
  refine ⟨d, t, _, _, h, by decide +kernel, ?_, by decide +kernel, ?_, ?_, by decide +kernel⟩
  . obtain ⟨-, hsequence, -⟩ := results_and_reports_apart h
    rw [hsequence]
    decide +kernel
  . decide +kernel
  . obtain ⟨-, -, -, hchange⟩ := results_and_reports_apart (h.disturb .empty)
    obtain ⟨c, -, -, -, hreport⟩ := (hchange .clearAllMirrors).2.2 (by decide +kernel)
    rw [hreport, Option.map_some]
    change some (Log.taken _ + 1) = some 2
    decide +kernel

end RegistrySync.Synchronizer
