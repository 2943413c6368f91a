import RegistrySync.Proofs.Rendering.Feeding
import RegistrySync.Proofs.Synchronizer.NoLostUpdate
import RegistrySync.Rendering

/-!
Sessions of a rendering: one caller makes the changes of a desired state one after the other, and
then waits for the pass of the last one. The writer works at the same time, so that a pass may have
seen more changes than those before it was asked for.
-/

namespace RegistrySync

/-- What the caller is told when a call returns. -/
def Call.result? (signal : ChangeSignal) (call : Call) : Option (Except SinkError Unit) :=
  match call.stage with
  | .posted _ request => match signal.posts[request]? with
    | some .accepted => some (.ok ())
    | some .stopped => some (.error .writerStopped)
    | _ => none
  | .refused cause => some (.error (.refused cause))
  | _ => none

namespace Execution

/-- A step of the writer, or of a call that nobody cancels. -/
inductive Works : Execution → Execution → Prop where
  | change {e : Execution} {i : Nat} {change : Change} {s : Synchronizer}
      (call : e.calls[i]? = some ⟨change, .started⟩)
      (unlocked : ∀ request madeBefore, e.writer ≠ .locked request madeBefore)
      (changed : e.synchronizer.change change = .ok s) : Works e (e.change i change s)
  | refuse {e : Execution} {i : Nat} {change : Change} {cause : Refusal}
      (call : e.calls[i]? = some ⟨change, .started⟩)
      (unlocked : ∀ request madeBefore, e.writer ≠ .locked request madeBefore)
      (refused : e.synchronizer.change change = .error cause) :
      Works e (e.setStage i change (.refused cause))
  | post {e : Execution} {i : Nat} {change : Change} {position : Nat}
      (call : e.calls[i]? = some ⟨change, .changed position⟩) : Works e (e.post i change position)
  | accept {e : Execution} {request : Nat} (idle : e.writer = .idle)
      (slot : e.signal.slot = some request) : Works e (e.accept request)
  | lock {e : Execution} {request madeBefore : Nat}
      (accepted : e.writer = .accepted request madeBefore) : Works e (e.lock request madeBefore)
  | runPass {e : Execution} {request madeBefore : Nat}
      (locked : e.writer = .locked request madeBefore) : Works e (e.runPass request madeBefore)

theorem Works.step {e f : Execution} (h : e.Works f) : e.Step f := by
  cases h with
  | change call unlocked changed => exact .change call unlocked changed
  | refuse call unlocked refused => exact .refuse call unlocked refused
  | post call => exact .post call
  | accept idle slot => exact .accept idle slot
  | lock accepted => exact .lock accepted
  | runPass locked => exact .runPass locked

/-- The changes of all calls. -/
def asked (e : Execution) : List Change :=
  e.calls.map (·.change)

end Execution

namespace Rendering

inductive Phase where
  | feeding (rest : Caller (Except DesiredState.Refusal Nat))
  /-- Waits for the last call. -/
  | calling (resume : Except SinkError Unit → Caller (Except DesiredState.Refusal Nat))
  | finished (result : Except Failure Pass.Summary)

structure Session where
  execution : Execution
  phase : Phase

namespace Session

def start (d : Destinations) (tree : FileTree) (state : DesiredState) : Session :=
  ⟨.start d tree, .feeding (state.feed Caller.sink)⟩

def tree (s : Session) : FileTree :=
  s.execution.synchronizer.tree

inductive Step (input : Path) : Session → Session → Prop where
  | ask {e : Execution} {change : Change}
      {resume : Except SinkError Unit → Caller (Except DesiredState.Refusal Nat)} :
      Step input ⟨e, .feeding (.ask change resume)⟩ ⟨e.begin change, .calling resume⟩
  | answer {e : Execution} {call : Call} {result : Except SinkError Unit}
      {resume : Except SinkError Unit → Caller (Except DesiredState.Refusal Nat)}
      (last : e.calls.getLast? = some call) (told : call.result? e.signal = some result) :
      Step input ⟨e, .calling resume⟩ ⟨e, .feeding (resume result)⟩
  | work {e f : Execution} {phase : Phase} (works : e.Works f)
      (unfinished : ∀ result, phase ≠ .finished result) : Step input ⟨e, phase⟩ ⟨f, phase⟩
  | conclude {e : Execution} {fed : Except DesiredState.Refusal Nat}
      (ready : ∀ count, fed = .ok count → count ≠ 0 → e.synchronizer.await count ≠ .pending) :
      Step input ⟨e, .feeding (.done fed)⟩ ⟨e, .finished (conclude input fed e.synchronizer)⟩

/-- The number of steps is counted. -/
inductive Run (input : Path) (s : Session) : Nat → Session → Prop where
  | refl : Run input s 0 s
  | next {n : Nat} {u v : Session} (h : Run input s n u) (hstep : u.Step input v) :
      Run input s (n + 1) v

end Session
end Rendering

/-! ### One call at a time -/

theorem Call.Returned.of_posts {signal other : ChangeSignal} {call : Call}
    (h : call.Returned signal)
    (hkept : ∀ n : Nat, signal.posts[n]? = some .accepted → other.posts[n]? = some .accepted)
    : call.Returned other := by
  obtain ⟨change, stage⟩ := call
  cases stage with
  | posted position request => exact hkept request h
  | refused cause => trivial
  | _ => contradiction

theorem Synchronizer.change_eq_error_iff {s : Synchronizer} {change : Change} {cause : Refusal}
    : s.change change = .error cause ↔ s.configuration.apply change = .error cause := by
  unfold Synchronizer.change
  cases s.configuration.apply change <;> simp [Except.map]

namespace Execution

/-- All calls have returned, and each change has been accepted. -/
structure Rests (e : Execution) : Prop where
  queue : e.signal.queue = []
  accepted : e.accepted.length = e.made.length
  returned : ∀ call ∈ e.calls, call.Returned e.signal

/-- Only one call, which has come to a stage, has not returned. -/
inductive Underway (e : Execution) : Call.Stage → Prop where
  | started (queue : e.signal.queue = []) (accepted : e.accepted.length = e.made.length) :
      Underway e .started
  | changed {position : Nat} (queue : e.signal.queue = [])
      (accepted : e.accepted.length + 1 = e.made.length) : Underway e (.changed position)
  | posted {position request : Nat} (queue : e.signal.queue = [request])
      (pending : e.signal.posts[request]? = some .pending)
      (accepted : e.accepted.length + 1 = e.made.length) : Underway e (.posted position request)
  | taken {position request : Nat} (queue : e.signal.queue = [])
      (status : e.signal.posts[request]? = some .accepted)
      (accepted : e.accepted.length = e.made.length) : Underway e (.posted position request)
  | refused {cause : Refusal} (queue : e.signal.queue = [])
      (accepted : e.accepted.length = e.made.length) : Underway e (.refused cause)

/-- What a call at a stage will be told, and what will have been made by then. -/
def prospect (e : Execution) (change : Change) : Call.Stage → Except SinkError Unit × History
  | .started => History.sink change e.made
  | .refused cause => (.error (.refused cause), e.made)
  | .changed _ | .posted _ _ | .abandoned _ => (.ok (), e.made)

end Execution

/-! ### How many steps there may be -/

def Call.Stage.debt : Call.Stage → Nat
  | .started => 6
  | .changed _ => 5
  | .posted _ _ | .refused _ => 1
  | .abandoned _ => 0

def Writer.debt : Writer → Nat
  | .idle => 0
  | .accepted _ _ => 2
  | .locked _ _ => 1

namespace Execution

def debt (e : Execution) : Nat :=
  3 * e.signal.queue.length + e.writer.debt

variable {e f : Execution} {calls : List Call} {change : Change} {stage : Call.Stage}

theorem eq_last_of_not_returned {signal : ChangeSignal} {last call : Call} {i : Nat}
    (hreturned : ∀ call ∈ calls, call.Returned signal) (hcall : (calls ++ [last])[i]? = some call)
    (hnot : ¬ call.Returned signal) : i = calls.length ∧ last = call := by
  rcases (Sequence.getElem?_concat_eq_some_iff calls last call i).mp hcall with hcall | hlast
  . exact absurd (hreturned call (List.mem_of_getElem? hcall)) hnot
  . exact hlast

theorem calls_setStage {last : Call} (hcalls : e.calls = calls ++ [last]) (change : Change)
    (stage : Call.Stage)
    : (e.setStage calls.length change stage).calls = calls ++ [⟨change, stage⟩] := by
  rw [setStage, hcalls]
  simp

theorem queue_of_slot_ne {signal : ChangeSignal} {request : Nat} (hqueue : signal.queue = [])
    (hslot : signal.slot = some request) : False := by
  rw [ChangeSignal.queue_eq_cons hslot] at hqueue
  contradiction

theorem debt_lock {request madeBefore : Nat} (h : e.writer = .accepted request madeBefore)
    : (e.lock request madeBefore).debt + 1 = e.debt := by
  unfold debt
  rw [h]
  rfl

theorem debt_runPass {request madeBefore : Nat} (h : e.writer = .locked request madeBefore)
    : (e.runPass request madeBefore).debt + 1 = e.debt := by
  unfold debt
  rw [h]
  rfl

theorem Rests.works (h : e.Rests) (hworks : e.Works f)
    : f.Rests ∧ f.calls = e.calls ∧ f.made = e.made ∧ f.debt + 1 ≤ e.debt := by
  cases hworks with
  | change call => cases h.returned _ (List.mem_of_getElem? call)
  | refuse call => cases h.returned _ (List.mem_of_getElem? call)
  | post call => cases h.returned _ (List.mem_of_getElem? call)
  | accept _ slot => cases queue_of_slot_ne h.queue slot
  | lock accepted =>
    exact ⟨⟨h.queue, h.accepted, h.returned⟩, rfl, rfl, Nat.le_of_eq (debt_lock accepted)⟩
  | runPass locked =>
    exact ⟨⟨h.queue, h.accepted, h.returned⟩, rfl, rfl, Nat.le_of_eq (debt_runPass locked)⟩

theorem Underway.of_eq (h : e.Underway stage) (hsignal : f.signal = e.signal)
    (haccepted : f.accepted = e.accepted) (hmade : f.made = e.made) : f.Underway stage := by
  cases h with
  | started queue accepted => exact .started (hsignal ▸ queue) (hmade ▸ haccepted ▸ accepted)
  | changed queue accepted => exact .changed (hsignal ▸ queue) (hmade ▸ haccepted ▸ accepted)
  | posted queue pending accepted =>
    exact .posted (hsignal ▸ queue) (hsignal ▸ pending) (hmade ▸ haccepted ▸ accepted)
  | taken queue status accepted =>
    exact .taken (hsignal ▸ queue) (hsignal ▸ status) (hmade ▸ haccepted ▸ accepted)
  | refused queue accepted => exact .refused (hsignal ▸ queue) (hmade ▸ haccepted ▸ accepted)

/-- What comes of the only call that has not returned, when something is done. -/
structure Advances (e f : Execution) (calls : List Call) (change : Change)
    (stage stage' : Call.Stage) : Prop where
  calls_eq : f.calls = calls ++ [⟨change, stage'⟩]
  returned : ∀ call ∈ calls, call.Returned f.signal
  underway : f.Underway stage'
  prospect_eq : f.prospect change stage' = e.prospect change stage
  debt_le : f.debt + stage'.debt + 1 ≤ e.debt + stage.debt

section

variable (inv : e.Invariant) (hcalls : e.calls = calls ++ [⟨change, stage⟩])
  (hreturned : ∀ call ∈ calls, call.Returned e.signal)
include inv hcalls hreturned

theorem Underway.after_change (h : e.Underway stage) {i : Nat} {change' : Change}
    {s : Synchronizer} (hcall : e.calls[i]? = some ⟨change', .started⟩)
    (hchanged : e.synchronizer.change change' = .ok s)
    : ∃ stage', Advances e (e.change i change' s) calls change stage stage' := by
  rw [hcalls] at hcall
  obtain ⟨rfl, hlast⟩ := eq_last_of_not_returned hreturned hcall id
  cases hlast
  obtain ⟨configuration, happly, rfl⟩ := Synchronizer.change_eq_ok_iff.mp hchanged
  cases h with
  | started queue accepted =>
    refine ⟨.changed e.made.length, calls_setStage hcalls _ _, hreturned, .changed queue ?_, ?_,
      Nat.le_refl _⟩
    . simp [Execution.change, setStage, accepted]
    . have happly : (Configuration.after e.made).apply change = .ok configuration := by
        rw [← inv.configuration]
        exact happly
      unfold prospect History.sink
      simp only [happly]
      rfl

theorem Underway.after_refusal (h : e.Underway stage) {i : Nat} {change' : Change}
    {cause : Refusal} (hcall : e.calls[i]? = some ⟨change', .started⟩)
    (hrefused : e.synchronizer.change change' = .error cause)
    : ∃ stage', Advances e (e.setStage i change' (.refused cause)) calls change stage stage' := by
  rw [hcalls] at hcall
  obtain ⟨rfl, hlast⟩ := eq_last_of_not_returned hreturned hcall id
  cases hlast
  cases h with
  | started queue accepted =>
    refine ⟨.refused cause, calls_setStage hcalls _ _, hreturned, .refused queue accepted, ?_, ?_⟩
    . have happly : (Configuration.after e.made).apply change = .error cause := by
        rw [← inv.configuration]
        exact Synchronizer.change_eq_error_iff.mp hrefused
      unfold prospect History.sink
      simp only [happly]
      rfl
    . change e.debt + 1 + 1 ≤ e.debt + 6
      omega

theorem Underway.after_post (h : e.Underway stage) {i position : Nat} {change' : Change}
    (hcall : e.calls[i]? = some ⟨change', .changed position⟩)
    : ∃ stage', Advances e (e.post i change' position) calls change stage stage' := by
  rw [hcalls] at hcall
  obtain ⟨rfl, hlast⟩ := eq_last_of_not_returned hreturned hcall id
  cases hlast
  cases h with
  | changed queue accepted =>
    have hqueue : (e.post calls.length change position).signal.queue =
        e.signal.queue ++ [e.signal.posts.length] := ChangeSignal.queue_post inv.receiving
    have hposts : (e.post calls.length change position).signal.posts =
        e.signal.posts ++ [.pending] := ChangeSignal.posts_post inv.receiving
    rw [queue, List.nil_append] at hqueue
    refine ⟨.posted position e.signal.posts.length, calls_setStage hcalls _ _, ?_,
      .posted hqueue ?_ accepted, rfl, ?_⟩
    . intro call hcall
      apply (hreturned call hcall).of_posts
      intro n hn
      rw [hposts, Sequence.getElem?_concat_eq_some_iff]
      exact .inl hn
    . rw [hposts, List.getElem?_concat_length]
    . unfold debt
      rw [hqueue, queue]
      change 3 * 1 + e.writer.debt + 1 + 1 ≤ 3 * 0 + e.writer.debt + 5
      omega

theorem Underway.after_accept (h : e.Underway stage) {request : Nat} (hidle : e.writer = .idle)
    (hslot : e.signal.slot = some request)
    : ∃ stage', Advances e (e.accept request) calls change stage stage' := by
  have hsignal : (e.accept request).signal = e.signal.vacate request .accepted := by
    rw [signal, Execution.accept, Synchronizer.acceptRequest_eq inv.receiving hslot]
    rfl
  cases h with
  | @posted position _ queue pending accepted =>
    have hqueue := queue
    rw [ChangeSignal.queue_eq_cons hslot] at hqueue
    obtain ⟨rfl, hwaiting⟩ := List.cons.inj hqueue
    refine ⟨.posted position request, hcalls, ?_, .taken ?_ ?_ ?_, rfl, ?_⟩
    . intro call hcall
      apply (hreturned call hcall).of_posts
      intro n hn
      rw [hsignal, ChangeSignal.getElem?_posts_vacate]
      split
      . rfl
      . exact hn
    . rw [hsignal, ChangeSignal.queue_vacate, hwaiting]
    . rw [hsignal, ChangeSignal.getElem?_posts_vacate, if_pos ⟨rfl, pending⟩]
    . simp [Execution.accept, accepted]
    . unfold debt
      rw [hsignal, ChangeSignal.queue_vacate, hwaiting, queue, hidle]
      change 3 * 0 + 2 + 1 + 1 ≤ 3 * 1 + 0 + 1
      exact Nat.le_refl 4
  | started queue => cases queue_of_slot_ne queue hslot
  | changed queue => cases queue_of_slot_ne queue hslot
  | taken queue => cases queue_of_slot_ne queue hslot
  | refused queue => cases queue_of_slot_ne queue hslot

theorem Underway.works (h : e.Underway stage) (hworks : e.Works f)
    : ∃ stage', Advances e f calls change stage stage' := by
  cases hworks with
  | change call _ changed => exact h.after_change inv hcalls hreturned call changed
  | refuse call _ refused => exact h.after_refusal inv hcalls hreturned call refused
  | post call => exact h.after_post inv hcalls hreturned call
  | accept idle slot => exact h.after_accept inv hcalls hreturned idle slot
  | lock accepted =>
    refine ⟨stage, hcalls, hreturned, h.of_eq rfl rfl rfl, by cases stage <;> rfl, ?_⟩
    rw [← debt_lock accepted]
    omega
  | runPass locked =>
    refine ⟨stage, hcalls, hreturned, h.of_eq rfl rfl rfl, by cases stage <;> rfl, ?_⟩
    rw [← debt_runPass locked]
    omega

end

theorem Underway.returns (h : e.Underway stage) {result : Except SinkError Unit}
    (htold : Call.result? e.signal ⟨change, stage⟩ = some result)
    : Call.Returned e.signal ⟨change, stage⟩ ∧ e.signal.queue = [] ∧
        e.accepted.length = e.made.length ∧ e.prospect change stage = (result, e.made) ∧
        stage.debt = 1 := by
  cases h with
  | started => contradiction
  | changed => contradiction
  | posted _ pending _ => simp [Call.result?, pending] at htold
  | taken queue status accepted =>
    simp only [Call.result?, status, Option.some.injEq] at htold
    exact ⟨status, queue, accepted, by rw [← htold]; rfl, rfl⟩
  | refused queue accepted =>
    injection htold with htold
    exact ⟨trivial, queue, accepted, by rw [← htold]; rfl, rfl⟩

end Execution

/-! ### Where a session is heading -/

namespace Rendering

/-- What a feeding comes to: its value, the changes that were asked for, and those that were
made. -/
abbrev Fate := Except DesiredState.Refusal Nat × List Change × History

namespace Session

/-- The changes that were asked for and made so far, and what the caller is about to do, come to the
given end. -/
inductive Heads (input : Path) (fate : Fate) : Session → Prop where
  | feeding {e : Execution} {c : Caller (Except DesiredState.Refusal Nat)} (rests : e.Rests)
      (comes : c.runOn History.sink.recorded (e.asked, e.made) = fate) :
      Heads input fate ⟨e, .feeding c⟩
  | calling {e : Execution}
      {resume : Except SinkError Unit → Caller (Except DesiredState.Refusal Nat)}
      {calls : List Call} {change : Change} {stage : Call.Stage}
      (calls_eq : e.calls = calls ++ [⟨change, stage⟩])
      (returned : ∀ call ∈ calls, call.Returned e.signal) (underway : e.Underway stage)
      (comes : (resume (e.prospect change stage).1).runOn History.sink.recorded
        (e.asked, (e.prospect change stage).2) = fate) :
      Heads input fate ⟨e, .calling resume⟩
  | finished {e : Execution} {fed : Except DesiredState.Refusal Nat} (rests : e.Rests)
      (comes : (fed, e.asked, e.made) = fate)
      (ready : ∀ count, fed = .ok count → count ≠ 0 → e.synchronizer.await count ≠ .pending) :
      Heads input fate ⟨e, .finished (conclude input fed e.synchronizer)⟩

def debt (s : Session) : Nat :=
  s.execution.debt + match s.phase with
    | .feeding _ => 1
    | .calling _ => 1 + (s.execution.calls.getLast?.map (·.stage.debt)).getD 0
    | .finished _ => 0

variable {e : Execution} {input : Path} {fate : Fate} {s u v : Session} {n m : Nat}

theorem debt_feeding (c : Caller (Except DesiredState.Refusal Nat))
    : debt ⟨e, .feeding c⟩ = e.debt + 1 := rfl

theorem debt_calling {resume : Except SinkError Unit → Caller (Except DesiredState.Refusal Nat)}
    {calls : List Call} {change : Change} {stage : Call.Stage}
    (h : e.calls = calls ++ [⟨change, stage⟩])
    : debt ⟨e, .calling resume⟩ = e.debt + stage.debt + 1 := by
  unfold debt
  simp only [h, List.getLast?_concat, Option.map_some, Option.getD_some]
  omega

theorem debt_finished (result : Except Failure Pass.Summary)
    : debt ⟨e, .finished result⟩ = e.debt := rfl

theorem Heads.step (h : Heads input fate s) (inv : s.execution.Invariant)
    (hstep : s.Step input u)
    : Heads input fate u ∧ u.debt + 7 * s.execution.calls.length + 1 ≤
        s.debt + 7 * u.execution.calls.length := by
  cases hstep with
  | @ask e change resume =>
    cases h with
    | feeding rests comes =>
      have hasked : (e.begin change).asked = e.asked ++ [change] := List.map_append
      refine ⟨.calling rfl rests.returned (.started rests.queue rests.accepted) ?_, ?_⟩
      . rw [hasked]
        exact comes
      . have hdebt : (e.begin change).debt = e.debt := rfl
        have hcalls : (e.begin change).calls.length = e.calls.length + 1 := List.length_append
        dsimp only
        rw [debt_feeding, debt_calling rfl, hdebt, hcalls, Call.Stage.debt]
        omega
  | @answer e call result resume last told =>
    cases h with
    | calling calls_eq returned underway comes =>
      rw [calls_eq, List.getLast?_concat] at last
      cases last
      obtain ⟨hlast, hqueue, haccepted, hprospect, hdebt⟩ := underway.returns told
      rw [hprospect] at comes
      refine ⟨.feeding ⟨hqueue, haccepted, ?_⟩ comes, ?_⟩
      . rw [calls_eq, List.forall_mem_append]
        exact ⟨returned, by simpa using hlast⟩
      . dsimp only
        rw [debt_feeding, debt_calling calls_eq, hdebt]
        omega
  | work works unfinished =>
    cases h with
    | feeding rests comes =>
      obtain ⟨hrests, hcalls, hmade, hdebt⟩ := rests.works works
      refine ⟨.feeding hrests ?_, ?_⟩
      . rw [Execution.asked, hcalls, hmade]
        exact comes
      . dsimp only
        rw [debt_feeding, debt_feeding, hcalls]
        omega
    | calling calls_eq returned underway comes =>
      obtain ⟨stage, hadvances⟩ := underway.works inv calls_eq returned works
      have hdebt := hadvances.debt_le
      dsimp only at hdebt
      refine ⟨.calling hadvances.calls_eq hadvances.returned hadvances.underway ?_, ?_⟩
      . rw [hadvances.prospect_eq, Execution.asked, hadvances.calls_eq, List.map_append]
        rw [Execution.asked, calls_eq, List.map_append] at comes
        exact comes
      . dsimp only
        rw [debt_calling calls_eq, debt_calling hadvances.calls_eq, calls_eq, hadvances.calls_eq]
        simp only [List.length_append, List.length_singleton]
        omega
    | finished => exact absurd rfl (unfinished _)
  | conclude ready =>
    cases h with
    | feeding rests comes =>
      refine ⟨.finished rests comes ready, ?_⟩
      dsimp only
      rw [debt_feeding, debt_finished]
      omega

theorem Heads.extends (h : Heads input fate s)
    : s.execution.asked <+: fate.2.1 ∧ s.execution.made <+: fate.2.2 := by
  cases h with
  | feeding rests comes =>
    rw [← comes]
    exact Caller.runOn_recorded_extends _ _ _
  | @calling e resume calls change stage _ _ _ comes =>
    have hmade : e.made <+: (e.prospect change stage).2 := by
      cases stage with
      | started => exact (Caller.runOn_recorded_extends (Caller.sink change) [] e.made).2
      | _ => exact List.prefix_rfl
    obtain ⟨hasked, hmade'⟩ := Caller.runOn_recorded_extends (resume (e.prospect change stage).1)
      e.asked (e.prospect change stage).2
    rw [← comes]
    exact ⟨hasked, hmade.trans hmade'⟩
  | finished _ comes =>
    rw [← comes]
    exact ⟨List.prefix_rfl, List.prefix_rfl⟩

/-! ### Runs -/

variable {d : Destinations} {tree : FileTree} {state : DesiredState}

theorem Run.trans (h : Run input s n u) (hmore : Run input u m v) : Run input s (n + m) v := by
  induction hmore with
  | refl => exact h
  | next _ hstep ih => exact ih.next hstep

theorem Run.work {resume : Except SinkError Unit → Caller (Except DesiredState.Refusal Nat)}
    {f : Execution} (h : Run input s n ⟨e, .calling resume⟩) (hworks : e.Works f)
    : Run input s (n + 1) ⟨f, .calling resume⟩ :=
  h.next (.work hworks fun _ hphase => nomatch hphase)

theorem Run.reachable (h : (start d tree state).Run input n s)
    : Execution.Reachable d tree s.execution := by
  induction h with
  | refl => exact .start
  | next _ hstep ih =>
    cases hstep with
    | ask => exact ih.next (.begin _)
    | answer => exact ih
    | work works => exact ih.next works.step
    | conclude => exact ih

theorem Run.heads (h : (start d tree state).Run input n s)
    : Heads input (state.feed History.sink.recorded ([], [])) s ∧
        n + s.debt ≤ 7 * s.execution.calls.length + 1 := by
  induction h with
  | refl =>
    refine ⟨.feeding ⟨rfl, rfl, nofun⟩ ?_, Nat.le_refl 1⟩
    rw [state.runOn_feed]
    rfl
  | next hrun hstep ih =>
    obtain ⟨hheads, hcount⟩ := ih
    obtain ⟨hheads', hdebt⟩ := hheads.step (Execution.invariant_of_reachable hrun.reachable) hstep
    exact ⟨hheads', by omega⟩

end Session
end Rendering
end RegistrySync
