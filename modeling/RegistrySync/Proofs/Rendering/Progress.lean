import RegistrySync.Proofs.Rendering.Session
import RegistrySync.Proofs.Synchronizer.Outcome

/-!
A session goes on until it has ended: the caller never waits for a pass that will not come. One
session is that in which the writer finishes after each change.
-/

namespace RegistrySync

namespace Synchronizer

variable {s : Synchronizer} {count : Nat}

theorem await_of_report {r : Report} (hreport : s.report = some r) (hcount : count ≤ r.sequence)
    : s.await count = .report r := by
  unfold await
  rw [hreport, Option.filter_some, if_pos (by simpa using hcount)]

theorem exists_report_of_await (hreceiving : s.signal.isReceiving = true)
    (hready : s.await count ≠ .pending)
    : ∃ r, s.report = some r ∧ count ≤ r.sequence ∧ s.await count = .report r := by
  cases hreport : s.report.filter (count ≤ ·.sequence) with
  | none =>
    unfold await at hready
    rw [hreport] at hready
    exact absurd (if_pos hreceiving) hready
  | some r =>
    obtain ⟨hr, hcount⟩ := Option.filter_eq_some_iff.mp hreport
    have hcount : count ≤ r.sequence := by simpa using hcount
    exact ⟨r, hr, hcount, await_of_report hr hcount⟩

end Synchronizer

namespace Execution

variable {e : Execution} {calls : List Call} {change : Change} {stage : Call.Stage}

namespace Invariant

variable (inv : e.Invariant)
include inv

theorem sequence_report
    : e.synchronizer.report.map (·.sequence) =
        if e.written.length = 0 then none else some e.written.length := by
  rw [inv.lastReport, ← List.getLast?_map, inv.sequence, List.getLast?_range']
  simp

theorem length_accepted
    : e.accepted.length = e.written.length + e.writer.request?.toList.length := by
  rw [← inv.served, List.length_append, List.length_map]

theorem length_accepted_of_idle (hidle : e.writer = .idle)
    : e.accepted.length = e.written.length := by
  rw [inv.length_accepted, hidle]
  rfl

end Invariant

theorem exists_works_of_writer (h : e.writer ≠ .idle) : ∃ f, e.Works f := by
  cases hwriter : e.writer with
  | idle => exact absurd hwriter h
  | accepted request madeBefore => exact ⟨_, .lock hwriter⟩
  | locked request madeBefore => exact ⟨_, .runPass hwriter⟩

/-- Either something can be done, or the call has returned. -/
theorem Underway.exists_works (h : e.Underway stage) (inv : e.Invariant)
    (hcalls : e.calls = calls ++ [⟨change, stage⟩])
    : (∃ f, e.Works f) ∨ ∃ result, Call.result? e.signal ⟨change, stage⟩ = some result := by
  have hcall : e.calls[calls.length]? = some ⟨change, stage⟩ := by
    rw [hcalls, List.getElem?_concat_length]
  cases h with
  | started =>
    left
    cases hwriter : e.writer with
    | locked request madeBefore => exact ⟨_, .runPass hwriter⟩
    | _ =>
      cases hchange : e.synchronizer.change change with
      | ok s => exact ⟨_, .change hcall (by simp [hwriter]) hchange⟩
      | error cause => exact ⟨_, .refuse hcall (by simp [hwriter]) hchange⟩
  | changed => exact .inl ⟨_, .post hcall⟩
  | @posted position request queue =>
    left
    by_cases hidle : e.writer = .idle
    . cases hslot : e.signal.slot with
      | none => simp [inv.queued.queue_eq_nil hslot] at queue
      | some n => exact ⟨_, .accept hidle hslot⟩
    . exact exists_works_of_writer hidle
  | taken _ status => exact .inr ⟨.ok (), by simp [Call.result?, status]⟩
  | refused => exact .inr ⟨_, rfl⟩

end Execution

namespace Rendering.Session

variable {input : Path} {fate : Fate} {s : Session}

/-- When the writer has nothing to do, the pass that the caller is about to wait for is over. -/
theorem Heads.ready {e : Execution} {fed : Except DesiredState.Refusal Nat}
    (h : Heads input fate ⟨e, .feeding (.done fed)⟩) (inv : e.Invariant)
    (hcount : ∀ count, fate.1 = .ok count → count = fate.2.2.length) (hidle : e.writer = .idle)
    : ∀ count, fed = .ok count → count ≠ 0 → e.synchronizer.await count ≠ .pending := by
  rintro count rfl hne
  cases h with
  | feeding rests comes =>
    have hmade : count = e.made.length := by
      rw [← comes] at hcount
      exact hcount count rfl
    have hwritten := inv.length_accepted_of_idle hidle
    rw [rests.accepted, ← hmade] at hwritten
    have hsequence := inv.sequence_report
    rw [← hwritten, if_neg hne, Option.map_eq_some_iff] at hsequence
    obtain ⟨r, hreport, hr⟩ := hsequence
    rw [Synchronizer.await_of_report hreport (Nat.le_of_eq hr.symm)]
    exact nofun

/-- A session that has not ended can go on. -/
theorem Heads.exists_step (h : Heads input fate s) (inv : s.execution.Invariant)
    (hcount : ∀ count, fate.1 = .ok count → count = fate.2.2.length)
    (hunfinished : ∀ result, s.phase ≠ .finished result) : ∃ u, s.Step input u := by
  cases h with
  | @feeding e c rests comes =>
    cases c with
    | ask change resume => exact ⟨_, .ask⟩
    | done fed =>
      by_cases hidle : e.writer = .idle
      case neg =>
        obtain ⟨f, hworks⟩ := Execution.exists_works_of_writer hidle
        exact ⟨_, .work hworks nofun⟩
      case pos =>
        have h : Heads input fate ⟨e, .feeding (.done fed)⟩ := .feeding rests comes
        exact ⟨_, .conclude (h.ready inv hcount hidle)⟩
  | calling calls_eq returned underway comes =>
    rcases underway.exists_works inv calls_eq with ⟨f, hworks⟩ | ⟨result, hresult⟩
    . exact ⟨_, .work hworks nofun⟩
    . exact ⟨_, .answer (by rw [calls_eq, List.getLast?_concat]) hresult⟩
  | finished => exact absurd rfl (hunfinished _)

/-! ### The writer finishes after each change -/

section

variable (input) (resume : Except SinkError Unit → Caller (Except DesiredState.Refusal Nat))
  {e : Execution} {change : Change} {n : Nat}

theorem exists_run_of_refused (hidle : e.writer = .idle) {cause : Refusal}
    (hrefused : e.synchronizer.change change = .error cause)
    : ∃ n f, Run input ⟨e, .feeding (.ask change resume)⟩ n
          ⟨f, .feeding (resume (.error (.refused cause)))⟩ ∧
        f.synchronizer = e.synchronizer ∧ f.writer = .idle := by
  have hbegun : (e.begin change).calls = e.calls ++ [⟨change, .started⟩] := rfl
  have hcall : (e.begin change).calls[e.calls.length]? = some ⟨change, .started⟩ := by
    rw [hbegun, List.getElem?_concat_length]
  have hunlocked : ∀ request madeBefore, (e.begin change).writer ≠ .locked request madeBefore := by
    simp [Execution.begin, hidle]
  have hrun := (Run.refl : Run input ⟨e, .feeding (.ask change resume)⟩ 0 _)
    |>.next .ask
    |>.work (.refuse hcall hunlocked hrefused)
    |>.next (.answer (by rw [Execution.calls_setStage hbegun, List.getLast?_concat]) rfl)
  exact ⟨_, _, hrun, rfl, hidle⟩

/-- A change whose request is accepted at once. -/
theorem exists_run_of_changed {position : Nat} (hbefore : Run input s n ⟨e, .calling resume⟩)
    (hlast : e.calls.getLast? = some ⟨change, .changed position⟩) (hidle : e.writer = .idle)
    (hresting : e.synchronizer.Resting)
    : ∃ m f, Run input s m ⟨f, .feeding (resume (.ok ()))⟩ ∧
        f.synchronizer = e.synchronizer.served e.configuration ∧ f.writer = .idle ∧
        f.written.map (·.made) = e.written.map (·.made) ++ [e.made.length] := by
  obtain ⟨calls, hcalls⟩ := List.getLast?_eq_some_iff.mp hlast
  let posted := e.post calls.length change position
  let request := e.signal.posts.length
  let passed := ((posted.accept request).lock request e.made.length).runPass request e.made.length
  have hposted : passed.calls = calls ++ [⟨change, .posted position request⟩] :=
    Execution.calls_setStage hcalls _ _
  have hserved : passed.synchronizer = e.synchronizer.served e.configuration :=
    hresting.runPass_posted e.configuration
  have htold : Call.result? passed.signal ⟨change, .posted position request⟩ =
      some (.ok ()) := by
    have hstatus : passed.signal.posts[request]? = some .accepted := by
      rw [Execution.signal, hserved]
      exact hresting.getElem?_posts_served e.configuration
    simp only [Call.result?, hstatus]
  have hpost : e.Works posted := .post (by rw [hcalls, List.getElem?_concat_length])
  have haccept : posted.Works (posted.accept request) := .accept hidle hresting.post.1
  have hlast : passed.calls.getLast? = some ⟨change, .posted position request⟩ := by
    rw [hposted, List.getLast?_concat]
  have hrun := hbefore
    |>.work hpost
    |>.work haccept
    |>.work (.lock rfl)
    |>.work (.runPass rfl)
    |>.next (.answer hlast htold)
  exact ⟨_, passed, hrun, hserved, rfl, List.map_append⟩

theorem exists_run_of_taken (hidle : e.writer = .idle) (hresting : e.synchronizer.Resting)
    {c : Configuration} (happly : e.synchronizer.configuration.apply change = .ok c)
    : ∃ n f, Run input ⟨e, .feeding (.ask change resume)⟩ n ⟨f, .feeding (resume (.ok ()))⟩ ∧
        f.synchronizer = e.synchronizer.served c ∧ f.writer = .idle := by
  let changed := (e.begin change).change e.calls.length change
    { e.synchronizer with configuration := c }
  have hbegun : (e.begin change).calls = e.calls ++ [⟨change, .started⟩] := rfl
  have hchange : (e.begin change).Works changed := by
    apply Execution.Works.change
    . rw [hbegun, List.getElem?_concat_length]
    . simp [Execution.begin, hidle]
    . exact Synchronizer.change_eq_ok_iff.mpr ⟨c, happly, rfl⟩
  have hbefore := (Run.refl : Run input ⟨e, .feeding (.ask change resume)⟩ 0 _)
    |>.next .ask
    |>.work hchange
  have hchanged : changed.calls = e.calls ++ [⟨change, .changed e.made.length⟩] :=
    Execution.calls_setStage hbegun _ _
  have hlast : changed.calls.getLast? = some ⟨change, .changed e.made.length⟩ := by
    rw [hchanged, List.getLast?_concat]
  obtain ⟨n, f, hrun, hf, hidle', -⟩ := exists_run_of_changed input resume hbefore hlast hidle
    ⟨hresting.isBusy, hresting.isReceiving, hresting.queue⟩
  exact ⟨n, f, hrun, hf, hidle'⟩

end

theorem exists_run_of_resting (input : Path) (c : Caller (Except DesiredState.Refusal Nat))
    {e : Execution} (hidle : e.writer = .idle) (hresting : e.synchronizer.Resting)
    : ∃ n f, Run input ⟨e, .feeding c⟩ n
          ⟨f, .feeding (.done (c.runOn Synchronizer.sink e.synchronizer).1)⟩ ∧
        f.synchronizer = (c.runOn Synchronizer.sink e.synchronizer).2 ∧ f.writer = .idle := by
  induction c generalizing e with
  | done fed => exact ⟨0, e, .refl, rfl, hidle⟩
  | ask change resume ih =>
    change ∃ n f, Run input _ n ⟨f, .feeding (.done ((resume
      (Synchronizer.sink change e.synchronizer).1).runOn Synchronizer.sink
        (Synchronizer.sink change e.synchronizer).2).1)⟩ ∧ f.synchronizer = ((resume
      (Synchronizer.sink change e.synchronizer).1).runOn Synchronizer.sink
        (Synchronizer.sink change e.synchronizer).2).2 ∧ f.writer = .idle
    cases happly : e.synchronizer.configuration.apply change with
    | error cause =>
      obtain ⟨n, f, hrun, hf, hidle'⟩ := exists_run_of_refused input resume hidle
        (Synchronizer.change_eq_error_iff.mpr happly)
      obtain ⟨m, g, hrun', hg, hidle''⟩ := ih (.error (.refused cause)) hidle' (hf ▸ hresting)
      rw [hresting.sink_of_refused happly, ← hf]
      exact ⟨n + m, g, hrun.trans hrun', hg, hidle''⟩
    | ok c =>
      obtain ⟨n, f, hrun, hf, hidle'⟩ := exists_run_of_taken input resume hidle hresting happly
      obtain ⟨m, g, hrun', hg, hidle''⟩ := ih (.ok ()) hidle' (hf ▸ hresting.served c)
      rw [hresting.sink_of_taken happly, ← hf]
      exact ⟨n + m, g, hrun.trans hrun', hg, hidle''⟩

end Rendering.Session
end RegistrySync
