import RegistrySync.Proofs.Rendering.Progress
import RegistrySync.Proofs.Synchronizer.Files

/-!
What a rendering comes to: it always ends, and it fails or the files are those of the document,
however the writer and the caller have taken turns.
-/

namespace RegistrySync

theorem DesiredState.isNamed_of_mem_changes {s : DesiredState}
    (hnamed : ∀ m, s.certificates? = some m → ∀ k ∈ m.certificates, k.IsNamed)
    : ∀ change ∈ s.changes, change.IsNamed := by
  intro change hchange
  rw [changes, List.mem_append, List.mem_append, Option.mem_toList, Option.mem_toList] at hchange
  rcases hchange with (hchange | hchange) | hchange
  . obtain ⟨registry, mirrors, rfl⟩ := exists_of_mem_settings hchange
    rintro _ ⟨⟩
  . obtain ⟨image, -, -, rfl⟩ := exists_of_imageChange? hchange
    rintro _ ⟨⟩
  . obtain ⟨m, hm, rfl⟩ := exists_of_certificatesChange? hchange
    rintro _ ⟨⟩
    exact hnamed m hm

theorem Rendering.conclude_of_await {input : Path} {s : Synchronizer} {count : Nat} {r : Report}
    (hcount : count ≠ 0) (hawait : s.await count = .report r)
    : conclude input (.ok count) s = r.outcome.mapError .pass := by
  unfold conclude
  simp only [if_neg hcount, hawait]

namespace Rendering.Session

variable {input : Path} {s : Session} {d : Destinations} {tree : FileTree} {state : DesiredState}
  {n : Nat} {result : Except Failure Pass.Summary}

section

variable (hrun : (start d tree state).Run input n s)
include hrun

theorem Run.invariant : s.execution.Invariant :=
  Execution.invariant_of_reachable hrun.reachable

theorem Run.step_or_finished
    : (∃ u, s.Step input u) ∨ ∃ result, s.phase = .finished result := by
  by_cases hfinished : ∃ result, s.phase = .finished result
  . exact .inr hfinished
  . left
    exact hrun.heads.1.exists_step hrun.invariant (fun _ => state.count_of_feed_recorded)
      fun result hphase => hfinished ⟨result, hphase⟩

theorem Run.length_le : n ≤ 7 * state.changes.length + 1 := by
  obtain ⟨hheads, hcount⟩ := hrun.heads
  have hasked : s.execution.calls.length ≤ state.changes.length := by
    have hasked := hheads.extends.1.length_le
    rw [Execution.asked, List.length_map] at hasked
    apply hasked.trans
    rcases state.feed_recorded_cases with ⟨-, hfate⟩ | ⟨-, asked, made, hle, -, hfate⟩
    . rw [hfate]
    . rw [hfate]
      exact hle.length_le
  omega

theorem Run.made_subset : s.execution.made ⊆ state.changes := by
  refine List.Subset.trans hrun.heads.1.extends.2.subset ?_
  rcases state.feed_recorded_cases with ⟨-, hfate⟩ | ⟨-, asked, made, -, hmade, hfate⟩
  . rw [hfate]
    exact List.Subset.refl _
  . rw [hfate]
    exact hmade.subset

theorem Run.rooted (hd : d.Suit tree) (hnamed : ∀ change ∈ state.changes, change.IsNamed)
    : s.execution.Rooted tree :=
  Execution.rooted_of_reachable hrun.reachable hd fun change hchange =>
    hnamed change (hrun.made_subset hchange)

variable (hphase : s.phase = .finished result)
include hphase

/-- All calls have returned, and the caller has waited for as many passes as it was told. -/
theorem Run.ended
    : ∃ fed, result = conclude input fed s.execution.synchronizer ∧ s.execution.Rests ∧
        (fed, s.execution.asked, s.execution.made) =
          state.feed History.sink.recorded ([], []) ∧
        ∀ count, fed = .ok count → count ≠ 0 →
          s.execution.synchronizer.await count ≠ .pending := by
  cases hrun.heads.1 with
  | feeding => contradiction
  | calling => contradiction
  | finished rests comes ready =>
    injection hphase with hresult
    exact ⟨_, hresult.symm, rests, comes, ready⟩

theorem Run.ended_of_no_changes (hchanges : state.changes = [])
    : result = .error (.nothingToRender input) ∧ s.execution.written = [] := by
  obtain ⟨fed, hresult, hrests, hfate, -⟩ := hrun.ended hphase
  rw [state.feed_recorded fun hconflicts => hconflicts.changes_ne_nil hchanges, hchanges] at hfate
  obtain ⟨rfl, -, hmade⟩ : fed = .ok 0 ∧ s.execution.asked = [] ∧ s.execution.made = [] := by
    simpa using hfate
  have hwritten := hrun.invariant.length_accepted
  rw [hrests.accepted, hmade, List.length_nil] at hwritten
  exact ⟨hresult, List.eq_nil_of_length_eq_zero (by omega)⟩

theorem Run.ended_of_conflicts (hconflicts : state.Conflicts)
    : result = .error (.refused (.image (.refused .allowedAndBlocked))) := by
  obtain ⟨fed, hresult, -, hfate, -⟩ := hrun.ended hphase
  rw [state.feed_recorded_of_conflicts hconflicts] at hfate
  injection hfate with hfed
  rw [hresult, hfed]
  rfl

theorem Run.ended_after_changes (hconflicts : ¬ state.Conflicts) (hchanges : state.changes ≠ [])
    : ∃ r, s.execution.synchronizer.report = some r ∧ r.sequence = state.changes.length ∧
        s.execution.written.length = state.changes.length ∧
        s.execution.lastWritten = .after state.changes ∧
        result = r.outcome.mapError .pass := by
  obtain ⟨fed, hresult, hrests, hfate, hready⟩ := hrun.ended hphase
  have inv := hrun.invariant
  rw [state.feed_recorded hconflicts] at hfate
  obtain ⟨rfl, -, hmade⟩ : fed = .ok state.changes.length ∧
      s.execution.asked = state.changes ∧ s.execution.made = state.changes := by
    simpa using hfate
  have hcount : state.changes.length ≠ 0 := fun h => hchanges (List.eq_nil_of_length_eq_zero h)
  obtain ⟨r, hreport, hle, hawait⟩ :=
    Synchronizer.exists_report_of_await inv.receiving (hready _ rfl hcount)
  -- The report is that of the last pass, and no more passes have been asked for.
  have hsequence : r.sequence = s.execution.written.length := by
    have hsequence := inv.sequence_report
    rw [hreport, Option.map_some] at hsequence
    split at hsequence
    . contradiction
    . exact Option.some.inj hsequence
  have haccepted := inv.length_accepted
  rw [hrests.accepted, hmade] at haccepted
  have hidle : s.execution.writer = .idle := by
    cases hwriter : s.execution.writer with
    | idle => rfl
    | _ =>
      rw [hwriter] at haccepted
      change _ = _ + 1 at haccepted
      omega
  refine ⟨r, hreport, by omega, by omega, ?_, ?_⟩
  . rw [Execution.lastWritten_eq_configuration inv hidle hrests.returned, inv.configuration, hmade]
  . rw [hresult, conclude_of_await hcount hawait]

end

end Rendering.Session

/-! ### Renderings -/

namespace Rendering

variable {r : CommandLine.Rendering} {tree : FileTree} {state : DesiredState}

theorem ofYaml?_ofList (chars : List Char)
    : DesiredState.ofYaml? (.ofList chars) = (do
        let tokens ← Yaml.Token.lex (← Yaml.prepare? chars)
        let node ← Yaml.Node.ofTokens? tokens.toList
        DesiredState.ofValue? (node.getD Yaml.Node.blank).toValue) := by
  rw [DesiredState.ofYaml?, Yaml.parse?, String.toList_ofList]
  simp only [bind_assoc, pure_bind]

theorem load_of_ofYaml? (input : Path) {text : String} (h : DesiredState.ofYaml? text = some state)
    : load input (.ok text.toUTF8) = .ok state := by
  have htext : String.fromUTF8? text.toUTF8 = some text := dif_pos text.isValidUTF8
  unfold load
  simp only [htext, h]

theorem mapError_pass_eq_ok_iff {outcome : Except Pass.Failure Pass.Summary}
    {summary : Pass.Summary}
    : outcome.mapError Failure.pass = .ok summary ↔ outcome = .ok summary := by
  cases outcome <;> simp [Except.mapError]

theorem run_of_load (hload : load r.input (tree.read r.input) = .ok state)
    {fed : Except DesiredState.Refusal Nat} {s : Synchronizer}
    (hfed : state.feed Synchronizer.sink (.start (destinations r) tree) = (fed, s))
    : (run r tree).result = (conclude r.input fed s).map (fun _ => ()) ∧
        (run r tree).tree = s.tree := by
  unfold run
  simp only [hload, hfed]
  cases conclude r.input fed s with
  | error e => exact ⟨rfl, rfl⟩
  | ok summary => exact ⟨rfl, rfl⟩

/-- The program's own session, in which the writer finishes after each change. -/
theorem exists_session_of_run (hload : load r.input (tree.read r.input) = .ok state)
    : ∃ n s result, (Session.start (destinations r) tree state).Run r.input n s ∧
        s.phase = .finished result ∧ (run r tree).result = result.map (fun _ => ()) ∧
        (run r tree).tree = s.tree := by
  obtain ⟨n, e, hrun, he, hidle⟩ := Session.exists_run_of_resting r.input
    (state.feed Caller.sink) (e := .start (destinations r) tree) rfl
    (Synchronizer.resting_start (destinations r) tree)
  rw [state.runOn_feed] at hrun he
  have hready := hrun.heads.1.ready hrun.invariant (fun _ => state.count_of_feed_recorded) hidle
  refine ⟨_, _, _, hrun.next (.conclude hready), rfl, ?_⟩
  exact run_of_load hload (Prod.ext rfl he.symm)

theorem run_renders_document (hload : load r.input (tree.read r.input) = .ok state)
    (hd : (destinations r).Suit tree)
    (hnamed : ∀ m, state.certificates? = some m → ∀ k ∈ m.certificates, k.IsNamed)
    : (∃ n s result, (Session.start (destinations r) tree state).Run r.input n s ∧
        s.phase = .finished result ∧ (run r tree).result = result.map (fun _ => ()) ∧
        (run r tree).tree = s.tree) ∧
      ∀ n s, (Session.start (destinations r) tree state).Run r.input n s →
        n ≤ 7 * state.changes.length + 1 ∧
        ((∃ u, s.Step r.input u) ∨ ∃ result, s.phase = .finished result) ∧
        ∀ result, s.phase = .finished result →
          (state.changes = [] → result = .error (.nothingToRender r.input) ∧ s.tree = tree) ∧
          (state.Conflicts → result = .error (.refused (.image (.refused .allowedAndBlocked)))) ∧
          (state.changes ≠ [] → ¬ state.Conflicts →
            s.execution.reports.map (·.sequence) = List.range' 1 state.changes.length ∧
            ∃ report ∈ s.execution.reports, report.sequence = state.changes.length ∧
              result = report.outcome.mapError .pass ∧
              ∀ summary, result = .ok summary →
                Pass.Holds (.after state.changes) (destinations r) s.tree) := by
  refine ⟨exists_session_of_run hload, ?_⟩
  intro n s hrun
  have hnamed := DesiredState.isNamed_of_mem_changes hnamed
  have hrooted := hrun.rooted hd hnamed
  have inv := hrun.invariant
  refine ⟨hrun.length_le, hrun.step_or_finished, ?_⟩
  intro result hphase
  refine ⟨?_, hrun.ended_of_conflicts hphase, ?_⟩
  . intro hchanges
    obtain ⟨hresult, hwritten⟩ := hrun.ended_of_no_changes hphase hchanges
    exact ⟨hresult, hrooted.untouched hwritten⟩
  . intro hchanges hconflicts
    obtain ⟨report, hreport, hsequence, hwritten, hlast, hresult⟩ :=
      hrun.ended_after_changes hphase hconflicts hchanges
    refine ⟨hwritten ▸ inv.sequence, report, ?_, hsequence, hresult, ?_⟩
    . rw [inv.lastReport] at hreport
      exact List.mem_of_getLast? hreport
    . intro summary hsummary
      have hcompleted := mapError_pass_eq_ok_iff.mp (hresult.symm.trans hsummary)
      have hdestinations := Execution.destinations_of_reachable hrun.reachable
      have hholds := hrooted.holds (hdestinations ▸ hd)
        (hlast ▸ Configuration.isNamed_after hnamed) hreport hcompleted
      rw [hlast, hdestinations] at hholds
      exact hholds

/-- The pass for the first change sees the second one too, and the folder of certificates has an
old one in it. -/
theorem run_renders_document_of_overtaking
    : ∃ r tree state n s summary, load r.input (tree.read r.input) = .ok state ∧
        (destinations r).Suit tree ∧
        state.changes = [.setRegistryPolicy [] ["b.io"] [],
          .replaceCertificates [⟨"a.io..5000", "PEM"⟩]] ∧
        (Session.start (destinations r) tree state).Run r.input n s ∧
        s.phase = .finished (.ok summary) ∧ s.execution.written.map (·.made) = [2, 2] ∧
        tree.entry? ["old", "certs"] = some .directory ∧ s.tree.entry? ["old", "certs"] = none ∧
        s.tree.entry? ["ca.crt", "a.io:5000", "certs"] = some (.file "PEM".toUTF8) := by
  let text := "image:
  metadata: \x7bname: cluster\x7d
  spec:
    registrySources: \x7bblockedRegistries: [b.io]\x7d
registryCertificates:
  metadata: \x7bname: image-registry-certificates, namespace: openshift-image-registry\x7d
  data: \x7ba.io..5000: PEM\x7d
"
  let state : DesiredState := {
    image? := some ⟨⟨some "cluster", none, none⟩, ⟨[], ["b.io"], []⟩⟩
    mirrorPolicies := []
    certificates? := some ⟨⟨some "image-registry-certificates", none,
      some "openshift-image-registry"⟩, some {("a.io..5000", "PEM")}⟩ }
  let r : CommandLine.Rendering := ⟨.ofText "state.yaml", some (.ofText "etc/registries.conf"),
    some (.ofText "etc/policy.json"), some (.ofText "certs")⟩
  let tree := ((FileTree.empty.put "state.yaml" [] (.file text.toUTF8)).put "certs" []
    .directory).put "old" ["certs"] .directory
  have hread : tree.read r.input = .ok text.toUTF8 := rfl
  have hstate : DesiredState.ofYaml? text = some state := by
    apply (ofYaml?_ofList _).trans
    decide +kernel
  have hload : load r.input (tree.read r.input) = .ok state := by
    rw [hread]
    exact load_of_ofYaml? r.input hstate
  have hd : (destinations r).Suit tree := by
    constructor <;> decide +kernel
  have hnamed : ∀ m, state.certificates? = some m → ∀ k ∈ m.certificates, k.IsNamed := by
    rintro _ ⟨⟩
    decide +kernel
  have hconflicts : ¬ state.Conflicts := by
    rintro ⟨image, ⟨⟩, -, hallowed, -⟩
    exact hallowed rfl
  let c := Configuration.after state.changes
  have hover : ∀ d tree, ∃ n e, (Session.start d tree state).Run r.input n
      ⟨e, .feeding (.done (.ok 2))⟩ ∧ e.writer = .idle ∧ e.written.map (·.made) = [2, 2] ∧
        e.synchronizer.report = some ⟨2, (Pass.run c d (Pass.run c d tree).2).1⟩ := by
    intro d tree
    have hbefore := (Session.Run.refl : (Session.start d tree state).Run r.input 0 _)
      |>.next .ask
      |>.work (.change (i := 0) rfl nofun rfl)
      |>.work (.post (i := 0) rfl)
      |>.work (.accept rfl rfl)
      |>.next (.answer rfl rfl)
      |>.next .ask
      |>.work (.change (i := 1) rfl nofun rfl)
      |>.work (.lock rfl)
      |>.work (.runPass rfl)
    obtain ⟨n, e, hrun, he, hidle, hmade⟩ :=
      Session.exists_run_of_changed r.input _ hbefore rfl rfl ⟨rfl, rfl, rfl⟩
    exact ⟨n, e, hrun, hidle, hmade, by rw [he]; rfl⟩
  obtain ⟨n, e, hfed, hidle, hmade, hreport⟩ := hover (destinations r) tree
  have hcompleted : (Pass.run c (destinations r) (Pass.run c (destinations r) tree).2).1 =
      .ok ⟨1, 1, 1⟩ := by
    decide +kernel
  rw [hcompleted] at hreport
  have hresult : conclude r.input (.ok 2) e.synchronizer = .ok ⟨1, 1, 1⟩ := by
    rw [conclude_of_await (by decide) (Synchronizer.await_of_report hreport (Nat.le_refl 2))]
    rfl
  have hready := hfed.heads.1.ready hfed.invariant (fun _ => state.count_of_feed_recorded) hidle
  have hrun := hfed.next (.conclude hready)
  rw [hresult] at hrun
  obtain ⟨-, hall⟩ := run_renders_document hload hd hnamed
  obtain ⟨-, -, hends⟩ := hall _ _ hrun
  obtain ⟨-, -, hends⟩ := hends _ rfl
  obtain ⟨-, report, -, -, -, hholds⟩ := hends (by decide +kernel) hconflicts
  obtain ⟨-, -, hheld⟩ := hholds _ rfl
  exact ⟨r, tree, state, _, _, _, hload, hd, by decide +kernel, hrun, rfl, hmade, by rfl,
    hheld ["old"], hheld ["ca.crt", "a.io:5000"]⟩

end Rendering
end RegistrySync
