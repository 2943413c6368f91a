import RegistrySync.Proofs.Pass.Frame
import RegistrySync.Proofs.Synchronizer.NoLostUpdate

/-!
The files during an execution. Whatever the passes write, and wherever they fail, they add no link,
so the destinations stay as good as they were.
-/

namespace RegistrySync

/-- The certificates of a change, if there are any, are for registries with a name. -/
def Change.IsNamed (change : Change) : Prop :=
  ∀ certificates, change.certificates? = some certificates → ∀ k ∈ certificates, k.IsNamed

theorem Configuration.isNamed_after {h : History} (hnamed : ∀ change ∈ h, change.IsNamed)
    : ∀ k ∈ (after h).certificates, k.IsNamed := by
  rw [(reads_after h).certificates, History.certificates]
  rcases Sequence.getLastD_filterMap Change.certificates? h [] with hnone | ⟨change, hmem, hlast⟩
  . rw [hnone]
    exact nofun
  . exact hnamed change hmem _ hlast

namespace Execution

open FileTree (LinksFrom)

variable {d : Destinations} {t : FileTree} {e f : Execution}

/-- The files have come from a tree by passes only, the last one of which is the last reported. -/
structure Rooted (t : FileTree) (e : Execution) : Prop where
  linksFrom : LinksFrom t e.synchronizer.tree
  untouched : e.written = [] → e.synchronizer.tree = t
  lastPass : ∀ r, e.synchronizer.report = some r → ∃ before, LinksFrom t before ∧
    Pass.run e.lastWritten e.synchronizer.destinations before = (r.outcome, e.synchronizer.tree)

theorem rooted_start (d : Destinations) (t : FileTree) : (start d t).Rooted t where
  linksFrom _ _ := id
  untouched _ := rfl
  lastPass := nofun

theorem Rooted.of_eq (h : e.Rooted t) (htree : f.synchronizer.tree = e.synchronizer.tree)
    (hreport : f.synchronizer.report = e.synchronizer.report)
    (hdestinations : f.synchronizer.destinations = e.synchronizer.destinations)
    (hwritten : f.written = e.written) : f.Rooted t := by
  obtain ⟨linksFrom, untouched, lastPass⟩ := h
  have hlast : f.lastWritten = e.lastWritten := by rw [lastWritten, hwritten, lastWritten]
  rw [← htree] at linksFrom untouched lastPass
  rw [← hwritten] at untouched
  rw [← hreport, ← hdestinations, ← hlast] at lastPass
  exact ⟨linksFrom, untouched, lastPass⟩

theorem Rooted.runPass (h : e.Rooted t) (inv : e.Invariant)
    (hd : e.synchronizer.destinations.Suit t) (hnamed : ∀ change ∈ e.made, change.IsNamed)
    (request madeBefore : Nat) : (e.runPass request madeBefore).Rooted t := by
  have hnamed' : ∀ k ∈ e.configuration.certificates, k.IsNamed := by
    rw [inv.configuration]
    exact Configuration.isNamed_after hnamed
  have hcourse := Pass.course_of_run (fun k hk => (hnamed' k hk).slash_not_mem)
    (hd.of_linksFrom h.linksFrom) (Pass.run_eq rfl)
  have hwritten : (e.runPass request madeBefore).written =
      e.written ++ [e.writing request madeBefore] := rfl
  refine ⟨h.linksFrom.trans hcourse.linksFrom, ?_, ?_⟩
  . rw [hwritten]
    exact fun h => absurd h (List.append_ne_nil_of_right_ne_nil _ (List.cons_ne_nil _ _))
  . rintro r ⟨⟩
    have hpass : Pass.run e.configuration e.synchronizer.destinations e.synchronizer.tree =
        ((Pass.run e.configuration e.synchronizer.destinations e.synchronizer.tree).1,
          (e.runPass request madeBefore).synchronizer.tree) := Pass.run_eq rfl
    rw [lastWritten_concat hwritten]
    exact ⟨e.synchronizer.tree, h.linksFrom, hpass⟩

theorem Rooted.step (h : e.Rooted t) (inv : e.Invariant)
    (hd : e.synchronizer.destinations.Suit t) (hnamed : ∀ change ∈ e.made, change.IsNamed)
    (hstep : Step e f) : f.Rooted t := by
  cases hstep with
  | change _ _ changed =>
    obtain ⟨configuration, -, rfl⟩ := Synchronizer.change_eq_ok_iff.mp changed
    exact h.of_eq rfl rfl rfl rfl
  | accept _ slot =>
    have haccept := Synchronizer.acceptRequest_eq inv.receiving slot
    refine h.of_eq ?_ ?_ ?_ rfl <;> rw [Execution.accept, haccept]
  | runPass _ => exact h.runPass inv hd hnamed _ _
  | _ => exact h.of_eq rfl rfl rfl rfl

theorem made_subset_of_step (hstep : Step e f) : e.made ⊆ f.made := by
  cases hstep with
  | change => exact List.subset_append_left _ _
  | _ => exact List.Subset.refl _

theorem rooted_of_reachable (h : Reachable d t e) (hd : d.Suit t)
    (hnamed : ∀ change ∈ e.made, change.IsNamed) : e.Rooted t := by
  induction h with
  | start => exact rooted_start d t
  | @next e f hreached hstep ih =>
    have hnamed' : ∀ change ∈ e.made, change.IsNamed :=
      fun change hchange => hnamed change (made_subset_of_step hstep hchange)
    have hd' : e.synchronizer.destinations.Suit t := by
      rw [destinations_of_reachable hreached]
      exact hd
    exact (ih hnamed').step (invariant_of_reachable hreached) hd' hnamed' hstep

theorem Rooted.holds (h : e.Rooted t) (hd : e.synchronizer.destinations.Suit t)
    (hnamed : ∀ k ∈ e.lastWritten.certificates, k.IsNamed) {r : Report}
    (hreport : e.synchronizer.report = some r) {summary : Pass.Summary}
    (hcompleted : r.outcome = .ok summary)
    : Pass.Holds e.lastWritten e.synchronizer.destinations e.synchronizer.tree := by
  obtain ⟨before, hlinks, hrun⟩ := h.lastPass r hreport
  rw [hcompleted] at hrun
  exact Pass.holds_of_run hnamed (hd.of_linksFrom hlinks) hrun

end Execution
end RegistrySync
