import RegistrySync.Proofs.Cluster.Relist
import RegistrySync.Proofs.Cluster.Tracked

/-!
What a relist may change. A policy that is returned as it is tracked costs nothing, so a relist that
returns what is tracked makes no change at all.
-/

namespace RegistrySync

/-- The registry whose mirrors a change sets or clears. -/
def Change.source? : Change → Option String
  | .setMirrors source _ | .clearMirrors source => some source
  | .clearAllMirrors | .setRegistryPolicy _ _ _ | .replaceCertificates _ => none

namespace Cluster

namespace MirrorPolicy

variable {p : MirrorPolicy} {change : Change}

theorem exists_source_of_mem_settings (h : change ∈ p.settings)
    : ∃ r, change.source? = some r ∧ p.Lists r := by
  obtain ⟨item, hitem, rfl⟩ := List.mem_map.mp h
  exact ⟨item.source, rfl, item, hitem, rfl⟩

theorem exists_source_of_mem_clearings (h : change ∈ p.clearings)
    : ∃ r, change.source? = some r ∧ p.Lists r := by
  obtain ⟨item, hitem, rfl⟩ := List.mem_map.mp h
  exact ⟨item.source, rfl, item, hitem, rfl⟩

end MirrorPolicy

namespace MirrorTracker

/-- Why a relist that returns some policies, to a tracker that tracked others, sets or clears the
mirrors of a registry on one of its events. What has come of the tracker by then is given too. -/
inductive Accounts (t : MirrorTracker) (ps : List MirrorPolicy) (now : MirrorTracker) (r : String) :
    Event MirrorPolicy → Prop where
  | returned {p : MirrorPolicy} (hchanged : ¬ now.Tracks p) (hlists : p.Lists r) :
      Accounts t ps now r (.initApply p)
  | replaced {p old : MirrorPolicy} (hchanged : ¬ now.Tracks p)
      (hold : now.known[p.name]? = some old) (hlists : old.Lists r) :
      Accounts t ps now r (.initApply p)
  | vanished {name : String} {old : MirrorPolicy} (hold : t.known[name]? = some old)
      (hname : name ∉ ps.map (·.name)) (hlists : old.Lists r) :
      Accounts t ps now r .initDone

variable {t u : MirrorTracker} {ps : List MirrorPolicy} {change : Change}

theorem exists_accounts_of_initApply {p : MirrorPolicy} (h : change ∈ u.changesOfApply p)
    : ∃ r, change.source? = some r ∧ Accounts t ps u r (.initApply p) := by
  by_cases htracks : u.Tracks p
  . rw [changesOfApply_of_tracks htracks] at h
    contradiction
  . rw [changesOfApply_of_not_tracks htracks, List.mem_append] at h
    rcases h with h | h
    . obtain ⟨name, hname, old, hold, hchange⟩ := mem_clearingsOf.mp h
      obtain ⟨r, hsource, hlists⟩ := MirrorPolicy.exists_source_of_mem_clearings hchange
      rw [List.mem_singleton.mp hname] at hold
      exact ⟨r, hsource, .replaced htracks hold hlists⟩
    . obtain ⟨r, hsource, hlists⟩ := MirrorPolicy.exists_source_of_mem_settings h
      exact ⟨r, hsource, .returned htracks hlists⟩

theorem exists_accounts_of_initDone {order : Arrangement}
    (h : change ∈ (t.trackAll (relisting ps)).changes order .initDone)
    : ∃ r, change.source? = some r ∧ Accounts t ps u r .initDone := by
  simp only [changes, relisted_trackAll_relisting] at h
  obtain ⟨name, hname, old, hold, hchange⟩ := mem_clearingsOf.mp h
  obtain ⟨r, hsource, hlists⟩ := MirrorPolicy.exists_source_of_mem_clearings hchange
  rw [(order.perm _).mem_iff, mem_vanished] at hname
  rw [getElem?_trackAll_relisting t ps hname.2] at hold
  exact ⟨r, hsource, .vanished hold hname.2 hlists⟩

theorem exists_accounts {order : Arrangement} {e : Event MirrorPolicy}
    {earlier later : List (Event MirrorPolicy)} (hevents : relist ps = earlier ++ e :: later)
    (h : change ∈ (t.trackAll earlier).changes order e)
    : ∃ r, change.source? = some r ∧ Accounts t ps (t.trackAll earlier) r e := by
  rcases Sequence.concat_eq_append_cons_iff.mp hevents with ⟨rfl, rfl, -⟩ | ⟨rest, -, hrest⟩
  . exact exists_accounts_of_initDone h
  . have he : e ∈ relisting ps := by
      rw [hrest]
      exact List.mem_append_right _ List.mem_cons_self
    cases e with
    | initApply p => exact exists_accounts_of_initApply h
    | init => contradiction
    | _ => simp [relisting] at he

/-! ### Nothing has changed -/

section Unchanged

variable (htracks : ∀ p ∈ ps, t.Tracks p)
include htracks

theorem sources_trackAll_relisting (name : String)
    : (t.trackAll (relisting ps)).known[name]?.map (·.sources) =
        t.known[name]?.map (·.sources) := by
  induction ps using List.reverseRecOn with
  | nil => rfl
  | append_singleton ps p ih =>
    simp only [List.mem_append, List.mem_singleton, or_imp, forall_and, forall_eq] at htracks
    rw [relisting_concat, trackAll_concat, track]
    simp only [Std.ExtTreeMap.getElem?_insert, Std.LawfulEqOrd.compare_eq_iff_eq]
    split
    . next hname =>
      rw [← hname]
      exact htracks.2.symm
    . exact ih htracks.1

theorem Emits.eq_nil_of_relisting {made : List Change} (h : t.Emits (relisting ps) made)
    : made = [] := by
  induction ps using List.reverseRecOn generalizing made with
  | nil =>
    have h : t.Emits ([] ++ [.init]) made := h
    obtain ⟨order, before, hbefore, rfl⟩ := h.of_concat
    rw [hbefore.of_nil]
    rfl
  | append_singleton ps p ih =>
    simp only [List.mem_append, List.mem_singleton, or_imp, forall_and, forall_eq] at htracks
    rw [relisting_concat] at h
    obtain ⟨order, before, hbefore, rfl⟩ := h.of_concat
    have hp : (t.trackAll (relisting ps)).Tracks p :=
      (sources_trackAll_relisting htracks.1 p.name).trans htracks.2
    rw [ih htracks.1 hbefore, changes, changesOfApply_of_tracks hp]
    rfl

variable (hreturned : ∀ name : String, t.known[name]? ≠ none → name ∈ ps.map (·.name))
include hreturned

theorem sources_trackAll_relist (name : String)
    : (t.trackAll (relist ps)).known[name]?.map (·.sources) = t.known[name]?.map (·.sources) := by
  rw [relist, trackAll_concat, getElem?_track_initDone (relisted_trackAll_relisting t ps)]
  split
  . exact sources_trackAll_relisting htracks name
  . next hname => rw [not_not.mp (mt (hreturned name) hname)]

theorem Emits.eq_nil_of_relist {made : List Change} (h : t.Emits (relist ps) made)
    : made = [] := by
  obtain ⟨order, before, hbefore, rfl⟩ := Emits.of_concat h
  rw [hbefore.eq_nil_of_relisting htracks, List.nil_append]
  apply List.eq_nil_iff_forall_not_mem.mpr
  intro change hchange
  obtain ⟨r, -, haccounts⟩ := exists_accounts_of_initDone (u := t) hchange
  cases haccounts with
  | vanished hold hname _ => exact hname (hreturned _ (hold ▸ Option.some_ne_none _))

end Unchanged

theorem Handles.exists_changes {log earlier later : Log} {e : Event MirrorPolicy}
    {made : List Change} (h : t.Handles log u) (hnamed : t.Named)
    (hlog : log = earlier ++ (e, made) :: later)
    : t.Handles earlier (t.trackAll earlier.events) ∧
        ∃ order, made = (t.trackAll earlier.events).changes order e := by
  induction h generalizing later with
  | nil => simp at hlog
  | @next log u _ last h order _ hleads ih =>
    rcases Sequence.concat_eq_append_cons_iff.mp hlog with ⟨rfl, heq, -⟩ | ⟨rest, -, hrest⟩
    . obtain ⟨rfl, rfl⟩ := Prod.mk.inj heq
      obtain ⟨rfl, -⟩ := h.eq_trackAll hnamed
      exact ⟨h, order, (eq_of_leads (hnamed.trackAll _) hleads).1⟩
    . exact ih hrest

/-- Without other changes, no pass runs either when a relist returns all that is tracked. -/
theorem relist_spares_unchanged {before log : Log} (hreached : empty.Handles before t)
    (hrelist : t.Handles log u) (hevents : log.events = relist ps)
    : (∀ earlier e made later, log = earlier ++ (e, made) :: later → ∀ change ∈ made,
        ∃ now r, t.Handles earlier now ∧ change.source? = some r ∧ Accounts t ps now r e) ∧
      ((∀ name : String, t.known[name]? ≠ none → name ∈ ps.map (·.name)) → (∀ p ∈ ps, t.Tracks p) →
        log.made = [] ∧
        (∀ name : String, u.known[name]?.map (·.sources) = t.known[name]?.map (·.sources)) ∧
        ∀ (s v : Session) trace, s.tracking = .done t → s.Run trace v →
          trace.events = relist ps → trace.changesOf .tracker = [] ∧
            ((∀ i, trace.changesOf (.other i) = []) → v.synchronizer = s.synchronizer)) := by
  have hnamed := hreached.named named_empty
  constructor
  . rintro earlier e made later rfl change hchange
    obtain ⟨hearlier, order, rfl⟩ := hrelist.exists_changes hnamed rfl
    rw [Log.events, List.map_append, List.map_cons] at hevents
    obtain ⟨r, hsource, haccounts⟩ := exists_accounts hevents.symm hchange
    exact ⟨_, r, hearlier, hsource, haccounts⟩
  . intro hreturned htracks
    obtain ⟨rfl, hemits⟩ := hrelist.eq_trackAll hnamed
    rw [hevents] at hemits ⊢
    refine ⟨hemits.eq_nil_of_relist htracks hreturned,
      sources_trackAll_relist htracks hreturned, ?_⟩
    intro s v trace hidle hrun htrace
    obtain ⟨rest, hemits, -⟩ := hrun.exists_emits hidle hnamed
    rw [htrace] at hemits
    have htracker := (List.append_eq_nil_iff.mp (hemits.eq_nil_of_relist htracks hreturned)).1
    refine ⟨htracker, fun hothers => hrun.synchronizer_eq ?_⟩
    apply List.eq_nil_iff_forall_not_mem.mpr
    intro change hchange
    obtain ⟨source, hsource⟩ := (trace.mem_changes change).mp hchange
    cases source with
    | tracker => simp [htracker] at hsource
    | other i => simp [hothers i] at hsource

/-- An earlier relist was abandoned, and the new one returns a policy twice. -/
theorem relist_spares_unchanged_after_abandoned_relist
    : ∃ before t log u ps, empty.Handles before t ∧ t.relisted = some ["second"] ∧
        t.Handles log u ∧ log.events = relist ps ∧
        ps.map (·.name) = ["second", "first", "second"] ∧ t.size = 2 ∧ log.made = [] := by
  let policy (name : String) : MirrorPolicy := ⟨⟨some name, none, none⟩, [⟨"a", [name]⟩]⟩
  let events : List (Event MirrorPolicy) :=
    [.apply (policy "first"), .init, .initApply (policy "second")]
  let ps := [policy "second", policy "first", policy "second"]
  obtain ⟨before, t, hreached, hevents⟩ := exists_handles empty .sorted (.ok ()) events
  obtain ⟨log, u, hrelist, hlog⟩ := exists_handles t .sorted (.ok ()) (relist ps)
  have ht : t = empty.trackAll events := by
    rw [(hreached.eq_trackAll named_empty).1, hevents]
  have hreturned (name : String) (hname : t.known[name]? ≠ none) : name ∈ ps.map (·.name) := by
    obtain ⟨p, hp⟩ := Option.ne_none_iff_exists'.mp hname
    rw [ht] at hp
    rw [← named_empty.trackAll events name p hp]
    have hall : ∀ p ∈ events.filterMap Event.applied?, p.name ∈ ps.map (·.name) := by
      decide
    exact hall p (mem_applied_of_trackAll events hp)
  have htracks : ∀ p ∈ ps, t.Tracks p := by
    rw [ht]
    decide +kernel
  obtain ⟨-, hsame⟩ := relist_spares_unchanged hreached hrelist hlog
  refine ⟨before, t, log, u, ps, hreached, ?_, hrelist, hlog, rfl, ?_,
    (hsame hreturned htracks).1⟩
  . rw [ht]
    rfl
  . rw [ht]
    decide +kernel

end MirrorTracker
end Cluster
end RegistrySync
