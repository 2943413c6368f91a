import RegistrySync.Proofs.Cluster.Mirroring

/-!
What a whole relist leaves the mirrors of a registry at, wherever it starts. Policies are returned
one after the other, each of which first clears what its own old version lists, and what has
vanished is cleared at the end.
-/

namespace RegistrySync.Cluster

namespace MirrorTracker

def relisting (ps : List MirrorPolicy) : List (Event MirrorPolicy) :=
  .init :: ps.map .initApply

def relist (ps : List MirrorPolicy) : List (Event MirrorPolicy) :=
  relisting ps ++ [.initDone]

theorem relisting_concat (ps : List MirrorPolicy) (p : MirrorPolicy)
    : relisting (ps ++ [p]) = relisting ps ++ [.initApply p] := by
  simp [relisting]

variable (t : MirrorTracker) (ps : List MirrorPolicy)

theorem relisted_trackAll_relisting
    : (t.trackAll (relisting ps)).relisted = some (ps.map (·.name)) := by
  induction ps using List.reverseRecOn with
  | nil => rfl
  | append_singleton ps p ih =>
    rw [relisting_concat, trackAll_concat, track, ih]
    simp

theorem getElem?_trackAll_relisting {name : String} (hname : name ∉ ps.map (·.name))
    : (t.trackAll (relisting ps)).known[name]? = t.known[name]? := by
  induction ps using List.reverseRecOn with
  | nil => rfl
  | append_singleton ps p ih =>
    simp only [List.map_append, List.mem_append, List.map_cons, List.map_nil, List.mem_singleton,
      not_or] at hname
    rw [relisting_concat, trackAll_concat, track, ← ih hname.1]
    simp [Std.ExtTreeMap.getElem?_insert, Ne.symm hname.2]

variable {t ps}

theorem changesOfApply_congr {u : MirrorTracker} {p : MirrorPolicy}
    (h : u.known[p.name]? = t.known[p.name]?) : u.changesOfApply p = t.changesOfApply p := by
  rw [changesOfApply, h, changesOfApply]

theorem mirrors?_congr {u : MirrorTracker} {name : String} (h : u.known[name]? = t.known[name]?)
    (r : String) : u.mirrors? name r = t.mirrors? name r := by
  rw [mirrors?, h, mirrors?]

theorem Emits.eq_of_relisting {made : List Change} (h : t.Emits (relisting ps) made)
    (hnames : (ps.map (·.name)).Nodup) : made = ps.flatMap t.changesOfApply := by
  induction ps using List.reverseRecOn generalizing made with
  | nil =>
    have h : t.Emits ([] ++ [.init]) made := h
    obtain ⟨order, before, hbefore, rfl⟩ := h.of_concat
    rw [hbefore.of_nil]
    rfl
  | append_singleton ps p ih =>
    rw [relisting_concat] at h
    obtain ⟨order, before, hbefore, rfl⟩ := h.of_concat
    simp only [List.map_append, List.map_cons, List.map_nil, List.nodup_append,
      List.mem_singleton] at hnames
    obtain ⟨hnames, -, hfresh⟩ := hnames
    have hp : p.name ∉ ps.map (·.name) := fun hmem => hfresh p.name hmem p.name rfl rfl
    rw [ih hbefore hnames, List.flatMap_append, List.flatMap_singleton, changes,
      changesOfApply_congr (getElem?_trackAll_relisting t ps hp)]

theorem Emits.exists_of_relist {made : List Change} (h : t.Emits (relist ps) made)
    (hnames : (ps.map (·.name)).Nodup)
    : ∃ vanished, made = ps.flatMap t.changesOfApply ++
          (t.trackAll (relisting ps)).clearingsOf vanished ∧
        ∀ name, name ∈ vanished ↔ t.known[name]? ≠ none ∧ name ∉ ps.map (·.name) := by
  obtain ⟨order, before, hbefore, rfl⟩ := Emits.of_concat h
  refine ⟨order.arrange ((t.trackAll (relisting ps)).vanished (ps.map (·.name))), ?_, ?_⟩
  . simp only [changes, relisted_trackAll_relisting, hbefore.eq_of_relisting hnames]
  . intro name
    rw [(order.perm _).mem_iff, mem_vanished]
    by_cases hname : name ∈ ps.map (·.name)
    . simp [hname]
    . rw [getElem?_trackAll_relisting t ps hname]

variable {made : History} (h : t.Emits (relist ps) made) (hnames : (ps.map (·.name)).Nodup)
  {r : String}
include h hnames

theorem written?_relist_of_vanished {name : String} (hname : name ∉ ps.map (·.name))
    (hasked : t.mirrors? name r ≠ none) : made.written? r = some [] := by
  obtain ⟨vanished, rfl, hvanished⟩ := h.exists_of_relist hnames
  have hknown : t.known[name]? ≠ none := by
    intro hunknown
    rw [mirrors?, hunknown] at hasked
    exact hasked rfl
  have hgone : ∃ name ∈ vanished, (t.trackAll (relisting ps)).mirrors? name r ≠ none := by
    refine ⟨name, (hvanished name).mpr ⟨hknown, hname⟩, ?_⟩
    rwa [mirrors?_congr (getElem?_trackAll_relisting t ps hname)]
  rw [History.written?_append, written?_clearingsOf, if_pos hgone]
  rfl

theorem written?_relist (hreturned : ∀ name, t.mirrors? name r ≠ none → name ∈ ps.map (·.name))
    : made.written? r = History.written? (ps.flatMap t.changesOfApply) r := by
  obtain ⟨vanished, rfl, hvanished⟩ := h.exists_of_relist hnames
  have hnone : ¬ ∃ name ∈ vanished, (t.trackAll (relisting ps)).mirrors? name r ≠ none := by
    rintro ⟨name, hname, hasked⟩
    obtain ⟨-, hname⟩ := (hvanished name).mp hname
    rw [mirrors?_congr (getElem?_trackAll_relisting t ps hname)] at hasked
    exact hname (hreturned name hasked)
  rw [History.written?_append, written?_clearingsOf, if_neg hnone]
  rfl

omit h hnames

/-! ### What the returned policies write -/

/-- A policy that does not list a registry clears it if its old version lists it. -/
theorem written?_changesOfApply_of_not_lists {p : MirrorPolicy} (hp : ¬ p.Lists r)
    : History.written? (t.changesOfApply p) r = (t.mirrors? p.name r).map fun _ => [] := by
  have hnone : p.mirrors? r = none := by
    by_contra hasked
    exact hp ((p.mirrors?_ne_none_iff r).mp hasked)
  rw [written?_changesOfApply, hnone]
  split
  . next htracks => rw [htracks.mirrors?_eq, hnone]; rfl
  . rfl

theorem written?_flatMap (hlists : ∀ p ∈ ps, ¬ p.Lists r)
    : History.written? (ps.flatMap t.changesOfApply) r =
        if ∃ p ∈ ps, t.mirrors? p.name r ≠ none then some [] else none := by
  induction ps with
  | nil => rfl
  | cons p ps ih =>
    rw [List.forall_mem_cons] at hlists
    rw [List.flatMap_cons, History.written?_append, ih hlists.2,
      written?_changesOfApply_of_not_lists hlists.1]
    cases hasked : t.mirrors? p.name r with
    | none => simp [hasked]
    | some asked =>
      simp only [hasked, Option.map_some, List.mem_cons, exists_eq_or_imp]
      split <;> rfl

/-- Only the policy itself and those returned before it write to a registry that it lists. -/
theorem written?_flatMap_of_lists {before after : List MirrorPolicy} {p : MirrorPolicy}
    (hbefore : ∀ q ∈ before, ¬ q.Lists r) (hafter : ∀ q ∈ after, ¬ q.Lists r)
    (hold : ∀ q ∈ after, t.mirrors? q.name r = none)
    : History.written? ((before ++ p :: after).flatMap t.changesOfApply) r =
        (History.written? (t.changesOfApply p) r).or
          (if ∃ q ∈ before, t.mirrors? q.name r ≠ none then some [] else none) := by
  have hnone : ¬ ∃ q ∈ after, t.mirrors? q.name r ≠ none := fun ⟨q, hq, hasked⟩ =>
    hasked (hold q hq)
  rw [List.flatMap_append, List.flatMap_cons, History.written?_append, History.written?_append,
    written?_flatMap hbefore, written?_flatMap hafter, if_neg hnone, Option.none_or]

/-- No policy that lists a registry has vanished or is returned after the one that now lists it. -/
theorem written?_relist_of_lists {earlier later : List MirrorPolicy} {p : MirrorPolicy}
    {made : History} (h : t.Emits (relist (earlier ++ p :: later)) made)
    (hnames : ((earlier ++ p :: later).map (·.name)).Nodup)
    (hsources : (earlier ++ p :: later).Pairwise fun p q => ∀ r, p.Lists r → ¬ q.Lists r)
    (hlists : p.Lists r)
    (hreturned : ∀ name, t.mirrors? name r ≠ none → name ∈ (earlier ++ [p]).map (·.name))
    : made.written? r = (History.written? (t.changesOfApply p) r).or
        (if ∃ q ∈ earlier, t.mirrors? q.name r ≠ none then some [] else none) := by
  obtain ⟨-, hlater, hearlier⟩ := List.pairwise_append.mp hsources
  rw [List.append_cons, List.map_append] at hnames
  rw [written?_relist h]
  . apply written?_flatMap_of_lists
    . intro q hq hq'
      exact hearlier q hq p List.mem_cons_self r hq' hlists
    . intro q hq
      exact (List.pairwise_cons.mp hlater).1 q hq r hlists
    . intro q hq
      by_contra hasked
      exact List.disjoint_of_nodup_append hnames (hreturned q.name hasked) (List.mem_map_of_mem hq)
  . rwa [List.append_cons, List.map_append]
  . intro name hasked
    rw [List.append_cons, List.map_append]
    exact List.mem_append_left _ (hreturned name hasked)

/-- If no returned policy lists a registry any more, then its mirrors are cleared. -/
theorem written?_relist_of_not_lists {made : History} (h : t.Emits (relist ps) made)
    (hnames : (ps.map (·.name)).Nodup) (hlists : ∀ p ∈ ps, ¬ p.Lists r) {name : String}
    (hasked : t.mirrors? name r ≠ none) : made.written? r = some [] := by
  by_cases hreturned : ∀ name, t.mirrors? name r ≠ none → name ∈ ps.map (·.name)
  . obtain ⟨p, hp, rfl⟩ := List.mem_map.mp (hreturned name hasked)
    rw [written?_relist h hnames hreturned, written?_flatMap hlists, if_pos ⟨p, hp, hasked⟩]
  . push Not at hreturned
    obtain ⟨gone, hgone, hvanished⟩ := hreturned
    exact written?_relist_of_vanished h hnames hvanished hgone

end MirrorTracker

namespace Session

/-- A returned policy that is new or has changed decides the mirrors of what it lists, unless a
policy that listed it before has vanished or is returned later. One that has not changed is
skipped. -/
theorem relist_converges {d : Destinations} {tree : FileTree} {others : List (Caller Unit)}
    {before trace : Trace} {s u : Session} {t t' : MirrorTracker}
    (hothers : ∀ c ∈ others, c.Only fun change => ¬ change.IsAboutMirrors)
    (hbefore : (start d tree others).Run before s) (hidle : s.tracking = .done t)
    (hrun : s.Run trace u) (hidle' : u.tracking = .done t') {ps : List MirrorPolicy}
    (hevents : trace.events = MirrorTracker.relist ps) (hnames : (ps.map (·.name)).Nodup)
    (hsources : ps.Pairwise fun p q => ∀ r, p.Lists r → ¬ q.Lists r)
    : (∀ earlier p later r, ps = earlier ++ p :: later → p.Lists r →
        (∀ (name : String) (q : MirrorPolicy), t.known[name]? = some q → q.Lists r →
          name ∈ (earlier ++ [p]).map (·.name)) →
        (¬ t.Tracks p → p.mirrors? r = some (u.configuration.mirrors r)) ∧
        (t.Tracks p →
          (∀ (name : String) (q : MirrorPolicy), t.known[name]? = some q → q.Lists r →
            name = p.name) →
          u.configuration.mirrors r = s.configuration.mirrors r)) ∧
      (∀ (name : String) (q : MirrorPolicy) r, t.known[name]? = some q → q.Lists r →
        (∀ p ∈ ps, ¬ p.Lists r) → u.configuration.mirrors r = []) := by
  have hnamed : t.Named := by
    rw [(hbefore.emits_of_idle rfl MirrorTracker.named_empty hidle).1]
    exact MirrorTracker.named_empty.trackAll _
  have hemits := (hrun.emits_of_idle hidle hnamed hidle').2
  rw [hevents] at hemits
  have hmirrors := hbefore.mirrors_eq_getD_written? hothers hrun
  constructor
  . rintro earlier p later r rfl hlists hreturned
    have hreturned (name : String) (hasked : t.mirrors? name r ≠ none) :
        name ∈ (earlier ++ [p]).map (·.name) := by
      obtain ⟨q, hq, hlists⟩ := (MirrorTracker.mirrors?_ne_none_iff t r name).mp hasked
      exact hreturned name q hq hlists
    have hwritten := MirrorTracker.written?_relist_of_lists hemits hnames hsources hlists hreturned
    rw [hmirrors, hwritten, MirrorTracker.written?_changesOfApply]
    constructor
    . intro hchanged
      obtain ⟨asked, hasked⟩ :=
        Option.ne_none_iff_exists'.mp ((p.mirrors?_ne_none_iff r).mpr hlists)
      rw [if_neg hchanged, hasked]
      rfl
    . intro htracks honly
      have hearlier : ¬ ∃ q ∈ earlier, t.mirrors? q.name r ≠ none := by
        rintro ⟨q, hq, hasked⟩
        obtain ⟨old, hold, holdLists⟩ := (MirrorTracker.mirrors?_ne_none_iff t r q.name).mp hasked
        rw [List.map_append, List.nodup_append] at hnames
        exact hnames.2.2 q.name (List.mem_map_of_mem hq) p.name (by simp)
          (honly q.name old hold holdLists)
      rw [if_pos htracks, if_neg hearlier]
      rfl
  . intro name q r hq hlists hnone
    rw [hmirrors, MirrorTracker.written?_relist_of_not_lists hemits hnames hnone
      ((MirrorTracker.mirrors?_ne_none_iff t r name).mpr ⟨q, hq, hlists⟩), Option.getD_some]

theorem pairwise_of_forall_items (ps : List MirrorPolicy)
    (h : ps.Pairwise fun p q => ∀ item ∈ p.sources, ¬ q.Lists item.source)
    : ps.Pairwise fun p q => ∀ r, p.Lists r → ¬ q.Lists r := by
  apply h.imp
  rintro p q h r ⟨item, hitem, rfl⟩
  exact h item hitem

theorem relist_converges_on_new_and_changed
    : ∃ d tree others before s t trace u t' ps,
        (∀ c ∈ others, c.Only fun change => ¬ change.IsAboutMirrors) ∧
        (start d tree others).Run before s ∧ s.tracking = .done t ∧
        s.Run trace u ∧ u.tracking = .done t' ∧ trace.events = MirrorTracker.relist ps ∧
        u.configuration.mirrors "a" = ["m2"] ∧ u.configuration.mirrors "b" = ["m2"] ∧
        u.configuration.mirrors "c" = s.configuration.mirrors "c" ∧
        u.configuration.mirrors "d" = [] := by
  let d : Destinations := .ofEnvironment fun _ => none
  let image : ImageSettings := ⟨⟨some "cluster", none, none⟩, ⟨["a"], [], []⟩⟩
  let others : List (Caller Unit) :=
    [List.forM [.apply image] (ImageSettings.handle Caller.sink)]
  let old : MirrorPolicy := ⟨⟨some "changed", none, none⟩, [⟨"a", ["m1"]⟩]⟩
  let changed : MirrorPolicy := ⟨⟨some "changed", none, none⟩, [⟨"a", ["m2"]⟩]⟩
  let new : MirrorPolicy := ⟨⟨some "new", none, none⟩, [⟨"b", ["m2"]⟩]⟩
  let kept : MirrorPolicy := ⟨⟨some "kept", none, none⟩, [⟨"c", ["m1"]⟩]⟩
  let gone : MirrorPolicy := ⟨⟨some "gone", none, none⟩, [⟨"d", ["m1"]⟩]⟩
  let events : List (Event MirrorPolicy) := [.apply old, .apply kept, .apply gone]
  let ps := [changed, new, kept]
  let t := MirrorTracker.empty.trackAll events
  have hothers : ∀ c ∈ others, c.Only fun change => ¬ change.IsAboutMirrors := by
    simpa [others] using ImageSettings.only_forM_handle [.apply image]
  obtain ⟨before, s, hbefore, hidle, -⟩ :=
    exists_run_of_emits (s := start d .empty others) rfl MirrorTracker.named_empty
      (MirrorTracker.emits_changesAll .empty .sorted events)
  obtain ⟨trace, u, hrun, hidle', -, hevents, -⟩ :=
    exists_run_of_emits hidle (MirrorTracker.named_empty.trackAll events)
      (MirrorTracker.emits_changesAll t .sorted (MirrorTracker.relist ps))
  have hnames : (ps.map (·.name)).Nodup := by decide
  have hsources := pairwise_of_forall_items ps (by decide)
  have htracked {r : String} {P : String → Prop}
      (h : ∀ q ∈ events.filterMap Event.applied?, q.Lists r → P q.name) (name : String)
      (q : MirrorPolicy) (hq : t.known[name]? = some q) (hr : q.Lists r) : P name := by
    rw [← MirrorTracker.named_empty.trackAll events name q hq]
    exact h q (MirrorTracker.mem_applied_of_trackAll events hq) hr
  obtain ⟨hreturned, hlost⟩ :=
    relist_converges hothers hbefore hidle hrun hidle' hevents hnames hsources
  have ha := (hreturned [] changed [new, kept] "a" rfl (by decide)
    (htracked (by decide))).1 (by decide +kernel)
  have hb := (hreturned [changed] new [kept] "b" rfl (by decide)
    (htracked (by decide))).1 (by decide +kernel)
  have hc := (hreturned [changed, new] kept [] "c" rfl (by decide)
    (htracked (by decide))).2 (by decide +kernel) (htracked (by decide))
  have hd := hlost "gone" gone "d" (by decide +kernel) (by decide) (by decide)
  exact ⟨d, .empty, others, before, s, t, trace, u, _, ps, hothers, hbefore, hidle, hrun, hidle',
    hevents, (Option.some.inj ha).symm, (Option.some.inj hb).symm, hc, hd⟩

/-! ### Sources that change hands -/

namespace Handover

def policy (name : String) (sources : List MirrorSource) : MirrorPolicy :=
  ⟨⟨some name, none, none⟩, sources⟩

/-- The last policy lists a source of another one, and is deleted. -/
def watched : List (Event MirrorPolicy) :=
  [.apply (policy "early" [⟨"a", ["m1"]⟩]), .apply (policy "late" [⟨"b", ["m1"]⟩]),
    .apply (policy "gone" [⟨"c", ["m1"]⟩]),
    .apply (policy "kept" [⟨"a", ["m1"]⟩, ⟨"d", ["m1"]⟩]),
    .apply (policy "other" [⟨"d", ["m2"]⟩]), .delete (policy "other" [⟨"d", ["m2"]⟩])]

/-- One policy is not returned, and two of them have lost their source. -/
def returned : List MirrorPolicy :=
  [policy "early" [], policy "kept" [⟨"a", ["m1"]⟩, ⟨"d", ["m1"]⟩],
    policy "moved" [⟨"b", ["m2"]⟩, ⟨"c", ["m2"]⟩], policy "late" []]

end Handover

/-- None of the sources that the relist returns ends with the mirrors that are returned for it. -/
theorem relist_loses_mirrors
    : ∃ d tree before s t trace u t', (start d tree []).Run before s ∧ s.tracking = .done t ∧
        s.Run trace u ∧ u.tracking = .done t' ∧ before.events = Handover.watched ∧
        trace.events = MirrorTracker.relist Handover.returned ∧
        (Handover.returned.map (·.name)).Nodup ∧
        (Handover.returned.Pairwise fun p q => ∀ r, p.Lists r → ¬ q.Lists r) ∧
        ∀ p ∈ Handover.returned, ∀ r, p.Lists r →
          p.mirrors? r ≠ some (u.configuration.mirrors r) := by
  let d : Destinations := .ofEnvironment fun _ => none
  let t := MirrorTracker.empty.trackAll Handover.watched
  obtain ⟨before, s, hbefore, hidle, -, hwatched, hchanges⟩ :=
    exists_run_of_emits (s := start d .empty []) rfl MirrorTracker.named_empty
      (MirrorTracker.emits_changesAll .empty .sorted Handover.watched)
  obtain ⟨trace, u, hrun, hidle', -, hevents, hchanges'⟩ :=
    exists_run_of_emits hidle (MirrorTracker.named_empty.trackAll Handover.watched)
      (MirrorTracker.emits_changesAll t .sorted (MirrorTracker.relist Handover.returned))
  have hsources := pairwise_of_forall_items Handover.returned (by decide)
  refine ⟨d, .empty, before, s, t, trace, u, _, hbefore, hidle, hrun, hidle', hwatched, hevents,
    by decide, hsources, ?_⟩
  rintro p hp r ⟨item, hitem, rfl⟩
  rw [(hbefore.trans hrun).configuration_eq_after, Configuration.mirrors_after,
    Trace.changes_append, hchanges, hchanges']
  have : ∀ p ∈ Handover.returned, ∀ item ∈ p.sources, p.mirrors? item.source ≠
      some (History.mirrors (MirrorTracker.empty.changesAll .sorted Handover.watched ++
        t.changesAll .sorted (MirrorTracker.relist Handover.returned)) item.source) := by
    decide +kernel
  exact this p hp item hitem

end Session
end RegistrySync.Cluster
