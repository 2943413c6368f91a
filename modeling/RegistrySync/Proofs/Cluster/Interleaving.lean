import RegistrySync.Proofs.Cluster.Mirroring
import RegistrySync.Proofs.Configuration.Alike

/-!
Three streams of events that drive one synchronizer do not interfere: each part of the configuration
is decided by one of them, however they interleave, but for the order of the entries.
-/

namespace RegistrySync

theorem History.mem_mentioned_append (h more : History) (r : String)
    : r ∈ mentioned (h ++ more) ↔ r ∈ h.mentioned ∨ r ∈ more.mentioned := by
  simp [mentioned]

namespace Cluster

/-! ### What a tracker says of registries -/

namespace MirrorPolicy

variable (p : MirrorPolicy) (r : String)

theorem mem_mentioned_settings : r ∈ History.mentioned p.settings ↔ p.Lists r := by
  simp [History.mentioned, settings, Lists, Change.mentions, eq_comm]

theorem not_mem_mentioned_clearings : r ∉ History.mentioned p.clearings := by
  simp [History.mentioned, clearings, Change.mentions, Change.accessLists?]

theorem isAboutMirrors_settings {change : Change} (h : change ∈ p.settings)
    : change.IsAboutMirrors := by
  obtain ⟨item, -, rfl⟩ := List.mem_map.mp h
  trivial

theorem isAboutMirrors_clearings {change : Change} (h : change ∈ p.clearings)
    : change.IsAboutMirrors := by
  obtain ⟨item, -, rfl⟩ := List.mem_map.mp h
  trivial

end MirrorPolicy

namespace MirrorTracker

variable (t : MirrorTracker) (p : MirrorPolicy) (names : List String) (r : String)

theorem not_mem_mentioned_clearingsOf : r ∉ History.mentioned (t.clearingsOf names) := by
  rw [History.mem_mentioned]
  rintro ⟨change, hchange, hr⟩
  obtain ⟨-, -, p, -, hchange⟩ := mem_clearingsOf.mp hchange
  exact p.not_mem_mentioned_clearings r ((History.mem_mentioned _ r).mpr ⟨change, hchange, hr⟩)

theorem isAboutMirrors_changes (order : Arrangement) (e : Event MirrorPolicy) {change : Change}
    (h : change ∈ t.changes order e) : change.IsAboutMirrors := by
  have hclearings {names : List String} (h : change ∈ t.clearingsOf names) :
      change.IsAboutMirrors := by
    obtain ⟨-, -, p, -, hchange⟩ := mem_clearingsOf.mp h
    exact p.isAboutMirrors_clearings hchange
  have happly {p : MirrorPolicy} (h : change ∈ t.changesOfApply p) : change.IsAboutMirrors := by
    by_cases htracks : t.Tracks p
    . rw [changesOfApply_of_tracks htracks] at h
      contradiction
    . rw [changesOfApply_of_not_tracks htracks] at h
      rcases List.mem_append.mp h with h | h
      . exact hclearings h
      . exact p.isAboutMirrors_settings h
  unfold changes at h
  cases e with
  | apply p => exact happly h
  | initApply p => exact happly h
  | delete p => exact p.isAboutMirrors_clearings h
  | init => contradiction
  | initDone =>
    cases hrelisted : t.relisted with
    | none => simp [hrelisted] at h
    | some relisted =>
      simp only [hrelisted] at h
      exact hclearings h

theorem mem_mentioned_changesOfApply
    : r ∈ History.mentioned (t.changesOfApply p) ↔ ¬ t.Tracks p ∧ p.Lists r := by
  by_cases htracks : t.Tracks p
  . simp [changesOfApply_of_tracks htracks, htracks, History.mentioned]
  . rw [changesOfApply_of_not_tracks htracks, History.mem_mentioned_append,
      p.mem_mentioned_settings]
    simp [not_mem_mentioned_clearingsOf, htracks]

theorem mem_mentioned_changes (order : Arrangement) (e : Event MirrorPolicy)
    : r ∈ History.mentioned (t.changes order e) ↔
        ∃ p, e.applied? = some p ∧ ¬ t.Tracks p ∧ p.Lists r := by
  cases e with
  | apply p => simpa [changes, Event.applied?] using t.mem_mentioned_changesOfApply p r
  | initApply p => simpa [changes, Event.applied?] using t.mem_mentioned_changesOfApply p r
  | delete p => simpa [changes, Event.applied?] using p.not_mem_mentioned_clearings r
  | init => simp [changes, Event.applied?, History.mentioned]
  | initDone =>
    unfold changes
    cases t.relisted with
    | none => simp [Event.applied?, History.mentioned]
    | some relisted =>
      simpa [Event.applied?] using t.not_mem_mentioned_clearingsOf _ r

variable {t} {events : List (Event MirrorPolicy)} {made : History}

theorem Emits.isAboutMirrors (h : t.Emits events made)
    : ∀ change ∈ made, change.IsAboutMirrors := by
  induction h with
  | nil => simp
  | next _ order e ih =>
    intro change hchange
    rcases List.mem_append.mp hchange with hchange | hchange
    . exact ih change hchange
    . exact isAboutMirrors_changes _ order e hchange

theorem Emits.mem_mentioned (h : empty.Emits events made)
    : r ∈ made.mentioned ↔ ∃ p ∈ events.filterMap Event.applied?, p.Lists r := by
  induction h with
  | nil => simp [History.mentioned]
  | @next events made _ order e ih =>
    rw [History.mem_mentioned_append, ih, mem_mentioned_changes, Sequence.filterMap_concat]
    constructor
    . rintro (⟨p, hp, hlists⟩ | ⟨p, hp, -, hlists⟩)
      . exact ⟨p, List.mem_append_left _ hp, hlists⟩
      . exact ⟨p, List.mem_append_right _ (by simp [hp]), hlists⟩
    . rintro ⟨p, hp, hlists⟩
      rcases List.mem_append.mp hp with hp | hp
      . exact .inl ⟨p, hp, hlists⟩
      . by_cases htracks : (empty.trackAll events).Tracks p
        -- The version that is tracked with these sources was applied before.
        . obtain ⟨q, hq, hsources⟩ := Option.map_eq_some_iff.mp htracks
          refine .inl ⟨q, mem_applied_of_trackAll events hq, ?_⟩
          exact (MirrorPolicy.lists_congr hsources r).mpr hlists
        . exact .inr ⟨p, Option.mem_toList.mp hp, htracks, hlists⟩

end MirrorTracker

namespace Session

def ofStreams (d : Destinations) (tree : FileTree) (images : List (Event ImageSettings))
    (maps : List (Event ConfigMap)) : Session :=
  start d tree
    [images.forM (ImageSettings.handle Caller.sink), maps.forM (ConfigMap.handle Caller.sink)]

def Finished (s : Session) : Prop :=
  (∃ t, s.tracking = .done t) ∧ ∀ c ∈ s.others, c = .done ()

/-- Who makes such a change. -/
def maker : Change → Source
  | .setMirrors _ _ | .clearMirrors _ | .clearAllMirrors => .tracker
  | .setRegistryPolicy _ _ _ => .other 0
  | .replaceCertificates _ => .other 1

theorem maker_of_isAboutMirrors {change : Change} (h : change.IsAboutMirrors)
    : maker change = .tracker := by
  cases change <;> first | rfl | contradiction

variable {d : Destinations} {tree : FileTree} {images : List (Event ImageSettings)}
  {maps : List (Event ConfigMap)}

/-! ### Every stream can be handled to its end -/

theorem exists_run_of_streams {s : Session} (hothers : s.others =
      [images.forM (ImageSettings.handle Caller.sink), maps.forM (ConfigMap.handle Caller.sink)])
    : ∃ trace u, s.Run trace u ∧ u.tracking = s.tracking ∧ u.others = [.done (), .done ()] ∧
        trace.events = [] ∧
        trace.changes =
          changesOn ImageSettings.change? images ++ changesOn ConfigMap.change? maps := by
  obtain ⟨trace, u, hrun, htracking, hu, hevents, hchanges⟩ :=
    exists_run_of_other (s := s) (i := 0) (by rw [hothers]; rfl)
      (ImageSettings.makes_forM_handle images)
  obtain ⟨more, v, hmore, htracking', hv, hevents', hchanges'⟩ :=
    exists_run_of_other (s := u) (i := 1) (by rw [hu, hothers]; rfl)
      (ConfigMap.makes_forM_handle maps)
  refine ⟨trace ++ more, v, hrun.trans hmore, by rw [htracking', htracking], ?_, ?_, ?_⟩
  . rw [hv, hu, hothers]
    rfl
  . rw [Trace.events_append, hevents, hevents']
    rfl
  . rw [Trace.changes_append, hchanges, hchanges']

theorem exists_finished_run (d : Destinations) (tree : FileTree)
    (policies : List (Event MirrorPolicy)) (images : List (Event ImageSettings))
    (maps : List (Event ConfigMap))
    : ∃ trace s, (ofStreams d tree images maps).Run trace s ∧ s.Finished ∧
        trace.events = policies := by
  obtain ⟨trace, u, hrun, hidle, hothers, hevents, -⟩ :=
    exists_run_of_emits (s := ofStreams d tree images maps) rfl MirrorTracker.named_empty
      (MirrorTracker.emits_changesAll .empty .sorted policies)
  obtain ⟨more, s, hmore, htracking, hdone, hevents', -⟩ := exists_run_of_streams hothers
  refine ⟨trace ++ more, s, hrun.trans hmore, ⟨⟨_, htracking.trans hidle⟩, by simp [hdone]⟩, ?_⟩
  rw [Trace.events_append, hevents, hevents', List.append_nil]

/-! ### Who decides what -/

variable {trace : Trace} {s : Session} (hrun : (ofStreams d tree images maps).Run trace s)
  (hfinished : s.Finished)
include hrun hfinished

theorem emits_of_finished : MirrorTracker.empty.Emits trace.events (trace.changesOf .tracker) := by
  obtain ⟨⟨t, hidle⟩, -⟩ := hfinished
  exact (hrun.emits_of_idle rfl MirrorTracker.named_empty hidle).2

theorem changesOf_images : trace.changesOf (.other 0) = changesOn ImageSettings.change? images :=
  hrun.changesOf_other rfl (ImageSettings.makes_forM_handle images) hfinished.2

theorem changesOf_maps : trace.changesOf (.other 1) = changesOn ConfigMap.change? maps :=
  hrun.changesOf_other rfl (ConfigMap.makes_forM_handle maps) hfinished.2

theorem maker_of_mem_changesOf {source : Source} {made : Change}
    (hmade : made ∈ trace.changesOf source) : maker made = source := by
  match source with
  | .tracker =>
    exact maker_of_isAboutMirrors ((emits_of_finished hrun hfinished).isAboutMirrors made hmade)
  | .other 0 =>
    rw [changesOf_images hrun hfinished] at hmade
    obtain ⟨allowed, blocked, insecure, rfl⟩ := ImageSettings.exists_of_mem_changesOn hmade
    rfl
  | .other 1 =>
    rw [changesOf_maps hrun hfinished] at hmade
    obtain ⟨certificates, rfl⟩ := ConfigMap.exists_of_mem_changesOn hmade
    rfl
  | .other (i + 2) =>
    rw [(hrun.none_of_other (i := i + 2) rfl).2] at hmade
    contradiction

theorem filterMap_changes_of_maker {β : Type} {f : Change → Option β} {source : Source}
    (hf : ∀ made, maker made ≠ source → f made = none)
    : trace.changes.filterMap f = (trace.changesOf source).filterMap f := by
  apply Trace.filterMap_changes
  intro other hother made hmade
  apply hf
  rw [maker_of_mem_changesOf hrun hfinished hmade]
  exact hother

theorem accessLists_changes
    : trace.changes.accessLists = ⟨(ImageSettings.inForce images).allowed,
        (ImageSettings.inForce images).blocked, (ImageSettings.inForce images).insecure⟩ := by
  have hf (made : Change) (h : maker made ≠ .other 0) : made.accessLists? = none := by
    cases made <;> first | rfl | contradiction
  rw [History.accessLists, filterMap_changes_of_maker hrun hfinished hf,
    changesOf_images hrun hfinished]
  exact ImageSettings.accessLists_changesOn images

theorem certificates_changes : trace.changes.certificates = ConfigMap.inForce maps := by
  have hf (made : Change) (h : maker made ≠ .other 1) : made.certificates? = none := by
    cases made <;> first | rfl | contradiction
  rw [History.certificates, filterMap_changes_of_maker hrun hfinished hf,
    changesOf_maps hrun hfinished]
  exact ConfigMap.certificates_changesOn maps

theorem mirrors_changes (r : String)
    : trace.changes.mirrors r =
        History.mirrors (MirrorTracker.empty.changesAll .sorted trace.events) r := by
  have hf (made : Change) (h : maker made ≠ .tracker) : made.mirrors? r = none := by
    cases made <;> first | rfl | contradiction
  rw [History.mirrors_eq_getD_written?, History.written?,
    filterMap_changes_of_maker hrun hfinished hf, ← History.written?,
    (emits_of_finished hrun hfinished).written?_eq, ← History.mirrors_eq_getD_written?]

theorem mem_mentioned_changes (r : String)
    : r ∈ trace.changes.mentioned ↔
        (∃ p ∈ trace.events.filterMap Event.applied?, p.Lists r) ∨
        (∃ i ∈ images.filterMap Event.applied?, i.IsAccepted ∧
          r ∈ i.sources.allowed ++ i.sources.blocked ++ i.sources.insecure) := by
  have hsources : r ∈ trace.changes.mentioned ↔ r ∈ (trace.changesOf .tracker).mentioned ∨
      r ∈ (trace.changesOf (.other 0)).mentioned := by
    simp only [History.mem_mentioned, Trace.mem_changes]
    constructor
    . rintro ⟨made, ⟨source, hmade⟩, hr⟩
      obtain rfl := maker_of_mem_changesOf hrun hfinished hmade
      cases made with
      | setRegistryPolicy _ _ _ => exact .inr ⟨_, hmade, hr⟩
      | replaceCertificates _ => contradiction
      | _ => exact .inl ⟨_, hmade, hr⟩
    . rintro (⟨made, hmade, hr⟩ | ⟨made, hmade, hr⟩)
      . exact ⟨made, ⟨_, hmade⟩, hr⟩
      . exact ⟨made, ⟨_, hmade⟩, hr⟩
  rw [hsources, (emits_of_finished hrun hfinished).mem_mentioned, changesOf_images hrun hfinished,
    ImageSettings.mem_mentioned_changesOn]

/-- What each stream of events makes of a configuration. -/
structure Follows (c : Configuration) (policies : List (Event MirrorPolicy))
    (images : List (Event ImageSettings)) (maps : List (Event ConfigMap)) : Prop where
  policy : c.policy = .rejecting (ImageSettings.inForce images).blocked
  allowed : ∀ r, (c.registries.find? r).bind (·.allowed) =
    if r ∈ (ImageSettings.inForce images).allowed then some true else none
  blocked : ∀ r, (c.registries.find? r).bind (·.blocked) =
    if r ∈ (ImageSettings.inForce images).blocked then some true else none
  insecure : ∀ r, (c.registries.find? r).bind (·.insecure) =
    if r ∈ (ImageSettings.inForce images).insecure then some true else none
  certificates : c.certificates = ConfigMap.inForce maps
  mirrors : ∀ r, c.mirrors r =
    History.mirrors (MirrorTracker.empty.changesAll .sorted policies) r
  known : ∀ r, (c.registries.find? r).isSome ↔
    (∃ p ∈ policies.filterMap Event.applied?, p.Lists r) ∨
    (∃ i ∈ images.filterMap Event.applied?, i.IsAccepted ∧
      r ∈ i.sources.allowed ++ i.sources.blocked ++ i.sources.insecure)

theorem follows_of_finished : Follows s.configuration trace.events images maps := by
  have hreads := Configuration.reads_after trace.changes
  have hlists := accessLists_changes hrun hfinished
  have hflag (flag : Registry.Entry → Option Bool) (hfresh : ∀ r, flag (.fresh r) = none)
      (r : String) : ((Configuration.after trace.changes).registries.find? r).bind flag =
        flag (trace.changes.entry r) := by
    rw [← hreads.getD_find?]
    cases (Configuration.after trace.changes).registries.find? r with
    | none => exact (hfresh r).symm
    | some e => rfl
  rw [hrun.configuration_eq_after]
  constructor
  case policy => rw [hreads.policy, hlists]
  case allowed => intro r; rw [hflag _ fun _ => rfl, History.entry, hlists]
  case blocked => intro r; rw [hflag _ fun _ => rfl, History.entry, hlists]
  case insecure => intro r; rw [hflag _ fun _ => rfl, History.entry, hlists]
  case certificates => rw [hreads.certificates, certificates_changes hrun hfinished]
  case mirrors => intro r; rw [hreads.mirrors_eq, mirrors_changes hrun hfinished]
  case known => intro r; rw [hreads.find?_isSome_iff, mem_mentioned_changes hrun hfinished]

/-- Two sessions with the same streams end alike, whatever the order in which changes are made and
vanished policies are dropped. Events other than those that apply an object make no change. -/
theorem interleavings_agree {trace' : Trace} {s' : Session}
    (hrun' : (ofStreams d tree images maps).Run trace' s') (hfinished' : s'.Finished)
    (hevents : trace.events = trace'.events)
    : s.configuration.Alike s'.configuration ∧
      Follows s.configuration trace.events images maps ∧
      (∀ e : Event ImageSettings, e.applied? = none →
        ImageSettings.handle Caller.sink e = .done ()) ∧
      (∀ e : Event ConfigMap, e.applied? = none → ConfigMap.handle Caller.sink e = .done ()) := by
  refine ⟨?_, follows_of_finished hrun hfinished, ?_, ?_⟩
  . rw [hrun.configuration_eq_after, hrun'.configuration_eq_after]
    apply Configuration.alike_after
    . rw [accessLists_changes hrun hfinished, accessLists_changes hrun' hfinished']
    . rw [certificates_changes hrun hfinished, certificates_changes hrun' hfinished']
    . intro r
      rw [mirrors_changes hrun hfinished, mirrors_changes hrun' hfinished', hevents]
    . intro r
      rw [mem_mentioned_changes hrun hfinished, mem_mentioned_changes hrun' hfinished', hevents]
  . intro e he
    unfold ImageSettings.handle
    rw [he]
    rfl
  . intro e he
    unfold ConfigMap.handle
    rw [he]
    rfl

omit hrun hfinished in
/-- The entries of two sessions come in different orders, and one image event is refused. -/
theorem interleavings_agree_out_of_order
    : ∃ d tree images maps trace s trace' s', (ofStreams d tree images maps).Run trace s ∧
        s.Finished ∧ (ofStreams d tree images maps).Run trace' s' ∧ s'.Finished ∧
        trace.events = trace'.events ∧ s.configuration.registries.locations = ["a", "b"] ∧
        s'.configuration.registries.locations = ["b", "a"] ∧
        s.configuration.Alike s'.configuration := by
  let d : Destinations := .ofEnvironment fun _ => none
  let policies : List (Event MirrorPolicy) :=
    [.apply ⟨⟨some "p", none, none⟩, [⟨"a", ["m"]⟩]⟩]
  let images : List (Event ImageSettings) :=
    [.apply ⟨⟨some "cluster", none, none⟩, ⟨[], ["b"], ["a"]⟩⟩,
      .apply ⟨⟨some "cluster", none, none⟩, ⟨["c"], ["d"], []⟩⟩]
  let maps : List (Event ConfigMap) :=
    [.apply ⟨⟨some ConfigMap.certificatesName, none, none⟩, none⟩]
  let first := ofStreams d .empty images maps
  have hemits := MirrorTracker.emits_changesAll .empty .sorted policies
  obtain ⟨trace₁, u, hrun₁, hidle₁, hothers₁, hevents₁, hchanges₁⟩ :=
    exists_run_of_emits (s := first) rfl MirrorTracker.named_empty hemits
  obtain ⟨trace₂, s, hrun₂, htracking₂, hdone₂, hevents₂, hchanges₂⟩ :=
    exists_run_of_streams hothers₁
  obtain ⟨trace₃, v, hrun₃, htracking₃, hdone₃, hevents₃, hchanges₃⟩ :=
    exists_run_of_streams (s := first) rfl
  obtain ⟨trace₄, s', hrun₄, hidle₄, hothers₄, hevents₄, hchanges₄⟩ :=
    exists_run_of_emits (s := v) htracking₃ MirrorTracker.named_empty hemits
  have hfinished : s.Finished := ⟨⟨_, htracking₂.trans hidle₁⟩, by simp [hdone₂]⟩
  have hfinished' : s'.Finished := ⟨⟨_, hidle₄⟩, by simp [hothers₄, hdone₃]⟩
  have hevents : Trace.events (trace₁ ++ trace₂) = Trace.events (trace₃ ++ trace₄) := by
    rw [Trace.events_append, Trace.events_append, hevents₁, hevents₂, hevents₃, hevents₄,
      List.append_nil, List.nil_append]
  have hrun := hrun₁.trans hrun₂
  have hrun' := hrun₃.trans hrun₄
  refine ⟨d, .empty, images, maps, _, s, _, s', hrun, hfinished, hrun', hfinished', hevents, ?_, ?_,
    (interleavings_agree hrun hfinished hrun' hfinished' hevents).1⟩
  . rw [hrun.configuration_eq_after, Trace.changes_append, hchanges₁, hchanges₂]
    decide +kernel
  . rw [hrun'.configuration_eq_after, Trace.changes_append, hchanges₃, hchanges₄]
    decide +kernel

end Session
end Cluster
end RegistrySync
