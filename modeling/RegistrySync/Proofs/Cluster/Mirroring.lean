import RegistrySync.Proofs.Cluster.Session
import RegistrySync.Proofs.Cluster.Streams

/-!
The mirrors of a registry follow the tracked policies as long as no two of them list it.
-/

namespace RegistrySync.Cluster

namespace MirrorTracker

/-- What the policy that is tracked under a name asks for. -/
def mirrors? (t : MirrorTracker) (name r : String) : Option (List String) :=
  t.known[name]?.bind (·.mirrors? r)

/-- A policy is tracked under its name, and with its sources. -/
def Tracks (t : MirrorTracker) (p : MirrorPolicy) : Prop :=
  t.known[p.name]?.map (·.sources) = some p.sources

instance (t : MirrorTracker) (p : MirrorPolicy) : Decidable (t.Tracks p) :=
  inferInstanceAs (Decidable (_ = _))

/-- No policy of another name lists the source. -/
def Alone (t : MirrorTracker) (name r : String) : Prop :=
  ∀ other, other ≠ name → t.mirrors? other r = none

variable (t : MirrorTracker) (r : String)

theorem mirrors?_ne_none_iff (name : String)
    : t.mirrors? name r ≠ none ↔ ∃ p, t.known[name]? = some p ∧ p.Lists r := by
  unfold mirrors?
  cases t.known[name]? with
  | none => simp
  | some p => simp [p.mirrors?_ne_none_iff, -ne_eq]

/-! ### What is asked for after an event -/

theorem mirrors?_insert (p : MirrorPolicy) (relisted : Option (List String)) (name : String)
    : mirrors? ⟨t.known.insert p.name p, relisted⟩ name r =
        if name = p.name then p.mirrors? r else t.mirrors? name r := by
  unfold mirrors?
  rw [Std.ExtTreeMap.getElem?_insert]
  by_cases hname : name = p.name
  . simp [hname]
  . simp [hname, Ne.symm hname]

theorem mirrors?_erase (other name : String)
    : mirrors? { t with known := t.known.erase other } name r =
        if name = other then none else t.mirrors? name r := by
  unfold mirrors?
  rw [Std.ExtTreeMap.getElem?_erase]
  by_cases hname : name = other
  . simp [hname]
  . simp [hname, Ne.symm hname]

theorem mirrors?_track_initDone {relisted : List String} (hrelisted : t.relisted = some relisted)
    (name : String)
    : (t.track .initDone).mirrors? name r =
        if name ∈ relisted then t.mirrors? name r else none := by
  unfold mirrors?
  rw [getElem?_track_initDone hrelisted]
  split <;> rfl

variable {t} in
theorem Tracks.mirrors?_eq {p : MirrorPolicy} (h : t.Tracks p)
    : t.mirrors? p.name r = p.mirrors? r := by
  obtain ⟨q, hq, hsources⟩ := Option.map_eq_some_iff.mp h
  rw [mirrors?, hq, Option.bind_some, MirrorPolicy.mirrors?_congr hsources]

/-! ### What is written on an event -/

theorem written?_clearingsOf (names : List String)
    : History.written? (t.clearingsOf names) r =
        if ∃ name ∈ names, t.mirrors? name r ≠ none then some [] else none := by
  induction names with
  | nil => rfl
  | cons name names ih =>
    have hname : History.written? ((t.known[name]?.map (·.clearings)).getD []) r =
        (t.mirrors? name r).map fun _ => [] := by
      unfold mirrors?
      cases t.known[name]? with
      | none => rfl
      | some p => exact p.written?_clearings r
    rw [clearingsOf, List.flatMap_cons, ← clearingsOf, History.written?_append, ih, hname]
    cases hasked : t.mirrors? name r with
    | none => simp [hasked]
    | some asked =>
      simp only [hasked, Option.map_some, List.mem_cons, exists_eq_or_imp]
      split <;> rfl

theorem changesOfApply_of_tracks {t : MirrorTracker} {p : MirrorPolicy} (h : t.Tracks p)
    : t.changesOfApply p = [] := by
  obtain ⟨q, hq, hsources⟩ := Option.map_eq_some_iff.mp h
  simp [changesOfApply, hq, hsources]

theorem changesOfApply_of_not_tracks {t : MirrorTracker} {p : MirrorPolicy} (h : ¬ t.Tracks p)
    : t.changesOfApply p = t.clearingsOf [p.name] ++ p.settings := by
  unfold changesOfApply clearingsOf
  cases hq : t.known[p.name]? with
  | none => simp [hq]
  | some q =>
    have hsources : q.sources ≠ p.sources := by
      intro hsources
      apply h
      rw [Tracks, hq, Option.map_some, hsources]
    simp [hq, hsources]

theorem written?_changesOfApply (p : MirrorPolicy)
    : History.written? (t.changesOfApply p) r =
        if t.Tracks p then none
        else (p.mirrors? r).or ((t.mirrors? p.name r).map fun _ => []) := by
  split
  . next htracks =>
    rw [changesOfApply_of_tracks htracks]
    rfl
  . next hchanged =>
    rw [changesOfApply_of_not_tracks hchanged, History.written?_append,
      MirrorPolicy.written?_settings, written?_clearingsOf]
    cases hasked : t.mirrors? p.name r <;> simp [hasked]

/-- The order in which vanished policies are dropped does not matter. -/
theorem written?_changes_sorted (order : Arrangement) (e : Event MirrorPolicy)
    : History.written? (t.changes order e) r = History.written? (t.changes .sorted e) r := by
  cases e with
  | initDone =>
    unfold changes
    cases t.relisted with
    | none => rfl
    | some relisted =>
      have hiff (names : List String) :
          (∃ name ∈ order.arrange names, t.mirrors? name r ≠ none) ↔
            ∃ name ∈ names, t.mirrors? name r ≠ none := by
        simp only [(order.perm names).mem_iff]
      simp only [written?_clearingsOf]
      exact if_congr (hiff _) rfl rfl
  | _ => rfl

theorem Emits.written?_eq {t : MirrorTracker} {events : List (Event MirrorPolicy)} {made : History}
    (h : t.Emits events made) (r : String)
    : made.written? r = History.written? (t.changesAll .sorted events) r := by
  induction h with
  | nil => rfl
  | next _ order e ih =>
    rw [changesAll_concat, History.written?_append, History.written?_append, ih,
      written?_changes_sorted]

/-! ### One event -/

/-- The mirrors of a registry are what a tracked policy asks for. -/
structure Governs (t : MirrorTracker) (r : String) (mirrors : List String) : Prop where
  eq_of_mirrors? : ∀ name asked, t.mirrors? name r = some asked → asked = mirrors
  eq_nil : (∀ name, t.mirrors? name r = none) → mirrors = []

variable {t u : MirrorTracker} {r : String} {mirrors : List String}

theorem governs_of_eq_none (hnone : ∀ name, u.mirrors? name r = none) : u.Governs r [] where
  eq_of_mirrors? := by
    intro name asked hasked
    rw [hnone name] at hasked
    contradiction
  eq_nil _ := rfl

theorem Governs.of_eq (h : t.Governs r mirrors)
    (heq : ∀ name, u.mirrors? name r = t.mirrors? name r) : u.Governs r mirrors where
  eq_of_mirrors? := by simpa only [heq] using h.eq_of_mirrors?
  eq_nil := by simpa only [heq] using h.eq_nil

theorem Governs.apply (h : t.Governs r mirrors) (p : MirrorPolicy) (relisted : Option (List String))
    (hold : t.mirrors? p.name r ≠ none → t.Alone p.name r)
    (hnew : p.mirrors? r ≠ none → t.Alone p.name r)
    : Governs ⟨t.known.insert p.name p, relisted⟩ r
        ((History.written? (t.changesOfApply p) r).getD mirrors) := by
  rw [written?_changesOfApply]
  split
  . next htracks =>
    apply h.of_eq
    intro name
    rw [mirrors?_insert]
    split
    . next hname => rw [hname, htracks.mirrors?_eq]
    . rfl
  . cases hp : p.mirrors? r with
    | some asked =>
      constructor
      case eq_of_mirrors? =>
        intro name asked' hasked
        rw [mirrors?_insert] at hasked
        split at hasked
        . rw [hp] at hasked
          injection hasked with hasked
          exact hasked.symm
        . next hname =>
          rw [hnew (by simp [hp]) name hname] at hasked
          contradiction
      case eq_nil =>
        intro hnone
        have hname := hnone p.name
        rw [mirrors?_insert, if_pos rfl, hp] at hname
        contradiction
    | none =>
      -- The old version may have listed the source, and is then the only one that did.
      cases hasked : t.mirrors? p.name r with
      | some asked =>
        apply governs_of_eq_none
        intro name
        rw [mirrors?_insert]
        split
        . exact hp
        . next hname => exact hold (by simp [hasked]) name hname
      | none =>
        apply h.of_eq
        intro name
        rw [mirrors?_insert]
        split
        . next hname => rw [hname, hp, hasked]
        . rfl

theorem Governs.delete (h : t.Governs r mirrors) (p : MirrorPolicy)
    (hsame : t.mirrors? p.name r ≠ none → p.mirrors? r ≠ none)
    (halone : p.mirrors? r ≠ none → t.Alone p.name r)
    : (t.track (.delete p)).Governs r ((History.written? p.clearings r).getD mirrors) := by
  rw [MirrorPolicy.written?_clearings]
  cases hp : p.mirrors? r with
  | some asked =>
    apply governs_of_eq_none
    intro name
    rw [track, mirrors?_erase]
    split
    . rfl
    . next hname => exact halone (by simp [hp]) name hname
  | none =>
    apply h.of_eq
    intro name
    rw [track, mirrors?_erase]
    split
    . next hname =>
      rw [hname]
      by_contra hne
      exact hsame (Ne.symm hne) hp
    . rfl

theorem Governs.finish (h : t.Governs r mirrors) (order : Arrangement)
    (halone : ∀ name, t.mirrors? name r ≠ none → t.Alone name r)
    : (t.track .initDone).Governs r
        ((History.written? (t.changes order .initDone) r).getD mirrors) := by
  unfold changes
  cases hrelisted : t.relisted with
  | none =>
    rw [track, hrelisted]
    exact h
  | some relisted =>
    simp only [written?_clearingsOf]
    split
    . next hvanished =>
      obtain ⟨gone, hgone, hasked⟩ := hvanished
      rw [(order.perm _).mem_iff, mem_vanished] at hgone
      apply governs_of_eq_none
      intro name
      rw [mirrors?_track_initDone _ _ hrelisted]
      split
      . next hname =>
        apply halone gone hasked
        rintro rfl
        exact hgone.2 hname
      . rfl
    . next hnone =>
      apply h.of_eq
      intro name
      rw [mirrors?_track_initDone _ _ hrelisted]
      split
      . rfl
      . next hname =>
        by_contra hne
        refine hnone ⟨name, ?_, Ne.symm hne⟩
        rw [(order.perm _).mem_iff, mem_vanished]
        refine ⟨?_, hname⟩
        intro hunknown
        rw [mirrors?, hunknown] at hne
        exact hne rfl

theorem Governs.track (h : t.Governs r mirrors) (order : Arrangement) (e : Event MirrorPolicy)
    (htracked : ∀ name, t.mirrors? name r ≠ none → t.Alone name r)
    (hobject : ∀ p, e.object? = some p → p.mirrors? r ≠ none → t.Alone p.name r)
    (hdeleted : ∀ p, e = .delete p → t.mirrors? p.name r ≠ none → p.mirrors? r ≠ none)
    : (t.track e).Governs r ((History.written? (t.changes order e) r).getD mirrors) := by
  cases e with
  | apply p => exact h.apply p _ (htracked p.name) (hobject p rfl)
  | initApply p => exact h.apply p _ (htracked p.name) (hobject p rfl)
  | delete p => exact h.delete p (hdeleted p rfl) (hobject p rfl)
  | init => exact h.of_eq fun _ => rfl
  | initDone => exact h.finish order htracked

/-! ### A stream of events -/

/-- No source is listed by policies of two names. -/
def Unshared (events : List (Event MirrorPolicy)) : Prop :=
  ∀ p ∈ events.filterMap Event.object?, ∀ q ∈ events.filterMap Event.object?, ∀ r,
    p.Lists r → q.Lists r → p.name = q.name

/-- A policy that is tracked is deleted with the sources that it is tracked with. -/
def DeletedAsTracked (events : List (Event MirrorPolicy)) : Prop :=
  ∀ before p after q, events = before ++ .delete p :: after →
    (empty.trackAll before).known[p.name]? = some q → ∀ r, p.Lists r ↔ q.Lists r

variable {events more : List (Event MirrorPolicy)}

theorem Unshared.of_append (h : Unshared (events ++ more)) : Unshared events := by
  intro p hp q hq
  rw [Unshared, List.filterMap_append] at h
  exact h p (List.mem_append_left _ hp) q (List.mem_append_left _ hq)

theorem DeletedAsTracked.of_append (h : DeletedAsTracked (events ++ more))
    : DeletedAsTracked events := by
  rintro before p after q rfl
  exact h before p (after ++ more) q (by simp)

theorem Unshared.alone (h : Unshared (events ++ more)) {p : MirrorPolicy}
    (hp : p ∈ (events ++ more).filterMap Event.object?) (hlists : p.Lists r)
    : (empty.trackAll events).Alone p.name r := by
  intro name hname
  by_contra hasked
  obtain ⟨q, hq, hlists'⟩ := (mirrors?_ne_none_iff _ r name).mp hasked
  have hmem : q ∈ (events ++ more).filterMap Event.object? := by
    rw [List.filterMap_append]
    exact List.mem_append_left _ (mem_objects_of_trackAll events hq)
  apply hname
  rw [← named_empty.trackAll events name q hq]
  exact h q hmem p hp r hlists' hlists

theorem governs_of_emits {made : History} (h : empty.Emits events made)
    (hunshared : Unshared events) (hdeleted : DeletedAsTracked events) (r : String)
    : (empty.trackAll events).Governs r (made.mirrors r) := by
  induction h with
  | nil => exact governs_of_eq_none fun _ => rfl
  | @next events made _ order e ih =>
    rw [trackAll_concat, History.mirrors_append]
    apply (ih hunshared.of_append hdeleted.of_append).track order e
    case htracked =>
      intro name hasked
      obtain ⟨p, hp, hlists⟩ := (mirrors?_ne_none_iff _ r name).mp hasked
      rw [← named_empty.trackAll events name p hp]
      apply hunshared.alone _ hlists
      rw [List.filterMap_append]
      exact List.mem_append_left _ (mem_objects_of_trackAll events hp)
    case hobject =>
      intro p hobject hasked
      apply hunshared.alone _ ((p.mirrors?_ne_none_iff r).mp hasked)
      simp [hobject]
    case hdeleted =>
      rintro p rfl hasked
      obtain ⟨q, hq, hlists⟩ := (mirrors?_ne_none_iff _ r p.name).mp hasked
      rw [p.mirrors?_ne_none_iff, hdeleted events p [] q rfl hq]
      exact hlists

end MirrorTracker

namespace Session

theorem mirrors_follow_policies {d : Destinations} {tree : FileTree} {others : List (Caller Unit)}
    {trace : Trace} {s : Session} {t : MirrorTracker}
    (hothers : ∀ c ∈ others, c.Only fun change => ¬ change.IsAboutMirrors)
    (hrun : (start d tree others).Run trace s) (hidle : s.tracking = .done t)
    (hunshared : MirrorTracker.Unshared trace.events)
    (hdeleted : MirrorTracker.DeletedAsTracked trace.events) (r : String)
    : (∀ (name : String) (p : MirrorPolicy), t.known[name]? = some p → p.Lists r →
        p.mirrors? r = some (s.configuration.mirrors r)) ∧
      ((∀ (name : String) (p : MirrorPolicy), t.known[name]? = some p → ¬ p.Lists r) →
        s.configuration.mirrors r = []) := by
  obtain ⟨rfl, hemits⟩ := hrun.emits_of_idle rfl MirrorTracker.named_empty hidle
  have hmirrors : s.configuration.mirrors r = (trace.changesOf .tracker).mirrors r := by
    rw [(Run.refl _).mirrors_eq_getD_written? hothers hrun, History.mirrors_eq_getD_written?]
    rfl
  have hgoverns := MirrorTracker.governs_of_emits hemits hunshared hdeleted r
  rw [hmirrors]
  constructor
  . intro name p hp hlists
    obtain ⟨asked, hasked⟩ := Option.ne_none_iff_exists'.mp ((p.mirrors?_ne_none_iff r).mpr hlists)
    have hasked' : (MirrorTracker.empty.trackAll trace.events).mirrors? name r = some asked := by
      rwa [MirrorTracker.mirrors?, hp]
    rw [hasked, hgoverns.eq_of_mirrors? name asked hasked']
  . intro hnone
    apply hgoverns.eq_nil
    intro name
    by_contra hasked
    obtain ⟨p, hp, hlists⟩ := (MirrorTracker.mirrors?_ne_none_iff _ r name).mp hasked
    exact hnone name p hp hlists

/-- One policy vanishes, one is deleted, and one lists a source twice. -/
theorem mirrors_follow_policies_over_relist
    : ∃ d tree others trace s t, (∀ c ∈ others, c.Only fun change => ¬ change.IsAboutMirrors) ∧
        (start d tree others).Run trace s ∧ s.tracking = .done t ∧
        MirrorTracker.Unshared trace.events ∧ MirrorTracker.DeletedAsTracked trace.events ∧
        s.configuration.mirrors "a" = [] ∧ s.configuration.mirrors "b" = ["m3"] := by
  let d : Destinations := .ofEnvironment fun _ => none
  let image : ImageSettings := ⟨⟨some "cluster", none, none⟩, ⟨["a"], [], []⟩⟩
  let others : List (Caller Unit) :=
    [List.forM [.apply image] (ImageSettings.handle Caller.sink)]
  let gone : MirrorPolicy := ⟨⟨some "gone", none, none⟩, [⟨"a", ["m1"]⟩]⟩
  let kept : MirrorPolicy := ⟨⟨some "kept", none, none⟩, [⟨"b", ["m2"]⟩, ⟨"b", ["m3"]⟩]⟩
  let dropped (mirrors : List String) : MirrorPolicy :=
    ⟨⟨some "dropped", none, none⟩, [⟨"c", mirrors⟩]⟩
  let events : List (Event MirrorPolicy) := [.apply gone, .apply (dropped ["m1"]),
    .delete (dropped ["m2"]), .init, .initApply kept, .initDone]
  have hothers : ∀ c ∈ others, c.Only fun change => ¬ change.IsAboutMirrors := by
    simpa [others] using ImageSettings.only_forM_handle [.apply image]
  have hunshared : MirrorTracker.Unshared events := by
    have : ∀ p ∈ events.filterMap Event.object?, ∀ q ∈ events.filterMap Event.object?,
        ∀ item ∈ p.sources, ∀ other ∈ q.sources, item.source = other.source → p.name = q.name := by
      decide
    rintro p hp q hq r ⟨item, hitem, rfl⟩ ⟨other, hother, hsource⟩
    exact this p hp q hq item hitem other hother hsource.symm
  have hdeleted : MirrorTracker.DeletedAsTracked events := by
    intro before p after q heq hq
    obtain ⟨rfl, rfl, rfl⟩ : before = [.apply gone, .apply (dropped ["m1"])] ∧
        p = dropped ["m2"] ∧ after = [.init, .initApply kept, .initDone] := by
      simpa [events, List.cons_eq_append_iff] using heq
    have hdropped : (MirrorTracker.empty.trackAll [.apply gone, .apply (dropped ["m1"])]).known[
        (dropped ["m2"]).name]? = some (dropped ["m1"]) := by decide +kernel
    rw [hdropped] at hq
    injection hq with hq
    subst hq
    simp [MirrorPolicy.Lists, dropped]
  have htracked : MirrorTracker.empty.trackAll events =
      ⟨(∅ : Std.ExtTreeMap String MirrorPolicy).insert "kept" kept, none⟩ := by decide +kernel
  obtain ⟨trace, s, hrun, hidle, -, htrace, -⟩ :=
    exists_run_of_emits (s := start d .empty others) rfl MirrorTracker.named_empty
      (MirrorTracker.emits_changesAll .empty .sorted events)
  rw [← htrace] at hunshared hdeleted
  rw [htracked] at hidle
  have hmirrors := mirrors_follow_policies hothers hrun hidle hunshared hdeleted
  refine ⟨d, .empty, others, trace, s, _, hothers, hrun, hidle, hunshared, hdeleted, ?_, ?_⟩
  . apply (hmirrors "a").2
    intro name p hp
    simp only [Std.ExtTreeMap.getElem?_insert] at hp
    split at hp
    . injection hp with hp
      subst hp
      decide
    . simp at hp
  . have hkept := (hmirrors "b").1 "kept" kept (by simp) (by decide)
    injection hkept with hkept
    exact hkept.symm

end Session
end RegistrySync.Cluster
