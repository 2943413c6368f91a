import Mathlib.Data.List.Forall2
import RegistrySync.Proofs.Cluster.Tracking

/-!
What a tracker tracks, read off the events alone: under each name the version that was applied last,
unless it was deleted since, or a relist was closed that did not return it. Neither this nor the
changes that the tracker makes depend on what the sink answers.
-/

namespace RegistrySync.Cluster

namespace MirrorTracker

/-- Events, each with the changes that were made on it. -/
abbrev Log := List (Event MirrorPolicy × List Change)

namespace Log

variable (log : Log)

def events : List (Event MirrorPolicy) :=
  log.map Prod.fst

def made : List Change :=
  log.flatMap Prod.snd

variable (e : Event MirrorPolicy) (changes : List Change)

theorem events_concat : events (log ++ [(e, changes)]) = log.events ++ [e] :=
  List.map_append

theorem made_concat : made (log ++ [(e, changes)]) = log.made ++ changes := by
  rw [made, List.flatMap_append, List.flatMap_singleton, made]

end Log

/-- A tracker handles events. The sink may answer anything to each of the changes, and the policies
that have vanished at the end of a relist may be dropped in any order. -/
inductive Handles (t : MirrorTracker) : Log → MirrorTracker → Prop where
  | nil : Handles t [] t
  | next {log : Log} {u v : MirrorTracker} {made : List Change} (h : Handles t log u)
      (order : Arrangement) (e : Event MirrorPolicy)
      (hleads : (u.handleBy Caller.sink order e).Leads made (.done v)) :
      Handles t (log ++ [(e, made)]) v

/-- The same changes, in the same order unless a relist ends. -/
def Alike : Event MirrorPolicy → List Change → List Change → Prop
  | .initDone, made, other => made.Perm other
  | _, made, other => made = other

/-! ### What the events say -/

/-- A relist was announced and not closed. -/
def IsRelisting (events : List (Event MirrorPolicy)) : Prop :=
  ∃ before since, events = before ++ .init :: since ∧ .initDone ∉ since

/-- The relist that is open has not returned a name since it was last announced. -/
def Misses (events : List (Event MirrorPolicy)) (name : String) : Prop :=
  ∃ before since, events = before ++ .init :: since ∧ .init ∉ since ∧ .initDone ∉ since ∧
    ∀ p, .initApply p ∈ since → p.name ≠ name

/-- The last that was applied under a name is a policy, which was not deleted since, and which no
relist that was closed since has missed. -/
def Keeps (events : List (Event MirrorPolicy)) (name : String) (p : MirrorPolicy) : Prop :=
  ∃ before e since, events = before ++ e :: since ∧ e.applied? = some p ∧ p.name = name ∧
    (∀ later ∈ since, ∀ q, later.object? = some q → q.name ≠ name) ∧
    ∀ between rest, since = between ++ .initDone :: rest →
      ¬ Misses (before ++ e :: between) name

/-! ### One more event -/

variable {events : List (Event MirrorPolicy)} {e : Event MirrorPolicy} {name : String}
  {p : MirrorPolicy}

theorem isRelisting_concat
    : IsRelisting (events ++ [e]) ↔ e = .init ∨ (e ≠ .initDone ∧ IsRelisting events) := by
  constructor
  . rintro ⟨before, since, heq, hdone⟩
    rcases Sequence.concat_eq_append_cons_iff.mp heq with ⟨-, he, -⟩ | ⟨rest, rfl, rfl⟩
    . exact .inl he
    . rw [List.mem_append, List.mem_singleton, not_or] at hdone
      exact .inr ⟨Ne.symm hdone.2, before, rest, rfl, hdone.1⟩
  . rintro (rfl | ⟨hdone, before, since, rfl, hsince⟩)
    . exact ⟨events, [], rfl, List.not_mem_nil⟩
    . refine ⟨before, since ++ [e], by simp, ?_⟩
      rw [List.mem_append, List.mem_singleton]
      exact not_or.mpr ⟨hsince, Ne.symm hdone⟩

theorem misses_concat
    : Misses (events ++ [e]) name ↔
        e = .init ∨ (e ≠ .initDone ∧ (∀ p, e = .initApply p → p.name ≠ name) ∧
          Misses events name) := by
  constructor
  . rintro ⟨before, since, heq, hinit, hdone, hnames⟩
    rcases Sequence.concat_eq_append_cons_iff.mp heq with ⟨-, he, -⟩ | ⟨rest, rfl, rfl⟩
    . exact .inl he
    . simp only [List.mem_append, List.mem_singleton, not_or] at hinit hdone hnames
      refine .inr ⟨Ne.symm hdone.2, fun p hp => hnames p (.inr hp.symm), before, rest, rfl,
        hinit.1, hdone.1, fun p hp => hnames p (.inl hp)⟩
  . intro h
    by_cases he : e = .init
    . subst he
      exact ⟨events, [], rfl, List.not_mem_nil, List.not_mem_nil, by simp⟩
    . obtain ⟨hdone, hname, before, since, rfl, hinit, hclosed, hnames⟩ := h.resolve_left he
      refine ⟨before, since ++ [e], by simp, ?_, ?_, ?_⟩
      . simpa [hinit] using Ne.symm he
      . simpa [hclosed] using Ne.symm hdone
      . intro p hp
        rcases List.mem_append.mp hp with hp | hp
        . exact hnames p hp
        . exact hname p (List.mem_singleton.mp hp).symm

theorem keeps_concat
    : Keeps (events ++ [e]) name p ↔
        (e.applied? = some p ∧ p.name = name) ∨
          (Keeps events name p ∧ (∀ q, e.object? = some q → q.name ≠ name) ∧
            (e = .initDone → ¬ Misses events name)) := by
  constructor
  . rintro ⟨before, first, since, heq, hfirst, hname, hlater, hclosed⟩
    rcases Sequence.concat_eq_append_cons_iff.mp heq with ⟨-, rfl, -⟩ | ⟨rest, rfl, rfl⟩
    . exact .inl ⟨hfirst, hname⟩
    . refine .inr ⟨⟨before, first, rest, rfl, hfirst, hname, ?_, ?_⟩, ?_, ?_⟩
      . intro later hmem
        exact hlater later (List.mem_append_left _ hmem)
      . rintro between after rfl
        exact hclosed between (after ++ [e]) (by simp)
      . exact hlater e (by simp)
      . rintro rfl
        exact hclosed rest [] rfl
  . rintro (⟨happlied, hname⟩ | ⟨⟨before, first, since, rfl, hfirst, hname, hlater, hclosed⟩, he,
      hdone⟩)
    . exact ⟨events, e, [], rfl, happlied, hname, by simp, by simp⟩
    . refine ⟨before, first, since ++ [e], by simp, hfirst, hname, ?_, ?_⟩
      . intro later hmem
        rcases List.mem_append.mp hmem with hmem | hmem
        . exact hlater later hmem
        . rw [List.mem_singleton.mp hmem]
          exact he
      . intro between rest heq
        rcases Sequence.concat_eq_append_cons_iff.mp heq with ⟨rfl, rfl, -⟩ | ⟨after, -, rfl⟩
        . exact hdone rfl
        . exact hclosed between after rfl

/-! ### What is tracked -/

theorem relisted_track (t : MirrorTracker) (e : Event MirrorPolicy)
    : (t.track e).relisted = match e with
        | .init => some []
        | .initDone => none
        | .initApply p => t.relisted.map fun names => names ++ [p.name]
        | _ => t.relisted := by
  cases e with
  | initDone =>
    unfold track
    cases hrelisted : t.relisted with
    | none => exact hrelisted
    | some relisted => rfl
  | _ => rfl

theorem relisted_ne_none_iff (events : List (Event MirrorPolicy))
    : (empty.trackAll events).relisted ≠ none ↔ IsRelisting events := by
  induction events using List.reverseRecOn with
  | nil => simp [trackAll, empty, IsRelisting]
  | append_singleton events e ih =>
    rw [trackAll_concat, relisted_track, isRelisting_concat, ← ih]
    cases e <;> simp

theorem misses_iff (events : List (Event MirrorPolicy)) (name : String)
    : Misses events name ↔
        ∃ relisted, (empty.trackAll events).relisted = some relisted ∧ name ∉ relisted := by
  induction events using List.reverseRecOn with
  | nil => simp [trackAll, empty, Misses]
  | append_singleton events e ih =>
    rw [trackAll_concat, relisted_track, misses_concat, ih]
    cases e with
    | initApply p =>
      cases (empty.trackAll events).relisted with
      | none => simp
      | some relisted => simp [and_comm, eq_comm]
    | _ => simp

theorem getElem?_track_eq_some_iff (t : MirrorTracker) (e : Event MirrorPolicy) (name : String)
    (p : MirrorPolicy)
    : (t.track e).known[name]? = some p ↔
        (e.applied? = some p ∧ p.name = name) ∨
          (t.known[name]? = some p ∧ (∀ q, e.object? = some q → q.name ≠ name) ∧
            (e = .initDone → ∀ relisted, t.relisted = some relisted → name ∈ relisted)) := by
  have hinsert (q : MirrorPolicy) : (t.known.insert q.name q)[name]? = some p ↔
      (q = p ∧ p.name = name) ∨ (t.known[name]? = some p ∧ q.name ≠ name) := by
    rw [Std.ExtTreeMap.getElem?_insert]
    by_cases hname : q.name = name
    . simp only [hname, Std.ReflCmp.compare_self, if_true, Option.some.injEq, ne_eq, not_true,
        and_false, or_false]
      constructor
      . rintro rfl
        exact ⟨rfl, hname⟩
      . exact And.left
    . simp only [Std.LawfulEqOrd.compare_eq_iff_eq, hname, if_false, ne_eq, not_false_eq_true,
        and_true]
      constructor
      . exact .inr
      . rintro (⟨rfl, h⟩ | h)
        . exact absurd h hname
        . exact h
  cases e with
  | apply q => simpa [track, Event.applied?, Event.object?] using hinsert q
  | initApply q => simpa [track, Event.applied?, Event.object?] using hinsert q
  | delete q =>
    simp only [track, Std.ExtTreeMap.getElem?_erase, Std.LawfulEqOrd.compare_eq_iff_eq]
    by_cases hname : q.name = name <;> simp [Event.applied?, Event.object?, hname]
  | init => simp [track, Event.applied?, Event.object?]
  | initDone =>
    cases hrelisted : t.relisted with
    | none => simp [track, hrelisted, Event.applied?, Event.object?]
    | some relisted =>
      rw [getElem?_track_initDone hrelisted]
      simp [Event.applied?, Event.object?, and_comm]

theorem known_trackAll_iff (events : List (Event MirrorPolicy)) (name : String) (p : MirrorPolicy)
    : (empty.trackAll events).known[name]? = some p ↔ Keeps events name p := by
  induction events using List.reverseRecOn with
  | nil => simp [trackAll, empty, Keeps]
  | append_singleton events e ih =>
    rw [trackAll_concat, getElem?_track_eq_some_iff, keeps_concat, ih, misses_iff]
    simp only [not_exists, not_and, not_not]

/-! ### The sink has no say -/

variable {t u v : MirrorTracker} {log other : Log} {made more : List Change}

theorem eq_of_leads {order : Arrangement} (hnamed : t.Named)
    (h : (t.handleBy Caller.sink order e).Leads made (.done u))
    : made = t.changes order e ∧ u = t.track e := by
  obtain ⟨rest, hchanges, hdone⟩ := (makes_handleBy hnamed order e).leads h
  obtain ⟨rfl, hu⟩ := hdone.of_done
  rw [List.append_nil] at hchanges
  exact ⟨hchanges.symm, hu⟩

theorem Handles.eq_trackAll (h : t.Handles log u) (hnamed : t.Named)
    : u = t.trackAll log.events ∧ t.Emits log.events log.made := by
  induction h with
  | nil => exact ⟨rfl, .nil⟩
  | @next log u v made _ order e hleads ih =>
    obtain ⟨rfl, hemits⟩ := ih
    obtain ⟨rfl, rfl⟩ := eq_of_leads (hnamed.trackAll _) hleads
    rw [Log.events_concat, Log.made_concat, trackAll_concat]
    exact ⟨rfl, hemits.next order e⟩

theorem Handles.named (h : t.Handles log u) (hnamed : t.Named) : u.Named := by
  rw [(h.eq_trackAll hnamed).1]
  exact hnamed.trackAll _

theorem alike_changes (t : MirrorTracker) (first second : Arrangement) (e : Event MirrorPolicy)
    : Alike e (t.changes first e) (t.changes second e) := by
  cases e with
  | initDone =>
    unfold Alike changes
    cases t.relisted with
    | none => exact .rfl
    | some relisted =>
      exact ((first.perm _).trans (second.perm _).symm).flatMap_right _
  | _ => rfl

theorem Handles.alike (h : t.Handles log u) (h' : t.Handles other v) (hnamed : t.Named)
    (hevents : log.events = other.events)
    : List.Forall₂ (fun a b => a.1 = b.1 ∧ Alike a.1 a.2 b.2) log other := by
  induction h generalizing other v with
  | nil =>
    rw [List.map_eq_nil_iff.mp hevents.symm]
    exact .nil
  | @next log u _ made h order e hleads ih =>
    cases h' with
    | nil => simp [Log.events] at hevents
    | @next other w _ more h' order' e' hleads' =>
      rw [Log.events_concat, Log.events_concat] at hevents
      obtain ⟨hbefore, he⟩ := List.append_inj' hevents rfl
      obtain rfl := (List.cons.inj he).1
      obtain ⟨rfl, -⟩ := eq_of_leads (h.named hnamed) hleads
      obtain ⟨rfl, -⟩ := eq_of_leads (h'.named hnamed) hleads'
      have hsame : w = u := by
        rw [(h.eq_trackAll hnamed).1, (h'.eq_trackAll hnamed).1, hbefore]
      subst hsame
      exact List.rel_append (ih h' hbefore) (.cons ⟨rfl, alike_changes w order order' e⟩ .nil)

theorem exists_handles (t : MirrorTracker) (order : Arrangement) (result : Except SinkError Unit)
    (events : List (Event MirrorPolicy)) : ∃ log u, t.Handles log u ∧ log.events = events := by
  induction events using List.reverseRecOn with
  | nil => exact ⟨[], t, .nil, rfl⟩
  | append_singleton events e ih =>
    obtain ⟨log, u, h, rfl⟩ := ih
    obtain ⟨made, v, hleads⟩ := (u.handleBy Caller.sink order e).exists_leads result
    exact ⟨_, v, h.next order e hleads, log.events_concat e made⟩

theorem exists_names (t : MirrorTracker)
    : ∃ names : List String, names.Nodup ∧ (∀ name, name ∈ names ↔ t.known[name]? ≠ none) ∧
        t.size = names.length := by
  refine ⟨t.known.keys, ?_, ?_, ?_⟩
  . apply Std.ExtTreeMap.distinct_keys.imp
    simp
  . simp [Std.ExtTreeMap.mem_keys]
  . rw [size, Std.ExtTreeMap.length_keys]

theorem tracked_by_events (h : empty.Handles log t)
    : (∀ (name : String) (p : MirrorPolicy),
        t.known[name]? = some p ↔ Keeps log.events name p) ∧
      (∃ names : List String, names.Nodup ∧
        (∀ name, name ∈ names ↔ ∃ p, Keeps log.events name p) ∧ t.size = names.length) ∧
      (¬ IsRelisting log.events → ∀ order made u,
        (t.handleBy Caller.sink order .initDone).Leads made (.done u) → made = [] ∧ u = t) ∧
      (∀ other u, empty.Handles other u → other.events = log.events →
        u = t ∧ List.Forall₂ (fun a b => a.1 = b.1 ∧ Alike a.1 a.2 b.2) log other) := by
  have hnamed := h.named named_empty
  have ht := (h.eq_trackAll named_empty).1
  have hkeeps : ∀ (name : String) (p : MirrorPolicy),
      t.known[name]? = some p ↔ Keeps log.events name p := by
    rw [ht]
    exact known_trackAll_iff log.events
  refine ⟨hkeeps, ?_, ?_, ?_⟩
  . obtain ⟨names, hnodup, hmem, hsize⟩ := exists_names t
    refine ⟨names, hnodup, fun name => ?_, hsize⟩
    rw [hmem, Option.ne_none_iff_exists']
    simp only [hkeeps]
  . intro hclosed order made u hleads
    have hrelisted : t.relisted = none := by
      rw [ht]
      exact not_not.mp (mt (relisted_ne_none_iff log.events).mp hclosed)
    obtain ⟨rfl, rfl⟩ := eq_of_leads hnamed hleads
    rw [changes, track, hrelisted]
    exact ⟨rfl, rfl⟩
  . intro other u h' hevents
    refine ⟨?_, h.alike h' named_empty hevents.symm⟩
    rw [ht, (h'.eq_trackAll named_empty).1, hevents]

/-- One policy is returned before any relist is announced, and one by a relist that is then
announced again; the last end of a relist finds none open. The sink refuses every change. -/
theorem tracked_by_events_out_of_order
    : ∃ first second third log t, empty.Handles log t ∧
        log.events = [.initApply first, .init, .initApply second, .init, .apply first,
          .initApply third, .initDone, .initDone] ∧
        first.name ≠ third.name ∧ second.name = third.name ∧ second.sources ≠ third.sources ∧
        Keeps log.events third.name third ∧ (∀ p, ¬ Keeps log.events first.name p) ∧
        t.size = 1 := by
  let policy (name : String) (mirrors : List String) : MirrorPolicy :=
    ⟨⟨some name, none, none⟩, [⟨"a", mirrors⟩]⟩
  let events : List (Event MirrorPolicy) := [.initApply (policy "gone" []), .init,
    .initApply (policy "kept" ["m1"]), .init, .apply (policy "gone" []),
    .initApply (policy "kept" ["m2"]), .initDone, .initDone]
  obtain ⟨log, t, h, hevents⟩ := exists_handles empty .sorted (.error .writerStopped) events
  obtain ⟨hkeeps, -⟩ := tracked_by_events h
  have ht : t = empty.trackAll events := by
    rw [(h.eq_trackAll named_empty).1, hevents]
  refine ⟨policy "gone" [], policy "kept" ["m1"], policy "kept" ["m2"], log, t, h, hevents,
    by decide, rfl, by decide, ?_, ?_, ?_⟩
  . rw [← hkeeps, ht]
    decide +kernel
  . intro p
    have hgone : t.known["gone"]? = none := by
      rw [ht]
      decide +kernel
    rw [← hkeeps]
    exact fun hp => absurd (hgone.symm.trans hp) (Option.some_ne_none p).symm
  . rw [ht]
    decide +kernel

end MirrorTracker
end RegistrySync.Cluster
