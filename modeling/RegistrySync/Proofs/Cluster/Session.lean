import RegistrySync.Proofs.Cluster.Tracking
import RegistrySync.Proofs.Synchronizer.Service

/-!
Sessions: a mirror tracker and any number of other callers change one synchronizer, whose writer is
running. They interleave between any two changes. A trace tells what happened in a session: which
events reached the tracker, and who made which change.
-/

namespace RegistrySync

namespace Cluster

inductive Source where
  | tracker
  | other (i : Nat)
  deriving DecidableEq

inductive Occurrence where
  | event (e : Event MirrorPolicy)
  | change (source : Source) (change : Change)

namespace Occurrence

def event? : Occurrence → Option (Event MirrorPolicy)
  | .event e => some e
  | .change _ _ => none

def change? : Occurrence → Option Change
  | .event _ => none
  | .change _ made => some made

def changeOf? (source : Source) : Occurrence → Option Change
  | .event _ => none
  | .change maker made => if maker = source then some made else none

end Occurrence

abbrev Trace := List Occurrence

namespace Trace

variable (trace more : Trace)

def events : List (Event MirrorPolicy) :=
  trace.filterMap Occurrence.event?

def changes : History :=
  trace.filterMap Occurrence.change?

def changesOf (source : Source) : History :=
  trace.filterMap (Occurrence.changeOf? source)

theorem events_append : events (trace ++ more) = trace.events ++ more.events :=
  List.filterMap_append

theorem changes_append : changes (trace ++ more) = trace.changes ++ more.changes :=
  List.filterMap_append

theorem events_concat (o : Occurrence) : events (trace ++ [o]) = trace.events ++ o.event?.toList :=
  Sequence.filterMap_concat _ trace o

theorem changes_concat (o : Occurrence)
    : changes (trace ++ [o]) = trace.changes ++ o.change?.toList :=
  Sequence.filterMap_concat _ trace o

theorem changesOf_concat (o : Occurrence) (source : Source)
    : changesOf (trace ++ [o]) source = trace.changesOf source ++ (o.changeOf? source).toList :=
  Sequence.filterMap_concat _ trace o

theorem mem_changes (made : Change)
    : made ∈ trace.changes ↔ ∃ source, made ∈ trace.changesOf source := by
  simp only [changes, changesOf, List.mem_filterMap]
  constructor
  . rintro ⟨o, ho, hmade⟩
    cases o with
    | event e => contradiction
    | change maker change =>
      injection hmade with hmade
      exact ⟨maker, .change maker change, ho, by simp [Occurrence.changeOf?, hmade]⟩
  . rintro ⟨source, o, ho, hmade⟩
    refine ⟨o, ho, ?_⟩
    cases o with
    | event e => contradiction
    | change maker change =>
      simp only [Occurrence.changeOf?, Option.ite_none_right_eq_some] at hmade
      exact hmade.2

/-- What only one source writes is read off the changes of that source. -/
theorem filterMap_changes {β : Type} {f : Change → Option β} {source : Source}
    (hf : ∀ maker, maker ≠ source → ∀ made ∈ trace.changesOf maker, f made = none)
    : trace.changes.filterMap f = (trace.changesOf source).filterMap f := by
  induction trace using List.reverseRecOn with
  | nil => rfl
  | append_singleton trace o ih =>
    rw [changes_concat, changesOf_concat, List.filterMap_append, List.filterMap_append, ih]
    . congr 1
      cases o with
      | event e => rfl
      | change maker made =>
        by_cases hmaker : maker = source
        . simp [Occurrence.change?, Occurrence.changeOf?, hmaker]
        . have hmade := hf maker hmaker made (by simp [changesOf_concat, Occurrence.changeOf?])
          simp [Occurrence.change?, Occurrence.changeOf?, hmaker, hmade]
    . intro maker hmaker made hmade
      apply hf maker hmaker made
      rw [changesOf_concat]
      exact List.mem_append_left _ hmade

end Trace

structure Session where
  synchronizer : Synchronizer
  /-- Between two events, the tracker as it is. -/
  tracking : Caller MirrorTracker
  others : List (Caller Unit)

namespace Session

def start (destinations : Destinations) (tree : FileTree) (others : List (Caller Unit)) : Session :=
  ⟨.start destinations tree, .done .empty, others⟩

def configuration (s : Session) : Configuration :=
  s.synchronizer.configuration

def answer (s : Session) (change : Change) : Except SinkError Unit :=
  (Synchronizer.sink change s.synchronizer).1

def change (s : Session) (change : Change) : Session :=
  { s with synchronizer := (Synchronizer.sink change s.synchronizer).2 }

inductive Step : Session → Occurrence → Session → Prop where
  | event {s : Session} {t : MirrorTracker} (idle : s.tracking = .done t) (order : Arrangement)
      (e : Event MirrorPolicy) :
      Step s (.event e) { s with tracking := t.handleBy Caller.sink order e }
  | track {s : Session} {change : Change} {resume : Except SinkError Unit → Caller MirrorTracker}
      (asks : s.tracking = .ask change resume) :
      Step s (.change .tracker change)
        { s.change change with tracking := resume (s.answer change) }
  | other {s : Session} {i : Nat} {change : Change} {resume : Except SinkError Unit → Caller Unit}
      (asks : s.others[i]? = some (.ask change resume)) :
      Step s (.change (.other i) change)
        { s.change change with others := s.others.set i (resume (s.answer change)) }

inductive Run : Session → Trace → Session → Prop where
  | refl (s : Session) : Run s [] s
  | next {s u v : Session} {trace : Trace} {o : Occurrence} (h : Run s trace u)
      (hstep : Step u o v) : Run s (trace ++ [o]) v

namespace Run

variable {s u v : Session} {trace more : Trace}

theorem trans (h : s.Run trace u) (hmore : u.Run more v) : s.Run (trace ++ more) v := by
  induction hmore with
  | refl => rwa [List.append_nil]
  | next _ hstep ih =>
    rw [← List.append_assoc]
    exact ih.next hstep

theorem configuration (h : s.Run trace u)
    : u.configuration = trace.changes.foldl Configuration.next s.configuration := by
  induction h with
  | refl => rfl
  | next _ hstep ih =>
    rw [Trace.changes_concat, List.foldl_append, ← ih]
    cases hstep with
    | event idle order e => rfl
    | track asks => exact Synchronizer.configuration_sink _ _
    | other asks => exact Synchronizer.configuration_sink _ _

theorem synchronizer_eq (h : s.Run trace u) (hchanges : trace.changes = [])
    : u.synchronizer = s.synchronizer := by
  induction h with
  | refl => rfl
  | next _ hstep ih =>
    rw [Trace.changes_concat, List.append_eq_nil_iff] at hchanges
    rw [← ih hchanges.1]
    cases hstep with
    | event idle order e => rfl
    | track asks => simp [Occurrence.change?] at hchanges
    | other asks => simp [Occurrence.change?] at hchanges

theorem configuration_eq_after {d : Destinations} {tree : FileTree} {others : List (Caller Unit)}
    (h : (start d tree others).Run trace u) : u.configuration = .after trace.changes :=
  h.configuration

/-! ### The other callers -/

theorem exists_of_other (h : s.Run trace u) {i : Nat} {c : Caller Unit} (hc : s.others[i]? = some c)
    : ∃ d, u.others[i]? = some d ∧ c.Leads (trace.changesOf (.other i)) d := by
  induction h with
  | refl => exact ⟨c, hc, .refl c⟩
  | @next u _ trace o _ hstep ih =>
    obtain ⟨d, hd, hleads⟩ := ih
    rw [Trace.changesOf_concat]
    cases hstep with
    | event idle order e => exact ⟨d, hd, by simpa [Occurrence.changeOf?] using hleads⟩
    | track asks => exact ⟨d, hd, by simpa [Occurrence.changeOf?] using hleads⟩
    | @other j change resume asks =>
      by_cases hji : j = i
      . subst hji
        rw [asks] at hd
        injection hd with hd
        subst hd
        have hlt := (List.getElem?_eq_some_iff.mp asks).1
        refine ⟨resume (u.answer change), by simp [hlt], ?_⟩
        simpa [Occurrence.changeOf?] using hleads.next (u.answer change)
      . refine ⟨d, by simp [hji, hd], ?_⟩
        simpa [Occurrence.changeOf?, hji] using hleads

theorem changesOf_other (h : s.Run trace u) {i : Nat} {c : Caller Unit}
    (hc : s.others[i]? = some c) {Q : Unit → Prop} {made : List Change} (hmakes : c.Makes Q made)
    (hdone : ∀ d ∈ u.others, d = .done ()) : trace.changesOf (.other i) = made := by
  obtain ⟨d, hd, hleads⟩ := h.exists_of_other hc
  obtain rfl := hdone d (List.mem_of_getElem? hd)
  obtain ⟨rest, rfl, hrest⟩ := hmakes.leads hleads
  rw [hrest.of_done.1, List.append_nil]

theorem none_of_other (h : s.Run trace u) {i : Nat} (hi : s.others[i]? = none)
    : u.others[i]? = none ∧ trace.changesOf (.other i) = [] := by
  induction h with
  | refl => exact ⟨hi, rfl⟩
  | next _ hstep ih =>
    obtain ⟨hu, hnil⟩ := ih
    rw [Trace.changesOf_concat, hnil]
    cases hstep with
    | event idle order e => exact ⟨hu, rfl⟩
    | track asks => exact ⟨hu, rfl⟩
    | @other j change resume asks =>
      have hji : j ≠ i := by
        rintro rfl
        rw [asks] at hu
        contradiction
      exact ⟨by simp [hji, hu], by simp [Occurrence.changeOf?, hji]⟩

theorem only (h : s.Run trace u) {P : Change → Prop} (hothers : ∀ c ∈ s.others, c.Only P)
    : (∀ c ∈ u.others, c.Only P) ∧ ∀ i, ∀ made ∈ trace.changesOf (.other i), P made := by
  induction h with
  | refl => exact ⟨hothers, fun _ _ hmade => by contradiction⟩
  | @next u _ trace _ _ hstep ih =>
    obtain ⟨hu, htrace⟩ := ih
    simp only [Trace.changesOf_concat, List.mem_append, Option.mem_toList]
    cases hstep with
    | event idle order e => exact ⟨hu, by simpa [Occurrence.changeOf?] using htrace⟩
    | track asks => exact ⟨hu, by simpa [Occurrence.changeOf?] using htrace⟩
    | @other j change resume asks =>
      obtain ⟨hchange, hresume⟩ := hu _ (List.mem_of_getElem? asks)
      constructor
      . intro c hc
        rcases List.mem_or_eq_of_mem_set hc with hc | rfl
        . exact hu c hc
        . exact hresume (u.answer change)
      . rintro i made (hmade | hmade)
        . exact htrace i made hmade
        . simp only [Occurrence.changeOf?, Option.ite_none_right_eq_some,
            Option.some.injEq] at hmade
          rw [← hmade.2]
          exact hchange

theorem written?_changes (h : s.Run trace u)
    (hothers : ∀ c ∈ s.others, c.Only fun change => ¬ change.IsAboutMirrors) (r : String)
    : trace.changes.written? r = (trace.changesOf .tracker).written? r := by
  unfold History.written?
  rw [Trace.filterMap_changes]
  intro maker hmaker made hmade
  cases maker with
  | tracker => contradiction
  | other i => exact Change.mirrors?_eq_none ((h.only hothers).2 i made hmade) r

theorem mirrors_eq_getD_written? {d : Destinations} {tree : FileTree}
    {others : List (Caller Unit)} {before : Trace}
    (hothers : ∀ c ∈ others, c.Only fun change => ¬ change.IsAboutMirrors)
    (hbefore : (start d tree others).Run before s) (hrun : s.Run trace u) (r : String)
    : u.configuration.mirrors r =
        ((trace.changesOf .tracker).written? r).getD (s.configuration.mirrors r) := by
  rw [(hbefore.trans hrun).configuration_eq_after, hbefore.configuration_eq_after,
    Configuration.mirrors_after, Configuration.mirrors_after, Trace.changes_append,
    History.mirrors_append, hrun.written?_changes (hbefore.only hothers).1]

/-! ### The tracker -/

/-- What the tracker has done, and what it still has to do, is what the events ask for. -/
theorem exists_emits (h : s.Run trace u) {t : MirrorTracker} (hidle : s.tracking = .done t)
    (hnamed : t.Named)
    : ∃ rest, t.Emits trace.events (trace.changesOf .tracker ++ rest) ∧
        u.tracking.Makes (· = t.trackAll trace.events) rest := by
  induction h with
  | refl =>
    rw [hidle]
    exact ⟨[], .nil, .done rfl⟩
  | @next u _ trace _ _ hstep ih =>
    obtain ⟨rest, hemits, hmakes⟩ := ih
    rw [Trace.events_concat, Trace.changesOf_concat]
    cases hstep with
    | @event t' idle order e =>
      rw [idle] at hmakes
      obtain ⟨rfl, rfl⟩ := hmakes.of_done
      refine ⟨(t.trackAll trace.events).changes order e, ?_, ?_⟩
      . simpa [Occurrence.event?, Occurrence.changeOf?] using hemits.next order e
      . rw [Occurrence.event?, Option.toList, MirrorTracker.trackAll_concat]
        exact MirrorTracker.makes_handleBy (hnamed.trackAll _) order e
    | @track change resume asks =>
      rw [asks] at hmakes
      obtain ⟨rest, rfl, hresume⟩ := hmakes.ask_inv
      refine ⟨rest, ?_, ?_⟩
      . simpa [Occurrence.event?, Occurrence.changeOf?] using hemits
      . simpa [Occurrence.event?] using hresume (u.answer change)
    | other asks =>
      refine ⟨rest, ?_, ?_⟩
      . simpa [Occurrence.event?, Occurrence.changeOf?] using hemits
      . simpa [Occurrence.event?, Session.change] using hmakes

theorem emits_of_idle (h : s.Run trace u) {t t' : MirrorTracker} (hidle : s.tracking = .done t)
    (hnamed : t.Named) (hidle' : u.tracking = .done t')
    : t' = t.trackAll trace.events ∧ t.Emits trace.events (trace.changesOf .tracker) := by
  obtain ⟨rest, hemits, hmakes⟩ := h.exists_emits hidle hnamed
  rw [hidle'] at hmakes
  obtain ⟨rfl, ht'⟩ := hmakes.of_done
  rw [List.append_nil] at hemits
  exact ⟨ht', hemits⟩

end Run

/-! ### Nobody is ever stuck -/

variable {s : Session}

theorem exists_run_of_tracking {Q : MirrorTracker → Prop} {rest : List Change}
    (h : s.tracking.Makes Q rest)
    : ∃ trace u t, s.Run trace u ∧ u.tracking = .done t ∧ Q t ∧ u.others = s.others ∧
        trace.events = [] ∧ trace.changes = rest := by
  generalize htracking : s.tracking = c at h
  induction h generalizing s with
  | done ht => exact ⟨[], s, _, .refl s, htracking, ht, rfl, rfl, rfl⟩
  | @ask change resume rest _ ih =>
    obtain ⟨trace, u, t, hrun, hdone, ht, hothers, hevents, hchanges⟩ :=
      ih (s.answer change) (s := { s.change change with tracking := resume (s.answer change) }) rfl
    have hfirst := (Run.refl s).next (.track htracking)
    refine ⟨_, u, t, hfirst.trans hrun, hdone, ht, hothers, ?_, ?_⟩
    . rw [Trace.events_append, hevents]
      rfl
    . rw [Trace.changes_append, hchanges]
      rfl

theorem exists_run_of_emits {t : MirrorTracker} (hidle : s.tracking = .done t) (hnamed : t.Named)
    {events : List (Event MirrorPolicy)} {made : List Change} (h : t.Emits events made)
    : ∃ trace u, s.Run trace u ∧ u.tracking = .done (t.trackAll events) ∧ u.others = s.others ∧
        trace.events = events ∧ trace.changes = made := by
  induction h with
  | nil => exact ⟨[], s, .refl s, hidle, rfl, rfl, rfl⟩
  | @next events made _ order e ih =>
    obtain ⟨trace, u, hrun, hdone, hothers, hevents, hchanges⟩ := ih
    have hmakes := MirrorTracker.makes_handleBy (hnamed.trackAll events) order e
    obtain ⟨more, v, t', hmore, hdone', rfl, hothers', hevents', hchanges'⟩ :=
      exists_run_of_tracking (s := { u with tracking := _ }) hmakes
    have hevent := (Run.refl u).next (.event hdone order e)
    refine ⟨_, v, hrun.trans (hevent.trans hmore), ?_, ?_, ?_, ?_⟩
    . rw [hdone', MirrorTracker.trackAll_concat]
    . rw [hothers', hothers]
    . rw [Trace.events_append, Trace.events_append, hevents, hevents']
      rfl
    . rw [Trace.changes_append, Trace.changes_append, hchanges, hchanges']
      rfl

theorem exists_run_of_other {i : Nat} {c : Caller Unit} (hi : s.others[i]? = some c)
    {rest : List Change} (h : c.Makes (fun _ => True) rest)
    : ∃ trace u, s.Run trace u ∧ u.tracking = s.tracking ∧ u.others = s.others.set i (.done ()) ∧
        trace.events = [] ∧ trace.changes = rest := by
  induction h generalizing s with
  | done _ =>
    obtain ⟨_, hget⟩ := List.getElem?_eq_some_iff.mp hi
    refine ⟨[], s, .refl s, rfl, ?_, rfl, rfl⟩
    rw [← hget, List.set_getElem_self]
  | @ask change resume rest _ ih =>
    have hlt := (List.getElem?_eq_some_iff.mp hi).1
    obtain ⟨trace, u, hrun, htracking, hothers, hevents, hchanges⟩ :=
      ih (s.answer change)
        (s := { s.change change with others := s.others.set i (resume (s.answer change)) })
        (by simp [hlt])
    have hfirst := (Run.refl s).next (.other hi)
    refine ⟨_, u, hfirst.trans hrun, htracking, ?_, ?_, ?_⟩
    . rw [hothers, List.set_set]
    . rw [Trace.events_append, hevents]
      rfl
    . rw [Trace.changes_append, hchanges]
      rfl

end Session
end Cluster
end RegistrySync
