import RegistrySync.Proofs.Cluster.Tracked
import RegistrySync.Proofs.Synchronizer.Outcome

/-!
The end of a relist. The policies that have vanished may be dropped in any order: clearing mirrors
commutes, and whether there is anything to clear does not depend on what was cleared before.
-/

namespace RegistrySync

open Registry (Table)

/-! ### Clearing mirrors -/

namespace Configuration

variable (c : Configuration) (r other : String)

/-- What a caller is told of a change. -/
def answer (change : Change) : Except SinkError Unit :=
  (Sink.configuration change c).1

theorem next_clearMirrors
    : c.next (.clearMirrors r) = { c with registries := c.registries.modify r .clearMirrors } := by
  unfold next
  cases hfind? : c.registries.find? r with
  | none => simp only [apply, hfind?, Table.modify_of_find?_eq_none hfind?]; rfl
  | some e => simp only [apply, hfind?]; rfl

theorem answer_clearMirrors
    : c.answer (.clearMirrors r) =
        if (c.registries.find? r).isSome then .ok ()
        else .error (.refused (.unknownRegistry r)) := by
  unfold answer Sink.configuration
  cases hfind? : c.registries.find? r <;> simp only [apply, hfind?] <;> rfl

theorem answer_next_clearMirrors
    : (c.next (.clearMirrors r)).answer (.clearMirrors other) = c.answer (.clearMirrors other) := by
  rw [answer_clearMirrors, answer_clearMirrors, next_clearMirrors, Table.isSome_find?_modify]

theorem next_clearMirrors_comm
    : (c.next (.clearMirrors r)).next (.clearMirrors other) =
        (c.next (.clearMirrors other)).next (.clearMirrors r) := by
  simp only [next_clearMirrors, Table.modify_comm _ r other]

end Configuration

/-- A change that clears the mirrors of one registry. -/
def Change.IsClearing (change : Change) : Prop :=
  ∃ r, change = .clearMirrors r

variable {changes more : List Change}

theorem Configuration.foldl_next_of_perm (h : changes.Perm more)
    (hclears : ∀ change ∈ changes, change.IsClearing) (c : Configuration)
    : changes.foldl next c = more.foldl next c := by
  apply h.foldl_eq'
  intro first hfirst second hsecond c
  obtain ⟨r, rfl⟩ := hclears first hfirst
  obtain ⟨other, rfl⟩ := hclears second hsecond
  exact c.next_clearMirrors_comm r other

/-! ### Changes on a sink, with their results -/

namespace Sink

variable {σ : Type} (sink : Sink (StateM σ)) (s : σ)

/-- Records the changes with their results. -/
def logged : Sink (StateM (Synchronizer.Log × σ)) := fun change (log, s) =>
  let (result, s) := sink change s
  (result, log ++ [(change, result)], s)

def makeAll (changes : List Change) (s : Synchronizer.Log × σ) : Synchronizer.Log × σ :=
  changes.foldl (fun s change => (sink.logged change s).2) s

theorem makeAll_cons (change : Change) (changes : List Change) (log : Synchronizer.Log)
    : sink.makeAll (change :: changes) (log, s) =
        sink.makeAll changes (log ++ [(change, (sink change s).1)], (sink change s).2) := rfl

/-- From a state on, a sink keeps a configuration, and answers for it. -/
structure Keeps (view : σ → Configuration) (Good : σ → Prop) : Prop where
  answer : ∀ s, Good s → ∀ change, (sink change s).1 = (view s).answer change
  next : ∀ s, Good s → ∀ change, view (sink change s).2 = (view s).next change
  good : ∀ s, Good s → ∀ change, Good (sink change s).2

theorem keeps_configuration : configuration.Keeps id fun _ => True where
  answer _ _ _ := rfl
  next c _ change := Configuration.sink_configuration c change
  good _ _ _ := trivial

variable {sink s} {view : σ → Configuration} {Good : σ → Prop}

/-- Each clearing has the result that it would have if it were the first one. -/
theorem Keeps.makeAll_eq (h : sink.Keeps view Good) (hs : Good s)
    (hclears : ∀ change ∈ changes, change.IsClearing) (log : Synchronizer.Log)
    : (sink.makeAll changes (log, s)).1 =
          log ++ changes.map (fun change => (change, (view s).answer change)) ∧
        view (sink.makeAll changes (log, s)).2 = changes.foldl .next (view s) := by
  induction changes generalizing log s with
  | nil => exact ⟨(List.append_nil log).symm, rfl⟩
  | cons change changes ih =>
    rw [List.forall_mem_cons] at hclears
    obtain ⟨⟨r, rfl⟩, hclears⟩ := hclears
    have hrest : changes.map (fun change => (change, ((view s).next (.clearMirrors r)).answer
        change)) = changes.map fun change => (change, (view s).answer change) := by
      apply List.map_congr_left
      intro change hchange
      obtain ⟨other, rfl⟩ := hclears change hchange
      rw [Configuration.answer_next_clearMirrors]
    obtain ⟨hlog, hview⟩ := ih (h.good s hs (.clearMirrors r)) hclears
      (log ++ [(.clearMirrors r, (view s).answer (.clearMirrors r))])
    rw [h.next s hs] at hlog hview
    rw [makeAll_cons, h.answer s hs, hlog, hview, hrest, List.append_assoc]
    exact ⟨rfl, rfl⟩

end Sink

namespace Synchronizer

variable {s : Synchronizer}

namespace Resting

theorem resting_sink (h : s.Resting) (change : Change) : (sink change s).2.Resting := by
  cases happly : s.configuration.apply change with
  | error cause =>
    rw [h.sink_of_refused happly]
    exact h
  | ok c =>
    rw [h.sink_of_taken happly]
    exact h.served c

theorem answer_sink (h : s.Resting) (change : Change)
    : (sink change s).1 = s.configuration.answer change := by
  unfold Configuration.answer Sink.configuration
  cases happly : s.configuration.apply change with
  | error cause => rw [h.sink_of_refused happly]
  | ok c => rw [h.sink_of_taken happly]

/-- A pass runs for each change that is taken. -/
theorem accepted_sink (h : s.Resting) (change : Change)
    : (sink change s).2.accepted =
        s.accepted + if (sink change s).1.isOk then 1 else 0 := by
  cases happly : s.configuration.apply change with
  | error cause =>
    rw [h.sink_of_refused happly]
    rfl
  | ok c =>
    rw [h.sink_of_taken happly]
    rfl

end Resting

theorem keeps_sink : Sink.Keeps sink configuration Resting where
  answer _ h change := h.answer_sink change
  next s _ change := configuration_sink change s
  good _ h change := h.resting_sink change

theorem Log.taken_concat (log : Log) (change : Change) (result : Except SinkError Unit)
    : Log.taken (log ++ [(change, result)]) = log.taken + if result.isOk then 1 else 0 := by
  rw [Log.taken, List.countP_append, List.countP_singleton]
  rfl

theorem Resting.accepted_makeAll (h : s.Resting) (changes : List Change) (log : Log)
    : (Sink.makeAll sink changes (log, s)).2.accepted + log.taken =
        s.accepted + (Sink.makeAll sink changes (log, s)).1.taken := by
  induction changes generalizing log s with
  | nil => rfl
  | cons change changes ih =>
    have hih := ih (h.resting_sink change) (log ++ [(change, (sink change s).1)])
    rw [Log.taken_concat, h.accepted_sink] at hih
    rw [Sink.makeAll_cons]
    omega

end Synchronizer

/-! ### Dropping policies -/

namespace Cluster

namespace MirrorTracker

section

variable {m : Type → Type} [Monad m] [LawfulMonad m] (sink : Sink m)

theorem runOn_forget (t : MirrorTracker) (name : String)
    : (t.forget Caller.sink name).runOn sink = t.forget sink name := by
  unfold forget
  cases t.known[name]? with
  | none => rfl
  | some p =>
    simp only [delete, MirrorPolicy.delete, Caller.runOn_bind, runOn_countAccepted,
      Caller.runOn_pure]

theorem runOn_finishRelistIn (t : MirrorTracker) (order : List String)
    : (t.finishRelistIn Caller.sink order).runOn sink = t.finishRelistIn sink order :=
  Caller.runOn_foldlM sink (runOn_forget sink) order _

end

variable {t : MirrorTracker} {order first second : List String}

theorem isClearing_of_mem_clearingsOf {change : Change} (h : change ∈ t.clearingsOf order)
    : change.IsClearing := by
  obtain ⟨-, -, p, -, hchange⟩ := mem_clearingsOf.mp h
  obtain ⟨item, -, rfl⟩ := List.mem_map.mp hchange
  exact ⟨item.source, rfl⟩

theorem finishRelistIn_logged {σ : Type} {sink : Sink (StateM σ)}
    (hnamed : t.Named) (horder : order.Nodup) (s : σ)
    : t.finishRelistIn sink.logged order ([], s) =
        (⟨order.foldl (fun known name => known.erase name) t.known, none⟩,
          sink.makeAll (t.clearingsOf order) ([], s)) := by
  rw [← runOn_finishRelistIn]
  exact (makes_foldlM_forget (t := { t with relisted := none }) hnamed horder).runOn_eq ([], s)

theorem finishRelistIn_of_perm {σ : Type} {sink : Sink (StateM σ)} {view : σ → Configuration}
    {Good : σ → Prop} (h : sink.Keeps view Good) (hnamed : t.Named) (hfirst : first.Nodup)
    (hperm : first.Perm second) {s : σ} (hs : Good s)
    : let a := t.finishRelistIn sink.logged first ([], s)
      let b := t.finishRelistIn sink.logged second ([], s)
      a.1 = b.1 ∧ view a.2.2 = view b.2.2 ∧ a.2.1.Perm b.2.1 := by
  have hknown : first.foldl (fun known name => known.erase name) t.known =
      second.foldl (fun known name => known.erase name) t.known := by
    apply Std.ExtTreeMap.ext_getElem?
    intro name
    simp only [getElem?_foldl_erase, hperm.mem_iff]
  have hchanges : (t.clearingsOf first).Perm (t.clearingsOf second) := hperm.flatMap_right _
  rw [finishRelistIn_logged hnamed hfirst, finishRelistIn_logged hnamed (hperm.nodup hfirst)]
  obtain ⟨hlog, hview⟩ := h.makeAll_eq hs (fun _ => isClearing_of_mem_clearingsOf) []
  obtain ⟨hlog', hview'⟩ := h.makeAll_eq hs (fun _ => isClearing_of_mem_clearingsOf) []
  refine ⟨by rw [hknown], ?_, ?_⟩
  . rw [hview, hview']
    exact Configuration.foldl_next_of_perm hchanges (fun _ => isClearing_of_mem_clearingsOf) _
  . rw [hlog, hlog']
    exact hchanges.map _

theorem accepted_finishRelistIn (hnamed : t.Named) (horder : order.Nodup) {s : Synchronizer}
    (hs : s.Resting)
    : let a := t.finishRelistIn Synchronizer.sink.logged order ([], s)
      a.2.2.accepted = s.accepted + a.2.1.taken := by
  rw [finishRelistIn_logged hnamed horder]
  exact hs.accepted_makeAll (t.clearingsOf order) []

/-- Neither what is tracked, nor the configuration, nor how many passes run. -/
theorem finishRelist_independent_of_order {log : Log} {relisted : List String}
    (hreached : empty.Handles log t) (hopen : t.relisted = some relisted)
    (hfirst : first.Perm (t.vanished relisted)) (hsecond : second.Perm (t.vanished relisted))
    : (∀ (m : Type → Type) [Monad m] (sink : Sink m),
        t.handle sink .initDone = t.finishRelistIn sink (t.vanished relisted)) ∧
      (∀ c : Configuration,
        let a := t.finishRelistIn Sink.configuration.logged first ([], c)
        let b := t.finishRelistIn Sink.configuration.logged second ([], c)
        a.1 = b.1 ∧ a.2.2 = b.2.2 ∧ a.2.1.Perm b.2.1 ∧ a.2.1.taken = b.2.1.taken) ∧
      (∀ s : Synchronizer, s.Resting →
        let a := t.finishRelistIn Synchronizer.sink.logged first ([], s)
        let b := t.finishRelistIn Synchronizer.sink.logged second ([], s)
        a.1 = b.1 ∧ a.2.2.configuration = b.2.2.configuration ∧ a.2.1.Perm b.2.1 ∧
          a.2.2.accepted = b.2.2.accepted ∧ a.2.2.accepted = s.accepted + a.2.1.taken) := by
  have hnamed := hreached.named named_empty
  have hnodup : first.Nodup := hfirst.nodup_iff.mpr (nodup_vanished t relisted)
  have hperm := hfirst.trans hsecond.symm
  refine ⟨?_, ?_, ?_⟩
  . intro m _ sink
    rw [handle, finishRelist, hopen]
  . intro c
    obtain ⟨hknown, hc, hlog⟩ :=
      finishRelistIn_of_perm Sink.keeps_configuration hnamed hnodup hperm (s := c) trivial
    exact ⟨hknown, hc, hlog, hlog.countP_eq _⟩
  . intro s hs
    obtain ⟨hknown, hc, hlog⟩ :=
      finishRelistIn_of_perm Synchronizer.keeps_sink hnamed hnodup hperm hs
    have hfirst := accepted_finishRelistIn hnamed hnodup hs
    refine ⟨hknown, hc, hlog, ?_, hfirst⟩
    rw [hfirst, accepted_finishRelistIn hnamed (hperm.nodup hnodup) hs]
    exact congrArg _ (hlog.countP_eq _)

/-- The vanished policies share a source with each other and one with a policy that stays, and one
source is unknown. -/
theorem finishRelist_independent_of_order_of_shared_sources
    : ∃ log t relisted first second c, empty.Handles log t ∧ t.relisted = some relisted ∧
        t.vanished relisted = first ∧ first.Perm second ∧ first ≠ second ∧
        (let a := t.finishRelistIn Sink.configuration.logged first ([], c)
         let b := t.finishRelistIn Sink.configuration.logged second ([], c)
         a.2.1 ≠ b.2.1 ∧ a.2.2 = b.2.2 ∧ a.2.1.length = 4 ∧ a.2.1.taken = 3 ∧
           b.2.1.taken = 3) := by
  let policy (name : String) (sources : List String) : MirrorPolicy :=
    ⟨⟨some name, none, none⟩, sources.map fun source => ⟨source, ["m"]⟩⟩
  let events : List (Event MirrorPolicy) := [.apply (policy "one" ["a", "unknown"]),
    .apply (policy "two" ["a", "b"]), .init, .initApply (policy "kept" ["b"])]
  let t := empty.trackAll events
  let c := Configuration.after [.setMirrors "a" ["m"], .setMirrors "b" ["m"]]
  obtain ⟨log, u, hreached, hevents⟩ := exists_handles empty .sorted (.ok ()) events
  obtain rfl : u = t := by rw [(hreached.eq_trackAll named_empty).1, hevents]
  have hvanished : t.vanished ["kept"] = ["one", "two"] := by decide +kernel
  obtain ⟨-, hconfiguration, -⟩ := finishRelist_independent_of_order hreached rfl
    (hvanished ▸ List.Perm.refl ["one", "two"]) (hvanished ▸ List.Perm.swap "one" "two" [])
  rw [hvanished] at hconfiguration
  obtain ⟨-, hc, -, htaken⟩ := hconfiguration c
  have hcount :
      (t.finishRelistIn Sink.configuration.logged ["one", "two"] ([], c)).2.1.taken = 3 := by
    decide +kernel
  refine ⟨log, t, ["kept"], ["one", "two"], ["two", "one"], c, hreached, rfl, hvanished,
    .swap _ _ _, by decide, by decide +kernel, hc, by decide +kernel, hcount, ?_⟩
  rw [← htaken, hcount]

end MirrorTracker
end Cluster
end RegistrySync
