import RegistrySync.Cluster.Watch
import RegistrySync.Proofs.Caller
import RegistrySync.Proofs.Configuration.Mirrors

/-!
Streams of events of single objects: the changes that they make, and which object is in force after
them.
-/

namespace RegistrySync.Cluster

open Caller

variable {α β : Type}

def changesOn (change? : α → Option Change) (events : List (Event α)) : History :=
  events.filterMap fun e => e.applied?.bind change?

/-- The last object that was applied, of those that satisfy a condition. -/
def lastApplied? (p : α → Bool) (events : List (Event α)) : Option α :=
  ((events.filterMap Event.applied?).filter p).getLast?

theorem mem_changesOn (change? : α → Option Change) (events : List (Event α)) (change : Change)
    : change ∈ changesOn change? events ↔
        ∃ o ∈ events.filterMap Event.applied?, change? o = some change := by
  simp only [changesOn, List.mem_filterMap, Option.bind_eq_some_iff]
  constructor
  . rintro ⟨e, he, o, ho, hchange⟩
    exact ⟨o, ⟨e, he, ho⟩, hchange⟩
  . rintro ⟨o, ⟨e, he, ho⟩, hchange⟩
    exact ⟨e, he, o, ho, hchange⟩

/-- If only such objects write a part of the configuration, then the last one decides it. -/
theorem getLastD_filterMap_changesOn {change? : α → Option Change} {f : Change → Option β}
    {p : α → Bool} {g : α → β}
    (h : ∀ o, (change? o).bind f = if p o then some (g o) else none) (events : List (Event α))
    (d : β)
    : ((changesOn change? events).filterMap f).getLastD d =
        ((lastApplied? p events).map g).getD d := by
  have hmap : (changesOn change? events).filterMap f =
      ((events.filterMap Event.applied?).filter p).map g := by
    unfold changesOn
    induction events with
    | nil => rfl
    | cons e events ih =>
      cases ho : e.applied? with
      | none => simpa [ho] using ih
      | some o =>
        have ho' := h o
        cases hp : p o <;> cases hc : change? o <;> simp_all
  rw [hmap, lastApplied?, ← List.getLast?_map, List.getLastD_eq_getLast?]

theorem makes_applyChange (change? : Option Change)
    : (do let _ ← applyChange sink change? : Caller Unit).Makes (fun _ => True)
        change?.toList := by
  cases change? with
  | none => exact makes_pure trivial
  | some change => exact .ask fun _ => makes_pure trivial

theorem flatMap_toList (change? : α → Option Change) (events : List (Event α))
    : events.flatMap (fun e => (e.applied?.bind change?).toList) = changesOn change? events := by
  induction events with
  | nil => rfl
  | cons e events ih =>
    rw [List.flatMap_cons, ih, changesOn, changesOn]
    cases h : e.applied?.bind change? <;> simp [h]

namespace ImageSettings

theorem makes_handle (e : Event ImageSettings)
    : (handle sink e).Makes (fun _ => True) (e.applied?.bind change?).toList := by
  unfold handle
  cases e.applied? with
  | none => exact makes_pure trivial
  | some o => exact makes_applyChange o.change?

theorem makes_forM_handle (events : List (Event ImageSettings))
    : (events.forM (handle sink)).Makes (fun _ => True) (changesOn change? events) := by
  rw [← flatMap_toList]
  exact makes_forM makes_handle events

theorem exists_of_mem_changesOn {events : List (Event ImageSettings)} {change : Change}
    (h : change ∈ changesOn change? events)
    : ∃ allowed blocked insecure, change = .setRegistryPolicy allowed blocked insecure := by
  obtain ⟨i, -, h⟩ := (mem_changesOn change? events change).mp h
  simp only [change?, Option.ite_none_right_eq_some, Option.some.injEq] at h
  exact ⟨_, _, _, h.2.symm⟩

theorem only_forM_handle (events : List (Event ImageSettings))
    : (events.forM (handle sink)).Only fun change => ¬ change.IsAboutMirrors := by
  apply (makes_forM_handle events).only.imp
  intro change hchange
  obtain ⟨allowed, blocked, insecure, rfl⟩ := exists_of_mem_changesOn hchange
  exact id

def IsAccepted (i : ImageSettings) : Bool :=
  i.name = clusterName && (i.sources.allowed.isEmpty || i.sources.blocked.isEmpty)

def inForce (events : List (Event ImageSettings)) : RegistrySources :=
  ((lastApplied? IsAccepted events).map (·.sources)).getD .none

theorem accessLists_changesOn (events : List (Event ImageSettings))
    : (changesOn change? events).accessLists =
        ⟨(inForce events).allowed, (inForce events).blocked, (inForce events).insecure⟩ := by
  have h (i : ImageSettings) : i.change?.bind Change.accessLists? =
      if i.IsAccepted then some ⟨i.sources.allowed, i.sources.blocked, i.sources.insecure⟩
      else none := by
    unfold change? IsAccepted
    by_cases hname : i.name = clusterName
    . cases i.sources.allowed <;> cases i.sources.blocked <;>
        simp [hname, Change.accessLists?]
    . simp [hname]
  rw [History.accessLists, getLastD_filterMap_changesOn h, inForce]
  cases lastApplied? IsAccepted events <;> rfl

theorem mem_mentioned_changesOn (events : List (Event ImageSettings)) (r : String)
    : r ∈ (changesOn change? events).mentioned ↔
        ∃ i ∈ events.filterMap Event.applied?, i.IsAccepted ∧
          r ∈ i.sources.allowed ++ i.sources.blocked ++ i.sources.insecure := by
  have h (i : ImageSettings) : (∃ change, i.change? = some change ∧ r ∈ change.mentions) ↔
      i.IsAccepted ∧ r ∈ i.sources.allowed ++ i.sources.blocked ++ i.sources.insecure := by
    unfold change? IsAccepted
    by_cases hname : i.name = clusterName
    . cases i.sources.allowed <;> cases i.sources.blocked <;>
        simp [hname, Change.mentions, Change.accessLists?]
    . simp [hname]
  simp only [History.mem_mentioned, mem_changesOn, ← h]
  constructor
  . rintro ⟨change, ⟨i, hi, hchange⟩, hr⟩
    exact ⟨i, hi, change, hchange, hr⟩
  . rintro ⟨i, hi, change, hchange, hr⟩
    exact ⟨change, ⟨i, hi, hchange⟩, hr⟩

end ImageSettings

namespace ConfigMap

theorem makes_handle (e : Event ConfigMap)
    : (handle sink e).Makes (fun _ => True) (e.applied?.bind change?).toList := by
  unfold handle
  cases e.applied? with
  | none => exact makes_pure trivial
  | some o => exact makes_applyChange o.change?

theorem makes_forM_handle (events : List (Event ConfigMap))
    : (events.forM (handle sink)).Makes (fun _ => True) (changesOn change? events) := by
  rw [← flatMap_toList]
  exact makes_forM makes_handle events

theorem exists_of_mem_changesOn {events : List (Event ConfigMap)} {change : Change}
    (h : change ∈ changesOn change? events)
    : ∃ certificates, change = .replaceCertificates certificates := by
  obtain ⟨m, -, h⟩ := (mem_changesOn change? events change).mp h
  simp only [change?, Option.ite_none_right_eq_some, Option.some.injEq] at h
  exact ⟨_, h.2.symm⟩

theorem only_forM_handle (events : List (Event ConfigMap))
    : (events.forM (handle sink)).Only fun change => ¬ change.IsAboutMirrors := by
  apply (makes_forM_handle events).only.imp
  intro change hchange
  obtain ⟨certificates, rfl⟩ := exists_of_mem_changesOn hchange
  exact id

def inForce (events : List (Event ConfigMap)) : List Certificate :=
  ((lastApplied? holdsCertificates events).map (·.certificates)).getD []

theorem certificates_changesOn (events : List (Event ConfigMap))
    : (changesOn change? events).certificates = inForce events := by
  apply getLastD_filterMap_changesOn
  intro m
  unfold change?
  cases m.holdsCertificates <;> rfl

end ConfigMap
end RegistrySync.Cluster
