import RegistrySync.Cluster.MirrorTracker
import RegistrySync.Proofs.Caller
import RegistrySync.Proofs.Configuration.Mirrors

/-!
What a mirror tracker does on an event: the changes it makes and the policies it then tracks.
Neither depends on the results of the changes. The policies that have vanished when a relist ends
may be dropped in any order.
-/

namespace RegistrySync.Cluster

def Event.object? {α : Type} : Event α → Option α
  | apply object | delete object | initApply object => some object
  | init | initDone => none

theorem Event.mem_objects_of_applied {α : Type} {o : α} {events : List (Event α)}
    (ho : o ∈ events.filterMap applied?) : o ∈ events.filterMap object? := by
  obtain ⟨e, he, ho⟩ := List.mem_filterMap.mp ho
  refine List.mem_filterMap.mpr ⟨e, he, ?_⟩
  cases e with
  | apply object => exact ho
  | initApply object => exact ho
  | _ => contradiction

namespace MirrorPolicy

variable (p : MirrorPolicy) (r : String)

def Lists : Prop := ∃ item ∈ p.sources, item.source = r

instance : Decidable (p.Lists r) :=
  inferInstanceAs (Decidable (∃ item ∈ p.sources, item.source = r))

/-- The mirrors of the last item for a source. -/
def mirrors? : Option (List String) :=
  (p.sources.filter (·.source = r)).getLast?.map (·.mirrors)

theorem lists_congr {p q : MirrorPolicy} (h : p.sources = q.sources) (r : String)
    : p.Lists r ↔ q.Lists r := by
  rw [Lists, h, Lists]

theorem mirrors?_congr {p q : MirrorPolicy} (h : p.sources = q.sources) (r : String)
    : p.mirrors? r = q.mirrors? r := by
  rw [mirrors?, h, mirrors?]

theorem mirrors?_ne_none_iff : p.mirrors? r ≠ none ↔ p.Lists r := by
  simp [mirrors?, Lists]

theorem written?_map_sources {change : MirrorSource → Change} {left : MirrorSource → List String}
    (h : ∀ item, (change item).mirrors? r = if item.source = r then some (left item) else none)
    : History.written? (p.sources.map change) r =
        (p.sources.filter (·.source = r)).getLast?.map left := by
  unfold History.written?
  rw [← List.getLast?_map, List.filterMap_map]
  congr 1
  induction p.sources with
  | nil => rfl
  | cons item items ih => by_cases hitem : item.source = r <;> simp_all

theorem written?_settings : History.written? p.settings r = p.mirrors? r :=
  p.written?_map_sources r fun _ => rfl

theorem written?_clearings : History.written? p.clearings r = (p.mirrors? r).map fun _ => [] := by
  rw [mirrors?, Option.map_map]
  exact p.written?_map_sources r fun _ => rfl

end MirrorPolicy

/-! ### The changes on an event -/

/-- An order in which names may be visited, as what becomes of a list of them. -/
structure Arrangement where
  arrange : List String → List String
  perm : ∀ names, (arrange names).Perm names

def Arrangement.sorted : Arrangement := ⟨id, fun _ => .rfl⟩

namespace MirrorTracker

/-- Handles an event; if a relist ends, the vanished policies are dropped in the given order. -/
def handleBy {m : Type → Type} [Monad m] (sink : Sink m) (order : Arrangement)
    (t : MirrorTracker) : Event MirrorPolicy → m MirrorTracker
  | .initDone => match t.relisted with
    | none => return t
    | some relisted => t.finishRelistIn sink (order.arrange (t.vanished relisted))
  | e => t.handle sink e

theorem handleBy_sorted {m : Type → Type} [Monad m] (sink : Sink m) (t : MirrorTracker)
    (e : Event MirrorPolicy) : t.handleBy sink .sorted e = t.handle sink e := by
  cases e <;> rfl

def changesOfApply (t : MirrorTracker) (p : MirrorPolicy) : List Change :=
  match t.known[p.name]? with
  | none => p.settings
  | some previous =>
    if previous.sources = p.sources then [] else previous.clearings ++ p.settings

def clearingsOf (t : MirrorTracker) (names : List String) : List Change :=
  names.flatMap fun name => (t.known[name]?.map (·.clearings)).getD []

def changes (t : MirrorTracker) (order : Arrangement) : Event MirrorPolicy → List Change
  | .apply p | .initApply p => t.changesOfApply p
  | .delete p => p.clearings
  | .init => []
  | .initDone => match t.relisted with
    | none => []
    | some relisted => t.clearingsOf (order.arrange (t.vanished relisted))

theorem mem_clearingsOf {t : MirrorTracker} {names : List String} {change : Change}
    : change ∈ t.clearingsOf names ↔
        ∃ name ∈ names, ∃ p, t.known[name]? = some p ∧ change ∈ p.clearings := by
  rw [clearingsOf, List.mem_flatMap]
  constructor
  . rintro ⟨name, hname, hchange⟩
    cases hp : t.known[name]? with
    | none => simp [hp] at hchange
    | some p => exact ⟨name, hname, p, hp, by simpa [hp] using hchange⟩
  . rintro ⟨name, hname, p, hp, hchange⟩
    exact ⟨name, hname, by simpa [hp] using hchange⟩

/-- What is tracked after an event. -/
def track (t : MirrorTracker) : Event MirrorPolicy → MirrorTracker
  | .apply p => { t with known := t.known.insert p.name p }
  | .initApply p => ⟨t.known.insert p.name p, t.relisted.map fun names => names ++ [p.name]⟩
  | .delete p => { t with known := t.known.erase p.name }
  | .init => { t with relisted := some [] }
  | .initDone => match t.relisted with
    | none => t
    | some relisted => ⟨t.known.filter fun name _ => relisted.contains name, none⟩

/-- Policies are tracked under their names. -/
def Named (t : MirrorTracker) : Prop :=
  ∀ (name : String) (p : MirrorPolicy), t.known[name]? = some p → p.name = name

theorem named_empty : empty.Named := by
  simp [Named, empty]

variable {t : MirrorTracker}

theorem Named.insert (h : t.Named) (p : MirrorPolicy) (relisted : Option (List String))
    : Named ⟨t.known.insert p.name p, relisted⟩ := by
  intro name q
  rw [Std.ExtTreeMap.getElem?_insert]
  split
  . next heq =>
    rintro ⟨⟩
    exact Std.LawfulEqOrd.compare_eq_iff_eq.mp heq
  . exact h name q

theorem Named.erase (h : t.Named) (name : String)
    : Named { t with known := t.known.erase name } := by
  intro other q
  simp only [Std.ExtTreeMap.getElem?_erase, Option.ite_none_left_eq_some]
  exact fun hq => h other q hq.2

theorem getElem?_track_initDone {relisted : List String} (hrelisted : t.relisted = some relisted)
    (name : String)
    : (t.track .initDone).known[name]? = if name ∈ relisted then t.known[name]? else none := by
  simp only [track, hrelisted, Std.ExtTreeMap.getElem?_filter, Std.ExtTreeMap.getKey_eq,
    List.contains_eq_mem]
  cases t.known[name]? <;> by_cases hname : name ∈ relisted <;> simp [hname]

theorem Named.track (h : t.Named) (e : Event MirrorPolicy) : (t.track e).Named := by
  cases e with
  | apply p => exact h.insert p _
  | initApply p => exact h.insert p _
  | delete p => exact h.erase p.name
  | init => exact h
  | initDone =>
    cases hrelisted : t.relisted with
    | none =>
      rw [MirrorTracker.track, hrelisted]
      exact h
    | some relisted =>
      intro name p hp
      rw [getElem?_track_initDone hrelisted, Option.ite_none_right_eq_some] at hp
      exact h name p hp.2

theorem getElem?_track (t : MirrorTracker) (e : Event MirrorPolicy) {name : String}
    {p : MirrorPolicy} (hp : (t.track e).known[name]? = some p)
    : t.known[name]? = some p ∨ e.applied? = some p := by
  have hinsert {q : MirrorPolicy} (hq : (t.known.insert q.name q)[name]? = some p) :
      t.known[name]? = some p ∨ some q = some p := by
    rw [Std.ExtTreeMap.getElem?_insert] at hq
    split at hq
    . exact .inr hq
    . exact .inl hq
  cases e with
  | apply q => exact hinsert hp
  | initApply q => exact hinsert hp
  | delete q =>
    simp only [track, Std.ExtTreeMap.getElem?_erase, Option.ite_none_left_eq_some] at hp
    exact .inl hp.2
  | init => exact .inl hp
  | initDone =>
    cases hrelisted : t.relisted with
    | none =>
      rw [track, hrelisted] at hp
      exact .inl hp
    | some relisted =>
      rw [getElem?_track_initDone hrelisted, Option.ite_none_right_eq_some] at hp
      exact .inl hp.2

theorem mem_vanished (relisted : List String) (name : String)
    : name ∈ t.vanished relisted ↔ t.known[name]? ≠ none ∧ name ∉ relisted := by
  simp [vanished, Std.ExtTreeMap.mem_keys]

theorem nodup_vanished (t : MirrorTracker) (relisted : List String)
    : (t.vanished relisted).Nodup := by
  apply List.Nodup.filter
  apply Std.ExtTreeMap.distinct_keys.imp
  simp

/-! ### The handlers make these changes -/

open Caller

theorem makes_countAccepted (changes : List Change)
    : (countAccepted sink changes).Makes (fun _ => True) changes := by
  induction changes with
  | nil => exact makes_pure trivial
  | cons change changes ih =>
    have hrest (result : Except SinkError Unit) :
        Makes (fun _ => True) (do
          let count ← countAccepted sink changes
          return if result.isOk then count + 1 else count) (changes ++ []) :=
      ih.bind fun _ _ => makes_pure trivial
    rw [List.append_nil] at hrest
    exact (makes_sink change).bind fun result _ => hrest result

theorem runOn_countAccepted {m : Type → Type} [Monad m] [LawfulMonad m] (target : Sink m)
    (changes : List Change)
    : (countAccepted sink changes).runOn target = countAccepted target changes := by
  induction changes with
  | nil => rfl
  | cons change changes ih =>
    simp only [countAccepted, runOn_bind, runOn_sink, ih, runOn_pure]

theorem makes_add (p : MirrorPolicy) : (p.add sink).Makes (fun _ => True) p.settings :=
  makes_countAccepted p.settings

theorem makes_update (old new : MirrorPolicy)
    : (MirrorPolicy.update sink old new).Makes (fun _ => True) (old.clearings ++ new.settings) :=
  (makes_countAccepted old.clearings).bind fun _ _ => makes_add new

theorem makes_apply (t : MirrorTracker) (p : MirrorPolicy)
    : (t.apply sink p).Makes (· = { t with known := t.known.insert p.name p })
        (t.changesOfApply p) := by
  have hdone {made : List Change} {c : Caller Nat} (h : c.Makes (fun _ => True) made) :
      (do let _ ← c; return { t with known := t.known.insert p.name p } : Caller _).Makes
        (· = { t with known := t.known.insert p.name p }) made := by
    rw [← List.append_nil made]
    exact h.bind fun _ _ => makes_pure rfl
  unfold MirrorTracker.apply changesOfApply
  cases t.known[p.name]? with
  | none => exact hdone (makes_add p)
  | some previous =>
    by_cases hsame : previous.sources = p.sources
    . simp only [hsame, ne_eq, not_true_eq_false, if_false, if_true]
      exact makes_pure rfl
    . simp only [hsame, ne_eq, not_false_eq_true, if_false, if_true]
      exact hdone (makes_update previous p)

theorem makes_delete (t : MirrorTracker) (p : MirrorPolicy)
    : (t.delete sink p).Makes (· = { t with known := t.known.erase p.name }) p.clearings := by
  rw [← List.append_nil p.clearings]
  exact (makes_countAccepted p.clearings).bind fun _ _ => makes_pure rfl

theorem makes_forget (h : t.Named) (name : String)
    : (t.forget sink name).Makes (· = { t with known := t.known.erase name })
        (t.clearingsOf [name]) := by
  unfold forget clearingsOf
  cases hname : t.known[name]? with
  | none =>
    have : t.known.erase name = t.known := by
      apply Std.ExtTreeMap.ext_getElem?
      intro other
      rw [Std.ExtTreeMap.getElem?_erase]
      split
      . next heq => rw [← Std.LawfulEqOrd.compare_eq_iff_eq.mp heq, hname]
      . rfl
    rw [this, List.flatMap_singleton, hname]
    exact makes_pure rfl
  | some p =>
    have hdelete := makes_delete t p
    rw [h name p hname] at hdelete
    rw [List.flatMap_singleton, hname]
    exact hdelete

theorem clearingsOf_erase {name : String} {names : List String} (hname : name ∉ names)
    : clearingsOf { t with known := t.known.erase name } names = t.clearingsOf names := by
  apply List.flatMap_congr
  intro other hother
  have hne : name ≠ other := by
    rintro rfl
    exact hname hother
  simp [Std.ExtTreeMap.getElem?_erase, hne]

theorem makes_foldlM_forget (h : t.Named) {names : List String} (hnames : names.Nodup)
    : (names.foldlM (forget sink) t).Makes
        (· = { t with known := names.foldl (fun known name => known.erase name) t.known })
        (t.clearingsOf names) := by
  induction names generalizing t with
  | nil => exact makes_pure rfl
  | cons name names ih =>
    rw [List.nodup_cons] at hnames
    rw [List.foldlM_cons, ← List.singleton_append, clearingsOf, List.flatMap_append]
    apply (makes_forget h name).bind
    rintro _ rfl
    rw [← clearingsOf, ← clearingsOf_erase hnames.1]
    exact ih (h.erase name) hnames.2

theorem getElem?_foldl_erase (known : Std.ExtTreeMap String MirrorPolicy) (names : List String)
    (name : String)
    : (names.foldl (fun known name => known.erase name) known)[name]? =
        if name ∈ names then none else known[name]? := by
  induction names generalizing known with
  | nil => simp
  | cons other names ih =>
    rw [List.foldl_cons, ih, Std.ExtTreeMap.getElem?_erase]
    by_cases heq : other = name
    . simp [heq]
    . simp [heq, Ne.symm heq]

theorem foldl_erase_vanished {relisted : List String} (hrelisted : t.relisted = some relisted)
    (order : Arrangement)
    : (order.arrange (t.vanished relisted)).foldl (fun known name => known.erase name) t.known =
        (t.track .initDone).known := by
  apply Std.ExtTreeMap.ext_getElem?
  intro name
  simp only [getElem?_foldl_erase, getElem?_track_initDone hrelisted, (order.perm _).mem_iff,
    mem_vanished]
  by_cases hname : name ∈ relisted
  . simp [hname]
  . cases t.known[name]? <;> simp [hname]

theorem makes_handleBy (h : t.Named) (order : Arrangement) (e : Event MirrorPolicy)
    : (t.handleBy sink order e).Makes (· = t.track e) (t.changes order e) := by
  cases e with
  | apply p => exact makes_apply t p
  | initApply p =>
    exact makes_apply { t with relisted := t.relisted.map fun names => names ++ [p.name] } p
  | delete p => exact makes_delete t p
  | init => exact makes_pure rfl
  | initDone =>
    unfold handleBy changes
    cases hrelisted : t.relisted with
    | none =>
      rw [track, hrelisted]
      exact makes_pure rfl
    | some relisted =>
      have hnames := (order.perm (t.vanished relisted)).nodup_iff.mpr (nodup_vanished t relisted)
      have hmakes := makes_foldlM_forget (t := { t with relisted := none }) h hnames
      rw [foldl_erase_vanished hrelisted, track, hrelisted] at hmakes
      rw [track, hrelisted]
      exact hmakes

/-! ### Streams of events -/

def trackAll (t : MirrorTracker) (events : List (Event MirrorPolicy)) : MirrorTracker :=
  events.foldl track t

theorem trackAll_concat (t : MirrorTracker) (events : List (Event MirrorPolicy))
    (e : Event MirrorPolicy) : t.trackAll (events ++ [e]) = (t.trackAll events).track e :=
  List.foldl_append

theorem Named.trackAll (h : t.Named) (events : List (Event MirrorPolicy))
    : (t.trackAll events).Named := by
  induction events generalizing t with
  | nil => exact h
  | cons e events ih => exact ih (h.track e)

theorem mem_applied_of_trackAll (events : List (Event MirrorPolicy)) {name : String}
    {p : MirrorPolicy} (hp : (empty.trackAll events).known[name]? = some p)
    : p ∈ events.filterMap Event.applied? := by
  induction events using List.reverseRecOn with
  | nil => simp [trackAll, empty] at hp
  | append_singleton events e ih =>
    rw [trackAll_concat] at hp
    rw [Sequence.filterMap_concat, List.mem_append, Option.mem_toList]
    exact (getElem?_track (empty.trackAll events) e hp).imp_left ih

theorem mem_objects_of_trackAll (events : List (Event MirrorPolicy)) {name : String}
    {p : MirrorPolicy} (hp : (empty.trackAll events).known[name]? = some p)
    : p ∈ events.filterMap Event.object? :=
  Event.mem_objects_of_applied (mem_applied_of_trackAll events hp)

/-- The changes on a stream of events, each of which has an order of its own. -/
inductive Emits (t : MirrorTracker) : List (Event MirrorPolicy) → List Change → Prop where
  | nil : Emits t [] []
  | next {events : List (Event MirrorPolicy)} {made : List Change} (h : Emits t events made)
      (order : Arrangement) (e : Event MirrorPolicy) :
      Emits t (events ++ [e]) (made ++ (t.trackAll events).changes order e)

variable {events : List (Event MirrorPolicy)} {made : List Change}

theorem Emits.of_nil (h : t.Emits [] made) : made = [] := by
  generalize hall : ([] : List (Event MirrorPolicy)) = all at h
  cases h with
  | nil => rfl
  | next _ _ _ => simp at hall

theorem Emits.of_concat {e : Event MirrorPolicy} (h : t.Emits (events ++ [e]) made)
    : ∃ order before, t.Emits events before ∧
        made = before ++ (t.trackAll events).changes order e := by
  generalize hall : events ++ [e] = all at h
  cases h with
  | nil => simp at hall
  | next h order last =>
    obtain ⟨rfl, hlast⟩ := List.append_inj' hall rfl
    injection hlast with hlast
    subst hlast
    exact ⟨order, _, h, rfl⟩

/-- The changes on a stream of events, if all have the same order. -/
def changesAll (t : MirrorTracker) (order : Arrangement) : List (Event MirrorPolicy) → List Change
  | [] => []
  | e :: events => t.changes order e ++ (t.track e).changesAll order events

theorem changesAll_concat (t : MirrorTracker) (order : Arrangement)
    (events : List (Event MirrorPolicy)) (e : Event MirrorPolicy)
    : t.changesAll order (events ++ [e]) =
        t.changesAll order events ++ (t.trackAll events).changes order e := by
  induction events generalizing t with
  | nil => simp [changesAll, trackAll]
  | cons first events ih =>
    rw [List.cons_append, changesAll, ih, changesAll, List.append_assoc]
    rfl

theorem emits_changesAll (t : MirrorTracker) (order : Arrangement)
    (events : List (Event MirrorPolicy)) : t.Emits events (t.changesAll order events) := by
  induction events using List.reverseRecOn with
  | nil => exact .nil
  | append_singleton events e ih =>
    rw [changesAll_concat]
    exact ih.next order e

end MirrorTracker
end RegistrySync.Cluster
