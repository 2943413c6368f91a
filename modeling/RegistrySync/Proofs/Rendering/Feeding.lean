import RegistrySync.DesiredState
import RegistrySync.Proofs.Cluster.Tracking

/-!
Feeding a desired state to a sink: the changes it consists of, and what comes of them. Nothing but
settings that both allow and block registries is refused.
-/

namespace RegistrySync

/-- Takes changes one after the other; those that are not refused are kept. -/
def History.sink : Sink (StateM History) := fun change made =>
  match (Configuration.after made).apply change with
  | .ok _ => (.ok (), made ++ [change])
  | .error cause => (.error (.refused cause), made)

deriving instance DecidableEq for DesiredState

namespace DesiredState

open Cluster

variable (s : DesiredState)

def settings : List Change :=
  s.mirrorPolicies.flatMap (·.settings)

def imageChange? : Option Change :=
  s.image?.bind (·.change?)

def certificatesChange? : Option Change :=
  s.certificates?.bind (·.change?)

/-- The changes that a desired state consists of, in order. -/
def changes : List Change :=
  s.settings ++ s.imageChange?.toList ++ s.certificatesChange?.toList

/-- The image settings of the cluster allow registries and block others. -/
def Conflicts : Prop :=
  ∃ image, s.image? = some image ∧ image.name = ImageSettings.clusterName ∧
    image.sources.allowed ≠ [] ∧ image.sources.blocked ≠ []

/-! ### The kinds of changes -/

section

variable {s} {change : Change}

theorem exists_of_mem_settings (h : change ∈ s.settings)
    : ∃ registry mirrors, change = .setMirrors registry mirrors := by
  obtain ⟨p, -, hp⟩ := List.mem_flatMap.mp h
  obtain ⟨item, -, rfl⟩ := List.mem_map.mp hp
  exact ⟨_, _, rfl⟩

theorem exists_of_imageChange? (h : s.imageChange? = some change)
    : ∃ image, s.image? = some image ∧ image.name = ImageSettings.clusterName ∧
        change = .setRegistryPolicy image.sources.allowed image.sources.blocked
          image.sources.insecure := by
  obtain ⟨image, himage, hchange⟩ := Option.bind_eq_some_iff.mp h
  unfold ImageSettings.change? at hchange
  split at hchange
  . next hname => exact ⟨image, himage, hname, (Option.some.inj hchange).symm⟩
  . contradiction

theorem exists_of_certificatesChange? (h : s.certificatesChange? = some change)
    : ∃ m, s.certificates? = some m ∧ change = .replaceCertificates m.certificates := by
  obtain ⟨m, hm, hchange⟩ := Option.bind_eq_some_iff.mp h
  unfold ConfigMap.change? at hchange
  split at hchange
  . exact ⟨m, hm, (Option.some.inj hchange).symm⟩
  . contradiction

end

/-! ### Feeding on any sink -/

section

variable {m : Type → Type} [Monad m] [LawfulMonad m] (sink : Sink m)

theorem runOn_applyChange (change? : Option Change)
    : (applyChange Caller.sink change?).runOn sink = applyChange sink change? := by
  cases change? with
  | none => rfl
  | some change =>
    simp only [applyChange, Caller.runOn_bind, Caller.runOn_sink, Caller.runOn_pure]

theorem runOn_feedMirrors (policies : List MirrorPolicy)
    : (feedMirrors Caller.sink policies).runOn sink = feedMirrors sink policies := by
  induction policies with
  | nil => rfl
  | cons p policies ih =>
    simp only [feedMirrors, MirrorPolicy.add, Caller.runOn_bind,
      MirrorTracker.runOn_countAccepted, ih, Caller.runOn_pure]

theorem runOn_feed : (s.feed Caller.sink).runOn sink = s.feed sink := by
  simp only [feed, Caller.runOn_bind, runOn_feedMirrors, runOn_applyChange]
  congr 1
  funext mirrors
  congr 1
  funext image
  cases image with
  | error cause => rfl
  | ok image =>
    simp only [Caller.runOn_bind, runOn_applyChange]
    congr 1
    funext certificates
    cases certificates <;> rfl

end

/-! ### What comes of it -/

/-- No configuration refuses the change. -/
def Welcome (change : Change) : Prop :=
  ∀ c cause, Configuration.apply c change ≠ .error cause

theorem welcome_of_mem_settings {change : Change} (h : change ∈ s.settings) : Welcome change := by
  obtain ⟨registry, mirrors, rfl⟩ := exists_of_mem_settings h
  exact fun _ _ => nofun

theorem welcome_of_certificatesChange? {change : Change} (h : s.certificatesChange? = some change)
    : Welcome change := by
  obtain ⟨m, -, rfl⟩ := exists_of_certificatesChange? h
  exact fun _ _ => nofun

theorem welcome_of_imageChange? {change : Change} (h : s.imageChange? = some change)
    (hconflicts : ¬ s.Conflicts) : Welcome change := by
  obtain ⟨image, himage, hname, rfl⟩ := exists_of_imageChange? h
  intro c cause hrefused
  rw [Configuration.apply_eq_error_iff] at hrefused
  rcases hrefused with ⟨_, _, _, heq, hallowed, hblocked, -⟩ | ⟨_, heq, -⟩
  . injection heq with hallows hblocks
    exact hconflicts ⟨image, himage, hname, hallows ▸ hallowed, hblocks ▸ hblocked⟩
  . contradiction

variable (asked made : List Change)

theorem recorded_sink_of_welcome {change : Change} (h : Welcome change)
    : History.sink.recorded change (asked, made) =
        (.ok (), asked ++ [change], made ++ [change]) := by
  unfold Sink.recorded History.sink
  cases happly : (Configuration.after made).apply change with
  | ok c => simp only [happly]
  | error cause => exact absurd happly (h _ cause)

theorem recorded_sink_of_refused {change : Change} {cause : RegistrySync.Refusal}
    (h : (Configuration.after made).apply change = .error cause)
    : History.sink.recorded change (asked, made) =
        (.error (.refused cause), asked ++ [change], made) := by
  unfold Sink.recorded History.sink
  simp only [h]

theorem bind_of_eq {σ α β : Type} {x : StateM σ α} {f : α → StateM σ β} {s s' : σ} {a : α}
    (h : x s = (a, s')) : (x >>= f) s = f a s' := by
  change (match x s with | (a, s) => f a s) = _
  rw [h]

theorem countAccepted_recorded {changes : List Change} (h : ∀ change ∈ changes, Welcome change)
    : countAccepted History.sink.recorded changes (asked, made) =
        (changes.length, asked ++ changes, made ++ changes) := by
  induction changes generalizing asked made with
  | nil => simp only [countAccepted, List.append_nil]; rfl
  | cons change changes ih =>
    rw [List.forall_mem_cons] at h
    rw [countAccepted, bind_of_eq (recorded_sink_of_welcome asked made h.1),
      bind_of_eq (ih _ _ h.2), ← List.append_cons, ← List.append_cons]
    rfl

theorem feedMirrors_recorded {policies : List MirrorPolicy}
    (h : ∀ change ∈ policies.flatMap (·.settings), Welcome change)
    : feedMirrors History.sink.recorded policies (asked, made) =
        ((policies.flatMap (·.settings)).length, asked ++ policies.flatMap (·.settings),
          made ++ policies.flatMap (·.settings)) := by
  induction policies generalizing asked made with
  | nil => simp only [feedMirrors, List.flatMap_nil, List.append_nil]; rfl
  | cons p policies ih =>
    rw [List.flatMap_cons, List.forall_mem_append] at h
    rw [feedMirrors, MirrorPolicy.add, bind_of_eq (countAccepted_recorded asked made h.1),
      bind_of_eq (ih _ _ h.2), List.flatMap_cons, List.length_append, List.append_assoc,
      List.append_assoc]
    rfl

theorem applyChange_recorded {change? : Option Change}
    (h : ∀ change, change? = some change → Welcome change)
    : applyChange History.sink.recorded change? (asked, made) =
        (.ok change?.isSome, asked ++ change?.toList, made ++ change?.toList) := by
  cases change? with
  | none => simp only [applyChange, Option.toList, List.append_nil]; rfl
  | some change =>
    rw [applyChange, bind_of_eq (recorded_sink_of_welcome asked made (h change rfl))]
    rfl

theorem feedMirrors_mirrorPolicies
    : feedMirrors History.sink.recorded s.mirrorPolicies ([], []) =
        (s.settings.length, s.settings, s.settings) :=
  feedMirrors_recorded [] [] fun _ => s.welcome_of_mem_settings

theorem feed_recorded (hconflicts : ¬ s.Conflicts)
    : s.feed History.sink.recorded ([], []) = (.ok s.changes.length, s.changes, s.changes) := by
  have himage := applyChange_recorded s.settings s.settings
    fun _ h => s.welcome_of_imageChange? h hconflicts
  have hcertificates := applyChange_recorded (s.settings ++ s.imageChange?.toList)
    (s.settings ++ s.imageChange?.toList) fun _ => s.welcome_of_certificatesChange?
  have hcount : s.changes.length =
      s.settings.length + s.imageChange?.isSome.toNat + s.certificatesChange?.isSome.toNat := by
    unfold changes
    cases s.imageChange? <;> cases s.certificatesChange? <;> simp
  rw [hcount]
  apply (bind_of_eq s.feedMirrors_mirrorPolicies).trans
  apply (bind_of_eq himage).trans
  exact bind_of_eq hcertificates

variable {s} in
theorem Conflicts.imageChange? (h : s.Conflicts)
    : ∃ allowed blocked insecure,
        s.imageChange? = some (.setRegistryPolicy allowed blocked insecure) ∧
          ∀ c : Configuration, c.apply (.setRegistryPolicy allowed blocked insecure) =
            .error .allowedAndBlocked := by
  obtain ⟨image, himage, hname, hallowed, hblocked⟩ := h
  refine ⟨image.sources.allowed, image.sources.blocked, image.sources.insecure, ?_, ?_⟩
  . rw [DesiredState.imageChange?, himage, Option.bind_some, ImageSettings.change?, if_pos hname]
  . intro c
    exact (c.apply_eq_error_iff _ _).mpr (.inl ⟨_, _, _, rfl, hallowed, hblocked, rfl⟩)

theorem feed_recorded_of_conflicts (hconflicts : s.Conflicts)
    : s.feed History.sink.recorded ([], []) =
        (.error (.image (.refused .allowedAndBlocked)), s.settings ++ s.imageChange?.toList,
          s.settings) := by
  obtain ⟨allowed, blocked, insecure, hchange, hrefused⟩ := hconflicts.imageChange?
  have hasked : applyChange History.sink.recorded s.imageChange? (s.settings, s.settings) =
      (.error (.refused .allowedAndBlocked), s.settings ++ s.imageChange?.toList, s.settings) := by
    rw [hchange]
    exact bind_of_eq (recorded_sink_of_refused s.settings s.settings (hrefused _))
  apply (bind_of_eq s.feedMirrors_mirrorPolicies).trans
  exact bind_of_eq hasked

variable {s} in
theorem Conflicts.changes_ne_nil (h : s.Conflicts) : s.changes ≠ [] := by
  obtain ⟨allowed, blocked, insecure, hchange, -⟩ := h.imageChange?
  simp [changes, hchange]

/-- The end of a feeding: its value, the changes that were asked for, and those that were made. -/
theorem feed_recorded_cases
    : (¬ s.Conflicts ∧
        s.feed History.sink.recorded ([], []) = (.ok s.changes.length, s.changes, s.changes)) ∨
      (s.Conflicts ∧ ∃ asked made, asked <+: s.changes ∧ made <+: s.changes ∧
        s.feed History.sink.recorded ([], []) =
          (.error (.image (.refused .allowedAndBlocked)), asked, made)) := by
  by_cases hconflicts : s.Conflicts
  . refine .inr ⟨hconflicts, _, _, ?_, ?_, s.feed_recorded_of_conflicts hconflicts⟩
    . exact List.prefix_append _ _
    . rw [changes, List.append_assoc]
      exact List.prefix_append _ _
  . exact .inl ⟨hconflicts, s.feed_recorded hconflicts⟩

/-- The number that a feeding ends with is that of the changes that were made. -/
theorem count_of_feed_recorded {count : Nat}
    (h : (s.feed History.sink.recorded ([], [])).1 = .ok count)
    : count = (s.feed History.sink.recorded ([], [])).2.2.length := by
  rcases s.feed_recorded_cases with ⟨-, hfate⟩ | ⟨-, asked, made, -, -, hfate⟩
  . rw [hfate] at h ⊢
    exact (Except.ok.inj h).symm
  . rw [hfate] at h
    contradiction

end DesiredState

/-- What has been asked for and what has been made stays. -/
theorem Caller.runOn_recorded_extends {α : Type} (c : Caller α) (asked made : List Change)
    : asked <+: (c.runOn History.sink.recorded (asked, made)).2.1 ∧
        made <+: (c.runOn History.sink.recorded (asked, made)).2.2 := by
  induction c generalizing asked made with
  | done a => exact ⟨List.prefix_rfl, List.prefix_rfl⟩
  | ask change resume ih =>
    have hmade : made <+: (History.sink change made).2 := by
      unfold History.sink
      split
      . exact List.prefix_append made [change]
      . exact List.prefix_rfl
    obtain ⟨hasked, hmade'⟩ := ih (History.sink change made).1 (asked ++ [change])
      (History.sink change made).2
    exact ⟨(List.prefix_append asked [change]).trans hasked, hmade.trans hmade'⟩

end RegistrySync
