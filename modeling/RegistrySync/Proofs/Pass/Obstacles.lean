import RegistrySync.Proofs.Pass.Failure
import RegistrySync.Proofs.Pass.Frame
import RegistrySync.Proofs.TrustStore.Acceptance

/-!
What keeps a pass from completing if all its paths can be used: something that stands in the way of
an artifact before the pass starts, and nothing else. Passes put nothing in each other's way. A path
that is too long as a whole cannot be used whatever stands where.
-/

namespace RegistrySync

/-- The destinations are made of names that the system accepts, and apart from one another. The
paths of the two files do not end in a slash, as those of directories may. -/
structure Destinations.Ordinary (d : Destinations) : Prop where
  registriesConf : d.registriesConf.IsOrdinary
  policyJson : d.policyJson.IsOrdinary
  certsDir : d.certsDir.IsOrdinary
  registriesSlash : d.registriesConf.endsInSlash = false
  policySlash : d.policyJson.endsInSlash = false
  registriesApartPolicy : d.registriesConf.location.Apart d.policyJson.location
  registriesApartCerts : d.registriesConf.location.Apart d.certsDir.location
  policyApartCerts : d.policyJson.location.Apart d.certsDir.location

/-- The system takes the whole paths as well. -/
structure Destinations.Usable (d : Destinations) : Prop extends d.Ordinary where
  registriesShort : d.registriesConf.isTooLong = false
  policyShort : d.policyJson.isTooLong = false
  certsShort : d.certsDir.isTooLong = false

/-- The system takes the names of the folders of all certificates and the paths of their files. -/
abbrev Destinations.Accepts (d : Destinations) (c : Configuration) : Prop :=
  ∀ k ∈ c.certificates, TrustStore.Accepts ⟨d.certsDir⟩ k

namespace Destinations.Usable

variable {d : Destinations} (hd : d.Usable)
include hd

theorem isUsable_registriesConf : d.registriesConf.IsUsable :=
  ⟨hd.registriesConf, hd.registriesShort⟩

theorem isUsable_policyJson : d.policyJson.IsUsable :=
  ⟨hd.policyJson, hd.policyShort⟩

theorem isUsable_certsDir : d.certsDir.IsUsable :=
  ⟨hd.certsDir, hd.certsShort⟩

end Destinations.Usable

def Stage.earlier : Stage → List Stage
  | registries => []
  | policy => [registries]
  | certCleanup => [registries, policy]
  | certWrite => [registries, policy, certCleanup]

theorem Stage.earlier_total (s s' : Stage) : s ∈ s'.earlier ∨ s = s' ∨ s' ∈ s.earlier := by
  cases s <;> cases s' <;> decide

namespace Pass

open FileTree (Entry Spares)

variable {t u v : FileTree} {c : Configuration} {d : Destinations} {stage : Stage}

/-- What is in the way of the artifact of a stage: a file above it, a directory in the place of a
file, or a file in the place of the folder of certificates. -/
def Obstacle (d : Destinations) (t : FileTree) : Stage → Location → Prop
  | .registries => t.Blocks Entry.isDirectory d.registriesConf.location
  | .policy => t.Blocks Entry.isDirectory d.policyJson.location
  | .certCleanup => t.Blocks Entry.isFile d.certsDir.location
  | .certWrite => fun _ => False

def Obstructed (d : Destinations) (t : FileTree) (stage : Stage) : Prop :=
  ∃ l, Obstacle d t stage l

/-- The tree after passes over some configurations, whether they completed or not. -/
def after (d : Destinations) (configurations : List Configuration) (t : FileTree) : FileTree :=
  configurations.foldl (fun t c => (run c d t).2) t

/-- What becomes of the artifacts themselves is known well enough. -/
theorem Course.artifacts {outcome : Except Failure Summary} (h : Course c d t u outcome)
    (hd : d.Suit t)
    : (u.entry? d.registriesConf.location = t.entry? d.registriesConf.location ∨
        ∃ content, u.entry? d.registriesConf.location = some (.file content)) ∧
      (u.entry? d.policyJson.location = t.entry? d.policyJson.location ∨
        ∃ content, u.entry? d.policyJson.location = some (.file content)) ∧
      (u.entry? d.certsDir.location = t.entry? d.certsDir.location ∨
        ∀ content, u.entry? d.certsDir.location ≠ some (.file content)) := by
  cases outcome with
  | error f =>
    have hstopped := h.stoppedAt hd
    obtain ⟨stage, e⟩ := f
    cases stage with
    | registries =>
      obtain ⟨hregistries, hpolicy, hcerts⟩ := hstopped
      exact ⟨.inl hregistries, .inl hpolicy, .inl (hcerts [])⟩
    | policy =>
      obtain ⟨hregistries, hpolicy, hcerts⟩ := hstopped
      exact ⟨.inr ⟨_, hregistries⟩, .inl hpolicy, .inl (hcerts [])⟩
    | certCleanup =>
      obtain ⟨hregistries, hpolicy, hcerts⟩ := hstopped
      exact ⟨.inr ⟨_, hregistries⟩, .inr ⟨_, hpolicy⟩, .inl (hcerts [])⟩
    | certWrite =>
      obtain ⟨hregistries, hpolicy, _, _, _, _, _, -, -, -, -, -, hstopped⟩ := hstopped
      exact ⟨.inr ⟨_, hregistries⟩, .inr ⟨_, hpolicy⟩, .inr hstopped.root_ne_file⟩
  | ok summary =>
    cases h with
    | @completed filing cleared filed clears layout spares =>
      have hkept : ∀ {l}, l.Apart d.certsDir.location → u.entry? l = filing.entry? l := by
        intro l hapart
        rw [spares.eq_of_not hapart.2 hapart.1, clears, if_neg hapart.2]
      refine ⟨.inr ⟨_, (hkept hd.registriesApartCerts).trans filed.registriesConf⟩,
        .inr ⟨_, (hkept hd.policyApartCerts).trans filed.policyJson⟩, .inr ?_⟩
      intro content hfile
      exact TrustStore.layout_nil_ne_file c.certificates content ((layout []).symm.trans hfile)

section

variable (hd : d.Usable) (hlinks : t.NoLinks)
include hd hlinks

theorem suit_of_noLinks : d.Suit t where
  registriesConf := hd.registriesConf.plain
  policyJson := hd.policyJson.plain
  certsDir := hd.certsDir.plain
  registriesApartPolicy := hd.registriesApartPolicy
  registriesApartCerts := hd.registriesApartCerts
  policyApartCerts := hd.policyApartCerts
  registriesLinkFree := fun m target _ => hlinks m target
  policyLinkFree := fun m target _ => hlinks m target
  certsLinkFree := fun m target _ => hlinks m target
  certsSlash := fun _ m target _ => hlinks m target

/-! ### The stages one by one -/

theorem exists_registries_iff
    : (∃ u, Action.runAll (Action.writing d.registriesConf c.registries.toToml) t = (.ok (), u)) ↔
        ¬ Obstructed d t .registries := by
  rw [Action.exists_runAll_writing_iff hlinks hd.isUsable_registriesConf hd.registriesSlash
    hd.registriesApartPolicy.ne_nil, Obstructed, not_exists]
  rfl

theorem exists_policy_iff
    : (∃ u, Action.runAll (Action.writing d.policyJson c.policy.toJson) t = (.ok (), u)) ↔
        ¬ Obstructed d t .policy := by
  rw [Action.exists_runAll_writing_iff hlinks hd.isUsable_policyJson hd.policySlash
    hd.registriesApartPolicy.symm.ne_nil, Obstructed, not_exists]
  rfl

theorem exists_removeTree_iff
    : (∃ u, t.removeTree d.certsDir = (.ok (), u)) ↔ ¬ Obstructed d t .certCleanup := by
  have hne := hd.registriesApartCerts.symm.ne_nil
  rw [FileTree.exists_removeTree_iff hlinks hd.isUsable_certsDir hne,
    FileTree.fileFree_iff_not_blocks hne, Obstructed, not_exists]
  rfl

theorem exists_clearing_iff
    : (∃ u, Action.runAll (TrustStore.clearing ⟨d.certsDir⟩) t = (.ok (), u)) ↔
        ¬ Obstructed d t .certCleanup := by
  rw [← exists_removeTree_iff hd hlinks]
  constructor
  . rintro ⟨u, h⟩
    obtain ⟨v, hremove, -⟩ := Action.runAll_cons_eq_ok_iff.mp h
    exact ⟨v, hremove⟩
  . rintro ⟨u, hremove⟩
    exact ⟨u, Action.runAll_cons_eq_ok_iff.mpr ⟨u, hremove, rfl⟩⟩

/-- The first file is not in the way of the second one, nor are the directories above it. -/
theorem obstructed_policy_iff
    (h : Action.runAll (Action.writing d.registriesConf c.registries.toToml) t = (.ok (), u))
    : Obstructed d u .policy ↔ Obstructed d t .policy := by
  have hspares := Action.spares_of_writing hd.registriesConf.plain
    hd.registriesApartPolicy.ne_nil (fun m target _ => hlinks m target) h
  have hoff : ∀ m, m <:+ d.policyJson.location → m ≠ d.policyJson.location →
      ¬ m = d.registriesConf.location := by
    rintro m hm - rfl
    exact hd.registriesApartPolicy.1 hm
  have hend : u.entry? d.policyJson.location = t.entry? d.policyJson.location :=
    hspares.eq_of_not hd.registriesApartPolicy.symm.ne hd.registriesApartPolicy.2
  constructor
  . rintro ⟨l, hl⟩
    exact ⟨l, FileTree.Blocks.before hspares hoff hl (hend ▸ id)⟩
  . rintro ⟨l, hl⟩
    exact ⟨l, FileTree.Blocks.after hspares hoff hl (hend ▸ id)⟩

/-- The two files are not in the way of the folder of certificates. -/
theorem obstructed_certCleanup_iff (h : Filed c d t u)
    : Obstructed d u .certCleanup ↔ Obstructed d t .certCleanup := by
  have hoff : ∀ m, m <:+ d.certsDir.location → m ≠ d.certsDir.location →
      ¬ (m = d.registriesConf.location ∨ m = d.policyJson.location) := by
    rintro m hm - (rfl | rfl)
    . exact hd.registriesApartCerts.1 hm
    . exact hd.policyApartCerts.1 hm
  have hend : u.entry? d.certsDir.location = t.entry? d.certsDir.location :=
    h.certsDir (suit_of_noLinks hd hlinks) []
  constructor
  . rintro ⟨l, hl⟩
    exact ⟨l, FileTree.Blocks.before h.spares hoff hl (hend ▸ id)⟩
  . rintro ⟨l, hl⟩
    exact ⟨l, FileTree.Blocks.after h.spares hoff hl (hend ▸ id)⟩

/-- Certificates do not get in each other's way, nor does the cleaning up before. -/
theorem exists_writingAll (haccepted : d.Accepts c)
    (hfree : ¬ Obstructed d t .certCleanup) (h : Cleared d t u)
    : ∃ v, Action.runAll (TrustStore.writingAll ⟨d.certsDir⟩ c.certificates) u = (.ok (), v) := by
  have habove : t.FileFree d.certsDir.location.tail := by
    rw [← exists_removeTree_iff hd hlinks, FileTree.exists_removeTree_iff hlinks
      hd.isUsable_certsDir hd.registriesApartCerts.symm.ne_nil] at hfree
    exact hfree.mono (List.tail_suffix _)
  have hspares : Spares (d.certsDir.location <:+ ·) (fun _ => False) t u := h.spares
  exact TrustStore.exists_runAll_writingAll hd.certsDir haccepted (List.forall_mem_nil _)
    (hlinks.of_linksFrom h.linksFrom)
    ((TrustStore.holds_iff_hasLayout (List.forall_mem_nil _)).mpr h.hasLayout)
    (hspares.fileFree_tail habove)

/-! ### A whole pass -/

theorem not_obstructed_of_completed {summary : Summary} (h : run c d t = (.ok summary, u))
    : ∀ stage, ¬ Obstructed d t stage := by
  obtain ⟨t₁, t₂, t₃, hregistries, hpolicy, hremove, -⟩ :=
    exists_of_runStages (runStages_of_run h).2
  have hsuit := suit_of_noLinks hd hlinks
  have hfiled := filed_of_runAll hsuit hregistries hpolicy
  have hlinks₁ : t₁.NoLinks := hlinks.of_linksFrom (Action.WritesFile.of_runAll_writing
    hd.registriesConf.plain hd.registriesApartPolicy.ne_nil hsuit.registriesLinkFree
    hregistries).linksFrom
  intro stage
  cases stage with
  | registries => exact (exists_registries_iff hd hlinks).mp ⟨t₁, hregistries⟩
  | policy =>
    rw [← obstructed_policy_iff hd hlinks hregistries]
    exact (exists_policy_iff hd hlinks₁).mp ⟨t₂, hpolicy⟩
  | certCleanup =>
    rw [← obstructed_certCleanup_iff hd hlinks hfiled]
    exact (exists_removeTree_iff hd (hlinks.of_linksFrom hfiled.linksFrom)).mp ⟨t₃, hremove⟩
  | certWrite => exact fun ⟨_, hl⟩ => hl

theorem obstructed_of_failed (haccepted : d.Accepts c) {f : Failure}
    (h : run c d t = (.error f, u))
    : Obstructed d t f.stage ∧ ∀ stage ∈ f.stage.earlier, ¬ Obstructed d t stage := by
  have hfails : ∀ {actions : List Action} {e : IoFailure} {v w : FileTree} {stage : Stage},
      Action.runAll actions v = (.error e, w) →
      ((∃ u, Action.runAll actions v = (.ok (), u)) ↔ ¬ Obstructed d v stage) →
      Obstructed d v stage := by
    intro actions e v w stage hfail hiff
    by_contra hfree
    obtain ⟨u, hu⟩ := hiff.mpr hfree
    rw [hfail] at hu
    injection hu
    contradiction
  have hsuit := suit_of_noLinks hd hlinks
  rcases runStages_cons_eq_error_iff.mp (runStages_of_failed_run h) with
    ⟨hstage, hfail⟩ | ⟨t₁, hregistries, h⟩
  . rw [hstage]
    exact ⟨hfails hfail (exists_registries_iff hd hlinks), List.forall_mem_nil _⟩
  have hfirst := (exists_registries_iff hd hlinks).mp ⟨t₁, hregistries⟩
  have hlinks₁ : t₁.NoLinks := hlinks.of_linksFrom (Action.WritesFile.of_runAll_writing
    hd.registriesConf.plain hd.registriesApartPolicy.ne_nil hsuit.registriesLinkFree
    hregistries).linksFrom
  have hpolicyIff := obstructed_policy_iff hd hlinks hregistries
  rcases runStages_cons_eq_error_iff.mp h with ⟨hstage, hfail⟩ | ⟨t₂, hpolicy, h⟩
  . rw [hstage]
    refine ⟨hpolicyIff.mp (hfails hfail (exists_policy_iff hd hlinks₁)), ?_⟩
    simpa [Stage.earlier] using hfirst
  have hsecond := (exists_policy_iff hd hlinks₁).mp ⟨t₂, hpolicy⟩
  rw [hpolicyIff] at hsecond
  have hfiled := filed_of_runAll hsuit hregistries hpolicy
  have hlinks₂ := hlinks.of_linksFrom hfiled.linksFrom
  have hclearingIff := exists_clearing_iff hd hlinks₂
  have hcertsIff := obstructed_certCleanup_iff hd hlinks hfiled
  rcases runStages_cons_eq_error_iff.mp h with ⟨hstage, hfail⟩ | ⟨t₃, hclearing, h⟩
  . rw [hstage]
    refine ⟨hcertsIff.mp (hfails hfail hclearingIff), ?_⟩
    simpa [Stage.earlier] using And.intro hfirst hsecond
  obtain ⟨w, hremove, hw⟩ := Action.runAll_cons_eq_ok_iff.mp hclearing
  injection hw with _ hw
  subst hw
  have hcleared := cleared_of_removeTree hsuit hfiled.linksFrom hremove
  obtain ⟨v, hwriting⟩ :=
    exists_writingAll hd hlinks₂ haccepted (hclearingIff.mp ⟨w, hclearing⟩) hcleared
  rcases runStages_cons_eq_error_iff.mp h with ⟨-, hfail⟩ | ⟨t₄, -, h⟩
  . rw [hwriting] at hfail
    injection hfail
    contradiction
  . injection h
    contradiction

theorem completes_iff (haccepted : d.Accepts c)
    : (∃ summary, (run c d t).1 = .ok summary) ↔ ∀ stage, ¬ Obstructed d t stage := by
  constructor
  . rintro ⟨summary, h⟩
    exact not_obstructed_of_completed hd hlinks (run_eq h)
  . intro hfree
    rcases h : (run c d t).1 with f | summary
    . exact absurd (obstructed_of_failed hd hlinks haccepted (run_eq h)).1 (hfree f.stage)
    . exact ⟨summary, rfl⟩

theorem fails_iff (haccepted : d.Accepts c) (stage : Stage)
    : (∃ e, (run c d t).1 = .error ⟨stage, e⟩) ↔
        Obstructed d t stage ∧ ∀ s ∈ stage.earlier, ¬ Obstructed d t s := by
  constructor
  . rintro ⟨e, h⟩
    exact obstructed_of_failed hd hlinks haccepted (run_eq h)
  . rintro ⟨hobstructed, hearlier⟩
    rcases h : (run c d t).1 with ⟨stage', e⟩ | summary
    . obtain ⟨hobstructed', hearlier'⟩ := obstructed_of_failed hd hlinks haccepted (run_eq h)
      have heq : stage' = stage := by
        rcases Stage.earlier_total stage' stage with hbefore | heq | hafter
        . exact absurd hobstructed' (hearlier _ hbefore)
        . exact heq
        . exact absurd hobstructed (hearlier' _ hafter)
      exact ⟨e, by rw [heq]⟩
    . exact absurd hobstructed (not_obstructed_of_completed hd hlinks (run_eq h) stage)

/-! ### Passes one after the other -/

theorem course_of_run_eq {outcome : Except Failure Summary}
    (haccepted : d.Accepts c) (h : run c d t = (outcome, u))
    : Course c d t u outcome :=
  course_of_run (fun k hk => (haccepted k hk).slash_not_mem) (suit_of_noLinks hd hlinks) h

theorem noLinks_run (haccepted : d.Accepts c) : (run c d t).2.NoLinks :=
  hlinks.of_linksFrom (course_of_run_eq hd hlinks haccepted (Prod.mk.eta).symm).linksFrom

/-- What is in the way after a pass was in the way before. -/
theorem obstacle_of_run (haccepted : d.Accepts c) {l : Location}
    (h : Obstacle d (run c d t).2 stage l) : Obstacle d t stage l := by
  have hcourse := course_of_run_eq hd hlinks haccepted (Prod.mk.eta (p := run c d t)).symm
  obtain ⟨hregistries, hpolicy, hcerts⟩ := hcourse.artifacts (suit_of_noLinks hd hlinks)
  have hwritten : ∀ {l}, (FileTree.entry? (run c d t).2 l = t.entry? l ∨
      ∃ content, FileTree.entry? (run c d t).2 l = some (.file content)) →
      (FileTree.entry? (run c d t).2 l).any Entry.isDirectory = true →
      (t.entry? l).any Entry.isDirectory = true := by
    rintro l (heq | ⟨content, hfile⟩) hdirectory
    . rw [← heq]
      exact hdirectory
    . rw [hfile] at hdirectory
      contradiction
  cases stage with
  | registries =>
    apply FileTree.Blocks.before hcourse.spares _ h (hwritten hregistries)
    rintro m hm hne (heq | rfl | hinside)
    . exact hne heq
    . exact hd.registriesApartPolicy.2 hm
    . exact hd.registriesApartCerts.2 (hinside.trans hm)
  | policy =>
    apply FileTree.Blocks.before hcourse.spares _ h (hwritten hpolicy)
    rintro m hm hne (rfl | heq | hinside)
    . exact hd.registriesApartPolicy.1 hm
    . exact hne heq
    . exact hd.policyApartCerts.2 (hinside.trans hm)
  | certCleanup =>
    apply FileTree.Blocks.before hcourse.spares _ h
    . intro hfile
      obtain ⟨content, hfile⟩ := FileTree.any_isFile_iff.mp hfile
      rcases hcerts with heq | hnever
      . rw [← heq, hfile]
        rfl
      . exact absurd hfile (hnever content)
    . rintro m hm hne (rfl | rfl | hinside)
      . exact hd.registriesApartCerts.1 hm
      . exact hd.policyApartCerts.1 hm
      . exact hne (hm.eq_of_length_le hinside.length_le)
  | certWrite => exact h

end

theorem Obstacle.of_leaves {l : Location} (h : Obstacle d u stage l) (hleaves : t.Leaves u)
    : Obstacle d t stage l ∧ u.entry? l ≠ none := by
  cases stage with
  | certWrite => exact h.elim
  | _ => exact ⟨FileTree.Blocks.of_leaves h hleaves, FileTree.Blocks.entry?_ne_none h⟩

theorem after_concat (cs : List Configuration) (c : Configuration) (t : FileTree)
    : after d (cs ++ [c]) t = (run c d (after d cs t)).2 := by
  rw [after, List.foldl_append]
  rfl

/-- The passes add no link, and put nothing in the way. -/
theorem noLinks_and_obstacle_of_after (hd : d.Usable) (hlinks : t.NoLinks)
    {cs : List Configuration} (haccepted : ∀ c ∈ cs, d.Accepts c)
    : (after d cs t).NoLinks ∧
        ∀ stage l, Obstacle d (after d cs t) stage l → Obstacle d t stage l := by
  induction cs using List.reverseRecOn with
  | nil => exact ⟨hlinks, fun _ _ => id⟩
  | append_singleton cs c ih =>
    have hc := haccepted c (by simp)
    obtain ⟨hlinks', hobstacles⟩ := ih fun c hc => haccepted c (List.mem_append_left _ hc)
    rw [after_concat]
    exact ⟨noLinks_run hd hlinks' hc, fun stage l hl =>
      hobstacles stage l (obstacle_of_run hd hlinks' hc hl)⟩

theorem completes_unless_obstructed (hd : d.Usable) (hlinks : t.NoLinks)
    : (∀ c : Configuration, d.Accepts c →
        ((∃ summary, (run c d t).1 = .ok summary) ↔ ∀ stage, ¬ Obstructed d t stage) ∧
        (∀ stage, (∃ e, (run c d t).1 = .error ⟨stage, e⟩) ↔
          Obstructed d t stage ∧ ∀ s ∈ stage.earlier, ¬ Obstructed d t s) ∧
        ∀ e, (run c d t).1 ≠ .error ⟨.certWrite, e⟩) ∧
      ∀ (cs : List Configuration) (c : Configuration),
        (∀ c' ∈ cs, d.Accepts c') → d.Accepts c →
        (∀ stage l, Obstacle d (after d cs t) stage l → Obstacle d t stage l) ∧
        (∀ first rest summary, cs = first :: rest → (run first d t).1 = .ok summary →
          ∃ summary, (run c d (after d cs t)).1 = .ok summary) ∧
        ∀ v, (after d cs t).Leaves v →
          (∀ stage l, Obstacle d (after d cs t) stage l → v.entry? l = none) →
          ∃ summary, (run c d v).1 = .ok summary := by
  constructor
  . intro c haccepted
    refine ⟨completes_iff hd hlinks haccepted, fails_iff hd hlinks haccepted, ?_⟩
    intro e hfailed
    exact (obstructed_of_failed hd hlinks haccepted (run_eq hfailed)).1.elim fun _ hl => hl
  . intro cs c hcs haccepted
    obtain ⟨hlinks', hobstacles⟩ := noLinks_and_obstacle_of_after hd hlinks hcs
    refine ⟨hobstacles, ?_, ?_⟩
    . intro first rest summary _ hfirst
      apply (completes_iff hd hlinks' haccepted).mpr
      rintro stage ⟨l, hl⟩
      exact not_obstructed_of_completed hd hlinks (run_eq hfirst) stage ⟨l, hobstacles stage l hl⟩
    . intro v hleaves hgone
      have hlinksv : v.NoLinks := fun l target hlink => hlinks' l target (hleaves l _ hlink)
      apply (completes_iff hd hlinksv haccepted).mpr
      rintro stage ⟨l, hl⟩
      obtain ⟨hl, hsome⟩ := hl.of_leaves hleaves
      exact hsome (hgone stage l hl)

/-- A file is in the way of the policy, is removed after a pass that fails, and two passes over
different configurations complete then. -/
theorem completes_after_removal
    : ∃ (c c' : Configuration) (d : Destinations) (t u v : FileTree) (f : Failure)
        (first second : Summary), d.Usable ∧ t.NoLinks ∧
        c.certificates.map (·.folder) = ["a:5000", "ca.crt"] ∧ c'.certificates = [] ∧
        run c d t = (.error f, u) ∧ f.stage = .policy ∧
        v = u.remove ["etc"] ∧ (run c d v).1 = .ok first ∧
        (run c' d (run c d v).2).1 = .ok second := by
  let c : Configuration :=
    { Configuration.initial with certificates := [⟨"a..5000", "x"⟩, ⟨"ca.crt", "y"⟩] }
  let d : Destinations :=
    ⟨.ofText "conf/registries.conf", .ofText "etc/policy.json", .ofText "docker/certs.d"⟩
  let t := FileTree.empty.put "etc" [] (.file "old".toUTF8)
  have hput : ∀ l, t.entry? l = if l = ["etc"] then some (.file "old".toUTF8) else
      FileTree.empty.entry? l := fun l => FileTree.entry?_put _ rfl (by decide +kernel)
  have hordinary : d.Ordinary := by
    constructor <;> decide +kernel
  have hd : d.Usable := by
    refine ⟨hordinary, ?_, ?_, ?_⟩ <;> decide +kernel
  have hlinks : t.NoLinks := by
    intro l target
    rw [hput]
    split
    . exact nofun
    . exact FileTree.noLinks_empty l target
  have haccepted : d.Accepts c := by decide +kernel
  have hfailed : (run c d t).1 = .error ⟨.policy, ⟨.ofText "etc", .alreadyExists⟩⟩ := by
    decide +kernel
  obtain ⟨-, hmany⟩ := completes_unless_obstructed hd hlinks
  obtain ⟨hobstacles, -, hremoval⟩ := hmany [c] c (by simpa using haccepted) haccepted
  let v := (run c d t).2.remove ["etc"]
  have hleaves : (after d [c] t).Leaves v := FileTree.leaves_restrict
  have hgone : ∀ stage l, Obstacle d (after d [c] t) stage l → v.entry? l = none := by
    intro stage l hl
    have hblocks := hobstacles stage l hl
    have hsome := (hblocks.of_leaves fun _ _ => id).2
    rw [hput] at hsome
    split at hsome
    . next hetc =>
      subst hetc
      rw [FileTree.entry?_remove (List.cons_ne_nil _ _), if_pos List.suffix_rfl]
    . cases l with
      | cons name parent =>
        rw [FileTree.entry?_empty (List.cons_ne_nil _ _)] at hsome
        contradiction
      | nil =>
        cases stage with
        | registries => rcases hblocks with ⟨-, -, hfile⟩ | ⟨hl, -⟩ <;> contradiction
        | policy => rcases hblocks with ⟨-, -, hfile⟩ | ⟨hl, -⟩ <;> contradiction
        | certCleanup => rcases hblocks with ⟨-, -, hfile⟩ | ⟨hl, -⟩ <;> contradiction
        | certWrite => contradiction
  obtain ⟨first, hfirst⟩ := hremoval v hleaves hgone
  have hlinksv : v.NoLinks := fun l target hlink =>
    (noLinks_and_obstacle_of_after hd hlinks (by simpa using haccepted)).1 l target
      (hleaves l _ hlink)
  obtain ⟨-, hmany⟩ := completes_unless_obstructed hd hlinksv
  obtain ⟨-, hlater, -⟩ := hmany [c] .initial (by simpa using haccepted) (List.forall_mem_nil _)
  obtain ⟨second, hsecond⟩ := hlater c [] first rfl hfirst
  exact ⟨c, .initial, d, t, _, v, _, first, second, hd, hlinks, by decide +kernel, rfl,
    run_eq hfailed, rfl, rfl, hfirst, hsecond⟩

/-! ### Paths that are too long -/

theorem refusal?_of_runStages {stages : List (Stage × List Action)}
    (h : runStages stages t = (.ok (), u)) : ∀ s ∈ stages, ∀ a ∈ s.2, a.path.refusal? = none := by
  induction stages generalizing t with
  | nil => exact List.forall_mem_nil _
  | cons s rest ih =>
    obtain ⟨v, hactions, hrest⟩ := runStages_cons_eq_ok_iff.mp h
    exact List.forall_mem_cons.mpr ⟨Action.refusal?_of_runAll hactions, ih hrest⟩

/-- All paths of a pass that completes are ones that the system takes. -/
theorem refusal?_of_completed {summary : Summary} (h : run c d t = (.ok summary, u))
    : ∀ s ∈ c.stages d, ∀ a ∈ s.2, a.path.refusal? = none :=
  refusal?_of_runStages (runStages_of_run h).2

theorem not_obstructed_empty (hd : d.Ordinary) (stage : Stage) : ¬ Obstructed d .empty stage := by
  rintro ⟨l, hl⟩
  cases stage with
  | registries => exact FileTree.not_blocks_empty hd.registriesApartPolicy.ne_nil hl
  | policy => exact FileTree.not_blocks_empty hd.registriesApartPolicy.symm.ne_nil hl
  | certCleanup => exact FileTree.not_blocks_empty hd.registriesApartCerts.symm.ne_nil hl
  | certWrite => exact hl

/-- Nothing is there and all names are short, but the path of the registry table is too long. -/
theorem stops_at_long_path
    : ¬ ∀ c d t, d.Ordinary → t.NoLinks → (∀ k ∈ c.certificates, k.IsAccepted) →
        ((∃ summary, (run c d t).1 = .ok summary) ↔ ∀ stage, ¬ Obstructed d t stage) ∧
        ∀ e, (run c d t).1 ≠ .error ⟨.certWrite, e⟩ := by
  intro h
  let folders := List.replicate 17 (String.ofList (List.replicate 250 'd'))
  let registriesConf : Path := ⟨folders ++ ["registries.conf"]⟩
  let d : Destinations :=
    ⟨registriesConf, .ofText "containers/policy.json", .ofText "docker/certs.d"⟩
  have hnames : ∀ s ∈ registriesConf.segments,
      s = String.ofList (List.replicate 250 'd') ∨ s = "registries.conf" := by
    intro s hs
    rcases List.mem_append.mp hs with hs | hs
    . exact .inl (List.eq_of_mem_replicate hs)
    . exact .inr (List.mem_singleton.mp hs)
  have hregistriesConf : registriesConf.IsOrdinary := by
    constructor
    . intro s hs
      rcases hnames s hs with rfl | rfl <;> decide +kernel
    . intro s hs
      rcases hnames s hs with rfl | rfl
      . rw [FileTree.accepts, String.toList_ofList]
        decide +kernel
      . decide +kernel
  have hd : d.Ordinary := by
    constructor
    case registriesConf => exact hregistriesConf
    all_goals decide +kernel
  have hlong : registriesConf.isTooLong = true := by decide +kernel
  obtain ⟨⟨-, hcompletes⟩, -⟩ :=
    h .initial d .empty hd FileTree.noLinks_empty (List.forall_mem_nil _)
  obtain ⟨summary, hsummary⟩ := hcompletes (not_obstructed_empty hd)
  obtain ⟨u, hrun⟩ := exists_run_eq hsummary
  let contents := Configuration.initial.registries.toToml
  have hwrite : Action.write registriesConf contents ∈ Action.writing registriesConf contents :=
    List.mem_append_right _ (List.mem_singleton.mpr rfl)
  have htaken := refusal?_of_completed hrun _ List.mem_cons_self _ hwrite
  rw [Action.path, Path.refusal?_eq_none_iff, hlong] at htaken
  exact absurd htaken.2 Bool.true_eq_false_eq_False

end Pass
end RegistrySync
