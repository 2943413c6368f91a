import RegistrySync.Proofs.Pass.Completion

/-!
How far a pass comes: the stages before the one that fails have done their work, and of the one that
fails it is known what it may have done.
-/

namespace RegistrySync.Pass

open FileTree (LinksFrom MakesDirectories Spares)

variable {t u : FileTree} {c : Configuration} {d : Destinations}

theorem runStages_cons_eq_error_iff {stage : Stage} {actions : List Action}
    {rest : List (Stage × List Action)} {f : Failure}
    : runStages ((stage, actions) :: rest) t = (.error f, u) ↔
        (f.stage = stage ∧ Action.runAll actions t = (.error f.failure, u)) ∨
          ∃ v, Action.runAll actions t = (.ok (), v) ∧ runStages rest v = (.error f, u) := by
  rw [runStages]
  rcases hactions : Action.runAll actions t with ⟨outcome, v⟩
  cases outcome with
  | ok =>
    constructor
    . intro h
      exact .inr ⟨v, rfl, h⟩
    . rintro (⟨-, hv⟩ | ⟨v', hv, h⟩)
      . injection hv
        contradiction
      . injection hv with _ hv
        rw [hv]
        exact h
  | error e =>
    constructor
    . intro h
      injection h with hf hv
      injection hf with hf
      rw [← hf, hv]
      exact .inl ⟨rfl, rfl⟩
    . rintro (⟨hstage, hv⟩ | ⟨v', hv, -⟩)
      . injection hv with he hv
        injection he with he
        rw [he, hv, ← hstage]
      . injection hv
        contradiction

theorem runStages_of_failed_run {f : Failure} (h : run c d t = (.error f, u))
    : runStages (c.stages d) t = (.error f, u) := by
  unfold run at h
  split at h
  . injection h
    contradiction
  . next hstages =>
    injection h with hf hu
    injection hf with hf
    rw [hstages, hf, hu]

/-! ### The two files -/

/-- Both files have been written, and all else is as it was. -/
structure Filed (c : Configuration) (d : Destinations) (t u : FileTree) : Prop where
  registriesConf : u.entry? d.registriesConf.location = some (.file c.registries.toToml.toUTF8)
  policyJson : u.entry? d.policyJson.location = some (.file c.policy.toJson.toUTF8)
  spares : Spares (fun l => l = d.registriesConf.location ∨ l = d.policyJson.location)
    (fun l => l <:+ d.registriesConf.location ∨ l <:+ d.policyJson.location) t u

namespace Filed

theorem linksFrom (h : Filed c d t u) : LinksFrom t u := by
  apply h.spares.linksFrom
  rintro l target (rfl | rfl)
  . rw [h.registriesConf]
    exact nofun
  . rw [h.policyJson]
    exact nofun

theorem certsDir (h : Filed c d t u) (hd : d.Suit t) (rel : Location)
    : u.entry? (rel ++ d.certsDir.location) = t.entry? (rel ++ d.certsDir.location) := by
  have hinside : d.certsDir.location <:+ rel ++ d.certsDir.location := List.suffix_append rel _
  have hl : ¬ (rel ++ d.certsDir.location = d.registriesConf.location ∨
      rel ++ d.certsDir.location = d.policyJson.location) := by
    rintro (heq | heq)
    . exact hd.registriesApartCerts.2 (heq ▸ hinside)
    . exact hd.policyApartCerts.2 (heq ▸ hinside)
  rcases h.spares _ hl with heq | ⟨hsuffix | hsuffix, -⟩
  . exact heq
  . exact absurd (hinside.trans hsuffix) hd.registriesApartCerts.2
  . exact absurd (hinside.trans hsuffix) hd.policyApartCerts.2

end Filed

theorem filed_of_runAll {v : FileTree} (hd : d.Suit t)
    (hregistries : Action.runAll (Action.writing d.registriesConf c.registries.toToml) t =
      (.ok (), v))
    (hpolicy : Action.runAll (Action.writing d.policyJson c.policy.toJson) v = (.ok (), u))
    : Filed c d t u := by
  have hne := hd.registriesApartPolicy.ne_nil
  have hne' := hd.registriesApartPolicy.symm.ne_nil
  have hwrites := Action.WritesFile.of_runAll_writing hd.registriesConf hne hd.registriesLinkFree
    hregistries
  have hlinks := hd.policyLinkFree.of_linksFrom hwrites.linksFrom
  have hwrites' := Action.WritesFile.of_runAll_writing hd.policyJson hne' hlinks hpolicy
  have hspares := Action.spares_of_writing hd.registriesConf hne hd.registriesLinkFree hregistries
  have hspares' := Action.spares_of_writing hd.policyJson hne' hlinks hpolicy
  constructor
  . rw [hwrites', if_neg hd.registriesApartPolicy.ne, if_neg hd.registriesApartPolicy.1, hwrites,
      if_pos rfl]
  . rw [hwrites', if_pos rfl]
  . apply (hspares.mono (fun _ => .inl) (fun _ _ => .inl)).trans
    exact hspares'.mono (fun _ => .inr) (fun _ _ => .inr)

/-! ### The folder of certificates -/

/-- The folder of certificates has been removed with all that was in it. -/
def Cleared (d : Destinations) (t u : FileTree) : Prop :=
  ∀ l, u.entry? l = if d.certsDir.location <:+ l then none else t.entry? l

namespace Cleared

variable (h : Cleared d t u)
include h

theorem linksFrom : LinksFrom t u := by
  apply LinksFrom.of_eq_or_ne
  intro l
  rw [h]
  split
  . exact .inr nofun
  . exact .inl rfl

theorem spares {made : Location → Prop} : Spares (d.certsDir.location <:+ ·) made t u := by
  intro l hl
  rw [h, if_neg hl]
  exact .inl rfl

theorem hasLayout : TrustStore.HasLayout ⟨d.certsDir⟩ [] u := by
  intro rel
  rw [h, if_pos (List.suffix_append rel _), TrustStore.layout_nil]

end Cleared

theorem cleared_of_removeTree (hd : d.Suit t) (hlinks : LinksFrom t u) {v : FileTree}
    (h : u.removeTree d.certsDir = (.ok (), v)) : Cleared d u v :=
  FileTree.entry?_removeTree hd.certsDir hd.registriesApartCerts.symm.ne_nil
    (hd.certsLinkFree.of_linksFrom hlinks)
    (fun hslash => (hd.certsSlash hslash).of_linksFrom hlinks) h

theorem eq_of_failed_clearing (hd : d.Suit t) (hlinks : LinksFrom t u) {e : IoFailure}
    {v : FileTree} (h : Action.runAll (TrustStore.clearing ⟨d.certsDir⟩) u = (.error e, v))
    : v = u := by
  rcases Action.runAll_cons_eq_error_iff.mp h with ⟨hremove, -⟩ | ⟨w, -, h⟩
  . exact FileTree.eq_of_failed_removeTree hd.certsDir hd.registriesApartCerts.symm.ne_nil
      (hd.certsLinkFree.of_linksFrom hlinks)
      (fun hslash => (hd.certsSlash hslash).of_linksFrom hlinks) hremove
  . injection h
    contradiction

/-! ### The course of a pass -/

/-- Where a pass ends, and what the stages have done until then. -/
inductive Course (c : Configuration) (d : Destinations) (t u : FileTree) :
    Except Failure Summary → Prop where
  | registries {e : IoFailure}
      (makes : MakesDirectories d.registriesConf.location.tail t u) :
      Course c d t u (.error ⟨.registries, e⟩)
  | policy {e : IoFailure} {v : FileTree}
      (writes : Action.WritesFile d.registriesConf.location c.registries.toToml t v)
      (spares : Spares (· = d.registriesConf.location) (· <:+ d.registriesConf.location) t v)
      (makes : MakesDirectories d.policyJson.location.tail v u) :
      Course c d t u (.error ⟨.policy, e⟩)
  | certCleanup {e : IoFailure} (filed : Filed c d t u) : Course c d t u (.error ⟨.certCleanup, e⟩)
  | certWrite {e : IoFailure} {cleared written filing : FileTree}
      {done rest : List Certificate} {k : Certificate} (filed : Filed c d t filing)
      (clears : Cleared d filing cleared) (certificates : c.certificates = done ++ k :: rest)
      (writes : Action.runAll (TrustStore.writingAll ⟨d.certsDir⟩ done) cleared =
        (.ok (), written))
      (layout : TrustStore.HasLayout ⟨d.certsDir⟩ done written)
      (fails : Action.runAll (TrustStore.writing ⟨d.certsDir⟩ k) written = (.error e, u))
      (stopped : TrustStore.Stopped ⟨d.certsDir⟩ done k u)
      (spares : Spares (d.certsDir.location <:+ ·) (· <:+ d.certsDir.location) cleared u) :
      Course c d t u (.error ⟨.certWrite, e⟩)
  | completed {filing cleared : FileTree} (filed : Filed c d t filing)
      (clears : Cleared d filing cleared)
      (layout : TrustStore.HasLayout ⟨d.certsDir⟩ c.certificates u)
      (spares : Spares (d.certsDir.location <:+ ·) (· <:+ d.certsDir.location) cleared u) :
      Course c d t u (.ok c.summary)

section

variable (hslash : ∀ k ∈ c.certificates, '/' ∉ k.registry.toList) (hd : d.Suit t)
include hslash hd

theorem course_of_completed {summary : Summary} (h : run c d t = (.ok summary, u))
    : Course c d t u (.ok summary) := by
  obtain ⟨rfl, hstages⟩ := runStages_of_run h
  obtain ⟨t₁, t₂, t₃, hregistries, hpolicy, hremove, hwriting⟩ := exists_of_runStages hstages
  have hfiled := filed_of_runAll hd hregistries hpolicy
  have hcleared := cleared_of_removeTree hd hfiled.linksFrom hremove
  have habove := hd.certsLinkFree.of_linksFrom (hfiled.linksFrom.trans hcleared.linksFrom)
  obtain ⟨hlayout, hspares⟩ :=
    hcleared.hasLayout.of_writingAll hd.certsDir habove hslash hwriting
  exact .completed hfiled hcleared hlayout hspares

theorem course_of_failed_writing {v w : FileTree} (hfiled : Filed c d t v)
    (hcleared : Cleared d v w) {e : IoFailure}
    (h : Action.runAll (TrustStore.writingAll ⟨d.certsDir⟩ c.certificates) w = (.error e, u))
    : Course c d t u (.error ⟨.certWrite, e⟩) := by
  have habove := hd.certsLinkFree.of_linksFrom (hfiled.linksFrom.trans hcleared.linksFrom)
  obtain ⟨done, k, rest, written, hcertificates, hdone, hfails⟩ :=
    Action.exists_of_runAll_flatMap h
  rw [hcertificates, List.forall_mem_append, List.forall_mem_cons] at hslash
  obtain ⟨hlayout, hspares⟩ :=
    hcleared.hasLayout.of_writingAll hd.certsDir habove hslash.1 hdone
  have habove' := hspares.linkFree_tail habove
  have hspares' := TrustStore.spares_of_writing hd.certsDir habove' hlayout hslash.2.1 hfails
  have hstopped := TrustStore.stopped_of_writing hd.certsDir habove' hlayout hslash.2.1 hfails
  exact .certWrite hfiled hcleared hcertificates hdone hlayout hfails hstopped
    (hspares.trans hspares')

theorem course_of_failed {f : Failure} (h : run c d t = (.error f, u))
    : Course c d t u (.error f) := by
  obtain ⟨stage, e⟩ := f
  have hne := hd.registriesApartPolicy.ne_nil
  rcases runStages_cons_eq_error_iff.mp (runStages_of_failed_run h) with
    ⟨rfl, hregistries⟩ | ⟨t₁, hregistries, h⟩
  . exact .registries (Action.makesDirectories_of_failed_writing hd.registriesConf hne
      hd.registriesLinkFree hregistries)
  rcases runStages_cons_eq_error_iff.mp h with ⟨rfl, hpolicy⟩ | ⟨t₂, hpolicy, h⟩
  . have hwrites := Action.WritesFile.of_runAll_writing hd.registriesConf hne
      hd.registriesLinkFree hregistries
    have hlinks := hd.policyLinkFree.of_linksFrom hwrites.linksFrom
    exact .policy hwrites
      (Action.spares_of_writing hd.registriesConf hne hd.registriesLinkFree hregistries)
      (Action.makesDirectories_of_failed_writing hd.policyJson
        hd.registriesApartPolicy.symm.ne_nil hlinks hpolicy)
  have hfiled := filed_of_runAll hd hregistries hpolicy
  rcases runStages_cons_eq_error_iff.mp h with ⟨rfl, hclearing⟩ | ⟨t₃, hclearing, h⟩
  . rw [eq_of_failed_clearing hd hfiled.linksFrom hclearing]
    exact .certCleanup hfiled
  obtain ⟨v, hremove, hclearing⟩ := Action.runAll_cons_eq_ok_iff.mp hclearing
  injection hclearing with _ hv
  subst hv
  have hcleared := cleared_of_removeTree hd hfiled.linksFrom hremove
  rcases runStages_cons_eq_error_iff.mp h with ⟨rfl, hwriting⟩ | ⟨v, -, h⟩
  . exact course_of_failed_writing hslash hd hfiled hcleared hwriting
  . injection h
    contradiction

theorem course_of_run {outcome : Except Failure Summary} (h : run c d t = (outcome, u))
    : Course c d t u outcome := by
  cases outcome with
  | ok summary => exact course_of_completed hslash hd h
  | error f => exact course_of_failed hslash hd h

end

/-! ### What the destinations hold in the end -/

/-- The three artifacts of a configuration are there, and the folder of certificates has nothing
else in it. -/
structure Holds (c : Configuration) (d : Destinations) (t : FileTree) : Prop where
  registriesConf : t.entry? d.registriesConf.location = some (.file c.registries.toToml.toUTF8)
  policyJson : t.entry? d.policyJson.location = some (.file c.policy.toJson.toUTF8)
  certsDir : TrustStore.Holds ⟨d.certsDir⟩ c.certificates t

theorem holds_of_run (hnamed : ∀ k ∈ c.certificates, k.IsNamed) (hd : d.Suit t)
    {summary : Summary} (h : run c d t = (.ok summary, u)) : Holds c d u := by
  cases course_of_run (fun k hk => (hnamed k hk).slash_not_mem) hd h with
  | @completed filing cleared filed clears layout spares =>
    have hfile {l : Location} {content : ByteArray} (hoff : ¬ d.certsDir.location <:+ l)
        (hfiled : filing.entry? l = some (.file content)) : u.entry? l = some (.file content) := by
      have hcleared : cleared.entry? l = some (.file content) := by
        rw [clears, if_neg hoff, hfiled]
      rcases spares l hoff with heq | ⟨-, hnone, -⟩
      . rw [heq, hcleared]
      . rw [hcleared] at hnone
        contradiction
    exact ⟨hfile hd.registriesApartCerts.2 filed.registriesConf,
      hfile hd.policyApartCerts.2 filed.policyJson,
      (TrustStore.holds_iff_hasLayout hnamed).mpr layout⟩

end RegistrySync.Pass
