import RegistrySync.Proofs.Pass.Course

/-!
A pass that fails stops cleanly: what belongs to earlier stages is written, what belongs to later
ones is as it was, and what the failed stage was about is as it was too, or is known exactly.
-/

namespace RegistrySync.Pass

variable {t u : FileTree} {c : Configuration} {d : Destinations}

/-- What a pass that fails at a stage has made of the artifacts. -/
def StoppedAt (c : Configuration) (d : Destinations) (t u : FileTree) (f : Failure) : Prop :=
  match f.stage with
  | .registries =>
    u.entry? d.registriesConf.location = t.entry? d.registriesConf.location ∧
    u.entry? d.policyJson.location = t.entry? d.policyJson.location ∧
    ∀ rel, u.entry? (rel ++ d.certsDir.location) = t.entry? (rel ++ d.certsDir.location)
  | .policy =>
    u.entry? d.registriesConf.location = some (.file c.registries.toToml.toUTF8) ∧
    u.entry? d.policyJson.location = t.entry? d.policyJson.location ∧
    ∀ rel, u.entry? (rel ++ d.certsDir.location) = t.entry? (rel ++ d.certsDir.location)
  | .certCleanup =>
    u.entry? d.registriesConf.location = some (.file c.registries.toToml.toUTF8) ∧
    u.entry? d.policyJson.location = some (.file c.policy.toJson.toUTF8) ∧
    ∀ rel, u.entry? (rel ++ d.certsDir.location) = t.entry? (rel ++ d.certsDir.location)
  | .certWrite =>
    u.entry? d.registriesConf.location = some (.file c.registries.toToml.toUTF8) ∧
    u.entry? d.policyJson.location = some (.file c.policy.toJson.toUTF8) ∧
    ∃ cleared written done k rest, c.certificates = done ++ k :: rest ∧
      (∀ rel, cleared.entry? (rel ++ d.certsDir.location) = none) ∧
      Action.runAll (TrustStore.writingAll ⟨d.certsDir⟩ done) cleared = (.ok (), written) ∧
      TrustStore.HasLayout ⟨d.certsDir⟩ done written ∧
      Action.runAll (TrustStore.writing ⟨d.certsDir⟩ k) written = (.error f.failure, u) ∧
      TrustStore.Stopped ⟨d.certsDir⟩ done k u

theorem Course.stoppedAt {f : Failure} (hd : d.Suit t) (h : Course c d t u (.error f))
    : StoppedAt c d t u f := by
  cases h with
  | registries makes =>
    refine ⟨makes.entry?_eq List.suffix_rfl, makes.eq_of_not_suffix ?_, fun rel =>
      makes.eq_of_not_suffix ?_⟩
    . exact hd.registriesApartPolicy.not_suffix_tail []
    . exact hd.registriesApartCerts.not_suffix_tail rel
  | @policy e v writes spares makes =>
    have hkept : ∀ {l} rel, d.registriesConf.location.Apart l →
        v.entry? (rel ++ l) = t.entry? (rel ++ l) := by
      intro l rel hapart
      apply spares.eq_of_not
      . intro heq
        exact hapart.not_suffix rel (heq ▸ List.suffix_rfl)
      . exact hapart.not_suffix rel
    refine ⟨?_, ?_, fun rel => ?_⟩
    . have hsame : u.entry? d.registriesConf.location = v.entry? d.registriesConf.location :=
        makes.eq_of_not_suffix (hd.registriesApartPolicy.symm.not_suffix_tail [])
      rw [hsame, writes, if_pos rfl]
    . rw [makes.entry?_eq List.suffix_rfl]
      exact hkept [] hd.registriesApartPolicy
    . rw [makes.eq_of_not_suffix (hd.policyApartCerts.not_suffix_tail rel)]
      exact hkept rel hd.registriesApartCerts
  | certCleanup filed => exact ⟨filed.registriesConf, filed.policyJson, filed.certsDir hd⟩
  | @certWrite e cleared written filing done rest k filed clears certificates writes layout
      fails stopped spares =>
    have hkept : ∀ {l}, l.Apart d.certsDir.location → u.entry? l = filing.entry? l := by
      intro l hapart
      rw [spares.eq_of_not hapart.2 hapart.1, clears, if_neg hapart.2]
    refine ⟨?_, ?_, cleared, written, done, k, rest, certificates, ?_, writes, layout, fails,
      stopped⟩
    . rw [hkept hd.registriesApartCerts, filed.registriesConf]
    . rw [hkept hd.policyApartCerts, filed.policyJson]
    . intro rel
      rw [clears, if_pos (List.suffix_append rel _)]

theorem stops_at_stage {f : Failure} (hslash : ∀ k ∈ c.certificates, '/' ∉ k.registry.toList)
    (hd : d.Suit t) (hrun : run c d t = (.error f, u)) : StoppedAt c d t u f :=
  (course_of_run hslash hd hrun).stoppedAt hd

/-- One certificate goes to the root of the store, where the folder of the next one would be. -/
theorem stops_at_stage_of_collision
    : ∃ c d t u f, (∀ k ∈ c.certificates, '/' ∉ k.registry.toList) ∧ d.Suit t ∧
        run c d t = (.error f, u) ∧
        t.entry? ["registries.conf"] = some (.file "old".toUTF8) ∧
        t.entry? ["old", "certs"] = some .directory ∧
        f = ⟨.certWrite, ⟨.ofText "certs/ca.crt", .alreadyExists⟩⟩ ∧
        StoppedAt c d t u f := by
  let c : Configuration :=
    { Configuration.initial with certificates := [⟨"", "a"⟩, ⟨"ca.crt", "b"⟩, ⟨"other", "c"⟩] }
  let d : Destinations := ⟨.ofText "registries.conf", .ofText "policy.json", .ofText "certs"⟩
  let t := ((FileTree.empty.put "registries.conf" [] (.file "old".toUTF8)).put
    "certs" [] .directory).put "old" ["certs"] .directory
  have hslash : ∀ k ∈ c.certificates, '/' ∉ k.registry.toList := by decide
  have hd : d.Suit t := by
    constructor <;> decide +kernel
  have hfailure : (run c d t).1 =
      .error ⟨.certWrite, ⟨.ofText "certs/ca.crt", .alreadyExists⟩⟩ := by
    decide +kernel
  obtain ⟨u, hrun⟩ := exists_run_eq hfailure
  exact ⟨c, d, t, u, _, hslash, hd, hrun, by decide +kernel, by decide +kernel, rfl,
    stops_at_stage hslash hd hrun⟩

/-- Up to the certificates a pass does not depend on them. -/
theorem run_eq_error_of_writing {summary : Summary} {e : IoFailure} {v : FileTree}
    (hrun : run { c with certificates := [] } d t = (.ok summary, v))
    (hwriting : Action.runAll (TrustStore.writingAll ⟨d.certsDir⟩ c.certificates) v = (.error e, u))
    : run c d t = (.error ⟨.certWrite, e⟩, u) := by
  obtain ⟨t₁, t₂, t₃, hregistries, hpolicy, hremove, hnone⟩ :=
    exists_of_runStages (runStages_of_run hrun).2
  injection hnone with _ hnone
  have hclearing : Action.runAll (TrustStore.clearing ⟨d.certsDir⟩) t₂ = (.ok (), v) :=
    Action.runAll_cons_eq_ok_iff.mpr ⟨t₃, hremove, congrArg (Prod.mk _) hnone⟩
  have hstages : runStages (c.stages d) t = (.error ⟨.certWrite, e⟩, u) := by
    refine runStages_cons_eq_error_iff.mpr (.inr ⟨t₁, hregistries, ?_⟩)
    refine runStages_cons_eq_error_iff.mpr (.inr ⟨t₂, hpolicy, ?_⟩)
    refine runStages_cons_eq_error_iff.mpr (.inr ⟨v, hclearing, ?_⟩)
    exact runStages_cons_eq_error_iff.mpr (.inl ⟨rfl, hwriting⟩)
  rw [run, hstages]

/-- The folder of certificates is made before the folder in it turns out to have a name that is too
long. -/
theorem failed_writing_of_isTooLong (hmissing : t.entry? ["certs"] = none) {k : Certificate}
    (hslash : '/' ∉ k.registry.toList) (htaken : Path.refusal? ⟨["certs", k.folder]⟩ = none)
    (hlong : FileTree.isTooLong k.folder = true)
    : Action.runAll (TrustStore.writing ⟨.ofText "certs"⟩ k) t =
        (.error ⟨⟨["certs", k.folder]⟩, .nameTooLong⟩, t.put "certs" [] .directory) := by
  have hfolder : TrustStore.folder ⟨.ofText "certs"⟩ k = ⟨["certs", k.folder]⟩ := by
    rw [TrustStore.folder, Path.join_ofText (Certificate.slash_not_mem_folder hslash)]
    rfl
  have hname := FileTree.isName_of_isTooLong hlong
  have hplain : Path.IsPlain ⟨["certs", k.folder]⟩ := by
    simpa [Path.IsPlain] using And.intro (Path.ne_dot_of_isName hname) k.folder_ne_dots
  rw [TrustStore.writing, hfolder, Action.runAll, Action.run, Action.perform,
    FileTree.makeDirectories_of_isTooLong hplain ⟨by decide, Path.ne_empty_of_isName hname⟩ htaken
      (by decide) hlong hmissing]
  rfl

/-- The name of the first folder is too long for the system: the folder of certificates has been
made by then, though no certificate is in it and not this folder either. -/
theorem stops_with_bare_root
    : ∃ c d t u f, (∀ k ∈ c.certificates, '/' ∉ k.registry.toList) ∧ d.Suit t ∧
        run c d t = (.error f, u) ∧ f.stage = .certWrite ∧
        ¬ ∃ done k rest, c.certificates = done ++ k :: rest ∧
          (TrustStore.HasLayout ⟨d.certsDir⟩ done u ∨
            ∀ rel, u.entry? (rel ++ d.certsDir.location) =
              if rel <:+ k.inside then some .directory else TrustStore.layout done rel) := by
  let d : Destinations := ⟨.ofText "registries.conf", .ofText "policy.json", .ofText "certs"⟩
  let k : Certificate := ⟨String.ofList (List.replicate 256 'a'), ""⟩
  let c : Configuration := { Configuration.initial with certificates := [k] }
  have hd : d.Suit .empty := by
    constructor <;> decide +kernel
  have hother : ∀ ch, ch ≠ 'a' → ch ∉ List.replicate 256 'a' :=
    fun ch hne hmem => hne (List.eq_of_mem_replicate hmem)
  have hfolder : k.folder = String.ofList (List.replicate 256 'a') := by
    rw [Certificate.folder, folderName, String.toList_ofList,
      colonForDots_eq_self (hother '.' (by decide))]
  have hslash : '/' ∉ k.registry.toList := by
    rw [String.toList_ofList]
    exact hother '/' (by decide)
  have htaken : Path.refusal? ⟨["certs", k.folder]⟩ = none := by
    have hletters : k.folder.toList.contains '\x00' = false := by
      rw [hfolder, String.toList_ofList, List.contains_eq_mem,
        decide_eq_false (hother '\x00' (by decide))]
    rw [Path.refusal?_eq_none_iff, Path.hasNul, List.any_cons, List.any_cons, hletters, hfolder]
    decide +kernel
  have hlong : FileTree.isTooLong k.folder = true := by
    rw [hfolder]
    decide +kernel
  have hsummary : (run .initial d .empty).1 = .ok ⟨0, 0, 0⟩ := by decide +kernel
  obtain ⟨v, hcompleted⟩ := exists_run_eq hsummary
  have hmissing : v.entry? ["certs"] = none := by
    cases course_of_run (fun _ hk => absurd hk List.not_mem_nil) hd hcompleted with
    | completed _ _ layout _ => exact layout []
  have hwriting : Action.runAll (TrustStore.writingAll ⟨d.certsDir⟩ c.certificates) v =
      (.error ⟨⟨["certs", k.folder]⟩, .nameTooLong⟩, v.put "certs" [] .directory) := by
    rw [TrustStore.writingAll, List.flatMap_singleton]
    exact failed_writing_of_isTooLong hmissing hslash htaken hlong
  have hput : ∀ l, FileTree.entry? (v.put "certs" [] .directory) l =
      if l = ["certs"] then some .directory else v.entry? l := by
    intro l
    apply FileTree.entry?_put .directory rfl
    rw [hmissing]
    exact (Option.some_ne_none _).symm
  refine ⟨c, d, .empty, _, _, ?_, hd, run_eq_error_of_writing hcompleted hwriting, rfl, ?_⟩
  . intro k' hk
    rw [List.mem_singleton.mp hk]
    exact hslash
  . rintro ⟨done, k', rest, hcertificates, h⟩
    obtain ⟨rfl, rfl⟩ : done = [] ∧ k = k' := by
      cases done with
      | nil => exact ⟨rfl, (List.cons.inj hcertificates).1⟩
      | cons other done => exact absurd (List.cons.inj hcertificates).2.symm (by simp)
    rcases h with hlayout | hlayout
    . have hroot := (hput ["certs"]).symm.trans (hlayout [])
      rw [if_pos rfl] at hroot
      cases hroot
    . have hinside : k.inside = [k.folder] := by
        rw [Certificate.inside, if_pos (FileTree.isName_of_isTooLong hlong)]
      have hmade := (hput [k.folder, "certs"]).symm.trans (hlayout [k.folder])
      rw [hinside, if_pos List.suffix_rfl, if_neg (by simp),
        FileTree.entry?_eq_none_of_suffix hmissing (List.suffix_cons _ _)] at hmade
      cases hmade

end RegistrySync.Pass
