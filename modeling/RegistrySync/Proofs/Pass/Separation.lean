import RegistrySync.Proofs.Pass.Completion
import RegistrySync.Proofs.TrustStore.Filling
import RegistrySync.Proofs.TrustStore.Folders

/-!
The certificates of a config map do not get in each other's way: after a pass there are as many
files in the folder of certificates as there are keys, and each key finds its own certificate.
-/

namespace RegistrySync.Pass

variable {t u : FileTree} {c : Configuration} {d : Destinations} {summary : Summary}

theorem exists_vacant_of_run (hplain : d.certsDir.IsPlain) (hne : d.certsDir ≠ .empty)
    (hrun : run c d t = (.ok summary, u))
    : ∃ v, d.certsDir.refusal? = none ∧ (∀ l, ¬ v.Opens d.certsDir.steps l) ∧
        Action.runAll (TrustStore.writingAll ⟨d.certsDir⟩ c.certificates) v = (.ok (), u) := by
  obtain ⟨t₁, t₂, t₃, -, -, hremove, hwriting⟩ := exists_of_runStages (runStages_of_run hrun).2
  exact ⟨t₃, FileTree.refusal?_of_removeTree hremove,
    FileTree.not_opens_of_removeTree hplain hne hremove, hwriting⟩

theorem certificates_of_run (hplain : d.certsDir.IsPlain) (hne : d.certsDir ≠ .empty)
    (hnamed : ∀ k ∈ c.certificates, k.IsNamed)
    (hfolders : (c.certificates.map (·.folder)).Nodup) (hrun : run c d t = (.ok summary, u))
    : (TrustStore.files ⟨d.certsDir⟩ u).length = c.certificates.length ∧
        ∀ k ∈ c.certificates, u.read (TrustStore.file ⟨d.certsDir⟩ k) = .ok k.content.toUTF8 := by
  obtain ⟨v, htaken, hvacant, hwriting⟩ := exists_vacant_of_run hplain hne hrun
  by_cases hempty : c.certificates = []
  . rw [hempty] at hwriting ⊢
    injection hwriting with _ hv
    subst hv
    have hnone : TrustStore.files ⟨d.certsDir⟩ v = [] := TrustStore.files_eq_nil hvacant
    exact ⟨congrArg List.length hnone, List.forall_mem_nil _⟩
  . obtain ⟨l, hkeeps⟩ :=
      TrustStore.exists_keeps_of_writingAll hplain hnamed hvacant hempty hwriting
    exact ⟨hkeeps.length_files htaken hne hfolders,
      fun k hk => hkeeps.read hplain (hnamed k hk) hfolders hk⟩

theorem keys_kept_apart
    : (∀ r s, ':' ∉ r.toList → ':' ∉ s.toList → folderName r = folderName s → r = s) ∧
      (∀ r, ¬ twoDots <:+: r.toList → folderName r = r) ∧
      (∀ r, twoDots <:+: r.toList → ∃ before after, r.toList = before ++ twoDots ++ after ∧
        ¬ twoDots <:+: before ++ ['.'] ∧ (folderName r).toList = before ++ ':' :: after) ∧
      ∀ data : Std.ExtTreeMap String String,
        (∀ r : String, r ∈ data → ':' ∉ r.toList) →
        (Certificate.ofMap data).length = data.size ∧
        (∀ k, k ∈ Certificate.ofMap data ↔ data[k.registry]? = some k.content) ∧
        (Certificate.ofMap data).Pairwise
          (fun j k => Text.bytes j.registry < Text.bytes k.registry) ∧
        ((Certificate.ofMap data).map (·.folder)).Nodup ∧
        ∀ c d t u summary, c.certificates = Certificate.ofMap data →
          (∀ k ∈ c.certificates, k.IsNamed) → d.certsDir.IsPlain → d.certsDir ≠ .empty →
          run c d t = (.ok summary, u) →
          (TrustStore.files ⟨d.certsDir⟩ u).length = data.size ∧
          ∀ k ∈ c.certificates,
            u.read (TrustStore.file ⟨d.certsDir⟩ k) = .ok k.content.toUTF8 := by
  refine ⟨fun r s => folderName_injective, fun r => folderName_eq_self,
    fun r => folderName_of_twoDots, ?_⟩
  intro data hcolon
  have hfolders := Certificate.nodup_folder_ofMap hcolon
  refine ⟨Certificate.length_ofMap data, fun k => Certificate.mem_ofMap_iff,
    Certificate.pairwise_ofMap data, hfolders, ?_⟩
  intro c d t u summary hcertificates hnamed hplain hne hrun
  rw [← Certificate.length_ofMap, ← hcertificates]
  exact certificates_of_run hplain hne hnamed (hcertificates ▸ hfolders) hrun

/-- The folder of certificates is reached through a link, and a certificate from before is gone.
The dots of the keys are at an end or more than two. -/
theorem keys_kept_apart_through_link
    : ∃ (data : Std.ExtTreeMap String String) (c : Configuration) (d : Destinations)
        (t u : FileTree) (summary : Summary), c.certificates = Certificate.ofMap data ∧
        data.keys = ["..a", "a...b", "a..5000", "b.."] ∧
        (Certificate.ofMap data).map (·.folder) = [":a", "a:.b", "a:5000", "b:"] ∧
        run c d t = (.ok summary, u) ∧
        t.entry? ["docker"] = some (.link (.ofText "/etc/trust")) ∧
        t.entry? ["ca.crt", "old", "certs.d", "trust", "etc"] = some (.file "old".toUTF8) ∧
        (TrustStore.files ⟨d.certsDir⟩ u).length = 4 ∧
        u.read (TrustStore.file ⟨d.certsDir⟩ ⟨"a...b", "two"⟩) = .ok "two".toUTF8 := by
  let data : Std.ExtTreeMap String String :=
    .ofList [("a..5000", "three"), ("..a", "one"), ("b..", "four"), ("a...b", "two")]
  let c : Configuration := { Configuration.initial with certificates := Certificate.ofMap data }
  let d : Destinations :=
    ⟨.ofText "registries.conf", .ofText "policy.json", .ofText "docker/certs.d"⟩
  let t := (((((FileTree.empty.put "etc" [] .directory).put "trust" ["etc"] .directory).put
    "certs.d" ["trust", "etc"] .directory).put "old" ["certs.d", "trust", "etc"] .directory).put
    "ca.crt" ["old", "certs.d", "trust", "etc"] (.file "old".toUTF8)).put
    "docker" [] (.link (.ofText "/etc/trust"))
  have hkeys : data.keys = ["..a", "a...b", "a..5000", "b.."] := by decide +kernel
  have hcolon : ∀ r : String, r ∈ data → ':' ∉ r.toList := by
    intro r hr
    rw [← Std.ExtTreeMap.mem_keys, hkeys] at hr
    revert r
    decide
  have hnamed : ∀ k ∈ c.certificates, k.IsNamed := by decide +kernel
  have hsummary : (run c d t).1 = .ok ⟨0, 0, 4⟩ := by decide +kernel
  obtain ⟨u, hrun⟩ := exists_run_eq hsummary
  obtain ⟨-, -, -, hdata⟩ := keys_kept_apart
  obtain ⟨-, hmem, -, -, hpass⟩ := hdata data hcolon
  obtain ⟨hcount, hread⟩ := hpass c d t u _ rfl hnamed (by decide) (by decide) hrun
  refine ⟨data, c, d, t, u, _, rfl, hkeys, by decide +kernel, hrun, by decide +kernel,
    by decide +kernel, hcount.trans (by decide +kernel), hread _ ?_⟩
  rw [hmem]
  decide +kernel

end RegistrySync.Pass
