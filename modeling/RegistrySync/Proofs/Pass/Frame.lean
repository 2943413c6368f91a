import RegistrySync.Proofs.Pass.Course

/-!
A pass touches nothing but its artifacts, however far it comes.
-/

namespace RegistrySync.Pass

open FileTree (LinksFrom Spares)

variable {t u : FileTree} {c : Configuration} {d : Destinations}

/-- The two files, and the folder of certificates with all that is in it. -/
def IsArtifact (d : Destinations) (l : Location) : Prop :=
  l = d.registriesConf.location ∨ l = d.policyJson.location ∨ d.certsDir.location <:+ l

/-- At an artifact or above one. -/
def LeadsToArtifact (d : Destinations) (l : Location) : Prop :=
  l <:+ d.registriesConf.location ∨ l <:+ d.policyJson.location ∨ l <:+ d.certsDir.location

theorem Filed.spares_artifacts (h : Filed c d t u)
    : Spares (IsArtifact d) (LeadsToArtifact d) t u := by
  apply h.spares.mono
  . rintro l (hl | hl)
    . exact .inl hl
    . exact .inr (.inl hl)
  . rintro l - (hl | hl)
    . exact .inl hl
    . exact .inr (.inl hl)

theorem spares_artifacts_of_inside
    (h : Spares (d.certsDir.location <:+ ·) (· <:+ d.certsDir.location) t u)
    : Spares (IsArtifact d) (LeadsToArtifact d) t u :=
  h.mono (fun _ hl => .inr (.inr hl)) (fun _ _ hl => .inr (.inr hl))

theorem Course.spares {outcome : Except Failure Summary} (h : Course c d t u outcome)
    : Spares (IsArtifact d) (LeadsToArtifact d) t u := by
  cases h with
  | registries makes =>
    exact makes.spares fun _ hl => .inl (hl.trans (List.tail_suffix _))
  | policy _ spares makes =>
    apply (spares.mono (fun _ => .inl) (fun _ _ => .inl)).trans
    exact makes.spares fun _ hl => .inr (.inl (hl.trans (List.tail_suffix _)))
  | certCleanup filed => exact filed.spares_artifacts
  | certWrite filed clears _ _ _ _ _ spares =>
    exact filed.spares_artifacts.trans (spares_artifacts_of_inside (clears.spares.trans spares))
  | completed filed clears _ spares =>
    exact filed.spares_artifacts.trans (spares_artifacts_of_inside (clears.spares.trans spares))

theorem Course.not_link {outcome : Except Failure Summary} (h : Course c d t u outcome)
    (hreached : ∀ f, outcome = .error f → f.stage = .certWrite) (rel : Location) (target : Path)
    : u.entry? (rel ++ d.certsDir.location) ≠ some (.link target) := by
  cases h with
  | registries => cases hreached _ rfl
  | policy => cases hreached _ rfl
  | certCleanup => cases hreached _ rfl
  | certWrite _ _ _ _ _ _ stopped _ =>
    cases stopped with
    | unchanged layout =>
      rw [layout]
      exact TrustStore.layout_ne_link _ rel target
    | withFolder entry?_eq =>
      rw [entry?_eq]
      split
      . exact nofun
      . exact TrustStore.layout_ne_link _ rel target
    | rootOnly _ _ entry?_eq =>
      rw [entry?_eq]
      split <;> exact nofun
  | completed _ _ layout _ =>
    rw [layout]
    exact TrustStore.layout_ne_link _ rel target

theorem Course.linksFrom {outcome : Except Failure Summary} (h : Course c d t u outcome)
    : LinksFrom t u := by
  have hspares {v : FileTree} (hreached : ∀ f, outcome = .error f → f.stage = .certWrite)
      (hspares : Spares (d.certsDir.location <:+ ·) (· <:+ d.certsDir.location) v u) :
      LinksFrom v u := by
    apply hspares.linksFrom
    rintro _ target ⟨rel, rfl⟩
    exact h.not_link hreached rel target
  cases h with
  | registries makes => exact makes.linksFrom
  | policy writes _ makes => exact writes.linksFrom.trans makes.linksFrom
  | certCleanup filed => exact filed.linksFrom
  | certWrite filed clears _ _ _ _ _ spares =>
    apply (filed.linksFrom.trans clears.linksFrom).trans
    exact hspares (fun _ heq => by cases heq; rfl) spares
  | completed filed clears _ spares =>
    exact (filed.linksFrom.trans clears.linksFrom).trans (hspares nofun spares)

theorem run_spares {outcome : Except Failure Summary}
    (hslash : ∀ k ∈ c.certificates, '/' ∉ k.registry.toList) (hd : d.Suit t)
    (hrun : run c d t = (outcome, u))
    : (∀ l, l ≠ d.registriesConf.location → l ≠ d.policyJson.location →
        ¬ d.certsDir.location <:+ l → u.entry? l = t.entry? l ∨
          t.entry? l = none ∧ u.entry? l = some .directory ∧
            (l <:+ d.registriesConf.location ∨ l <:+ d.policyJson.location ∨
              l <:+ d.certsDir.location)) ∧
      ((∀ f, outcome = .error f → f.stage = .certWrite) →
        ∀ rel target, u.entry? (rel ++ d.certsDir.location) ≠ some (.link target)) ∧
      (∀ k ∈ c.certificates, '/' ∉ k.folder.toList ∧ k.folder ≠ "..") := by
  have hcourse := course_of_run hslash hd hrun
  refine ⟨?_, hcourse.not_link, ?_⟩
  . intro l hregistries hpolicy hcerts
    have hl : ¬ IsArtifact d l := by
      rintro (h | h | h)
      . exact hregistries h
      . exact hpolicy h
      . exact hcerts h
    rcases hcourse.spares l hl with heq | ⟨habove, hnone, hdirectory⟩
    . exact .inl heq
    . exact .inr ⟨hnone, hdirectory, habove⟩
  . intro k hk
    exact ⟨Certificate.slash_not_mem_folder (hslash k hk), k.folder_ne_dots⟩

/-- The folder of certificates is a link at first, to a folder with a link in it, and the names of
the registries are those that could lead elsewhere. -/
theorem run_spares_over_links
    : ∃ c d t u summary, (∀ k ∈ c.certificates, '/' ∉ k.registry.toList) ∧ d.Suit t ∧
        run c d t = (.ok summary, u) ∧
        c.certificates.map (·.registry) = ["", ".", "..", "...", "..5000"] ∧
        t.entry? ["certs"] = some (.link (.ofText "/etc/trust")) ∧
        t.entry? ["up", "trust", "etc"] = some (.link (.ofText "..")) ∧
        u.entry? ["up", "trust", "etc"] = some (.link (.ofText "..")) ∧
        u.entry? ["ca.crt", "etc"] = none ∧
        (∀ rel target, u.entry? (rel ++ ["certs"]) ≠ some (.link target)) := by
  let c : Configuration := { Configuration.initial with
    certificates := [⟨"", "a"⟩, ⟨".", "b"⟩, ⟨"..", "c"⟩, ⟨"...", "d"⟩, ⟨"..5000", "e"⟩] }
  let d : Destinations :=
    ⟨.ofText "conf/registries.conf", .ofText "conf/policy.json", .ofText "certs"⟩
  let t := (((FileTree.empty.put "etc" [] .directory).put "trust" ["etc"] .directory).put
    "up" ["trust", "etc"] (.link (.ofText ".."))).put "certs" [] (.link (.ofText "/etc/trust"))
  have hslash : ∀ k ∈ c.certificates, '/' ∉ k.registry.toList := by decide
  have hd : d.Suit t := by
    constructor <;> decide +kernel
  have hsummary : (run c d t).1 = .ok ⟨0, 0, 5⟩ := by decide +kernel
  obtain ⟨u, hrun⟩ := exists_run_eq hsummary
  obtain ⟨hspares, hlinks, -⟩ := run_spares hslash hd hrun
  have hlink : t.entry? ["up", "trust", "etc"] = some (.link (.ofText "..")) := by decide +kernel
  have hnone : t.entry? ["ca.crt", "etc"] = none := by decide +kernel
  refine ⟨c, d, t, u, _, hslash, hd, hrun, rfl, by decide +kernel, hlink, ?_, ?_, hlinks nofun⟩
  . rcases hspares ["up", "trust", "etc"] (by decide) (by decide) (by decide) with heq | ⟨hnot, -⟩
    . rw [heq, hlink]
    . rw [hlink] at hnot
      exact absurd hnot (Option.some_ne_none _)
  . rcases hspares ["ca.crt", "etc"] (by decide) (by decide) (by decide) with heq | ⟨-, -, habove⟩
    . rw [heq, hnone]
    . exact absurd habove (by decide)

end RegistrySync.Pass
