import RegistrySync.Pass
import RegistrySync.Proofs.FileTree.Removal
import RegistrySync.Proofs.Policy.Rejection
import RegistrySync.Proofs.TrustStore.Contents

/-!
A pass that completes has written the configuration and nothing else to its destinations, whatever
stood there before.
-/

namespace RegistrySync

/-- Neither location is the other one or inside it. -/
def Location.Apart (l m : Location) : Prop :=
  ¬ l <:+ m ∧ ¬ m <:+ l

namespace Location.Apart

variable {l m : Location}

instance (l m : Location) : Decidable (l.Apart m) :=
  inferInstanceAs (Decidable (_ ∧ _))

theorem symm (h : l.Apart m) : m.Apart l :=
  ⟨h.2, h.1⟩

theorem ne (h : l.Apart m) : l ≠ m := by
  rintro rfl
  exact h.1 List.suffix_rfl

theorem ne_nil (h : l.Apart m) : l ≠ [] := by
  rintro rfl
  exact h.1 List.nil_suffix

theorem not_suffix (h : l.Apart m) (rel : Location) : ¬ rel ++ m <:+ l :=
  fun hsuffix => h.2 ((List.suffix_append rel m).trans hsuffix)

theorem not_suffix_tail (h : l.Apart m) (rel : Location) : ¬ rel ++ m <:+ l.tail :=
  fun hsuffix => h.not_suffix rel (hsuffix.trans (List.tail_suffix l))

end Location.Apart

/-- The destinations are made of names and apart from one another, and no link is on the way. The
folder of certificates may be a link itself, unless its path leads through the link. -/
structure Destinations.Suit (d : Destinations) (t : FileTree) : Prop where
  registriesConf : d.registriesConf.IsPlain
  policyJson : d.policyJson.IsPlain
  certsDir : d.certsDir.IsPlain
  registriesApartPolicy : d.registriesConf.location.Apart d.policyJson.location
  registriesApartCerts : d.registriesConf.location.Apart d.certsDir.location
  policyApartCerts : d.policyJson.location.Apart d.certsDir.location
  registriesLinkFree : t.LinkFree d.registriesConf.location
  policyLinkFree : t.LinkFree d.policyJson.location
  certsLinkFree : t.LinkFree d.certsDir.location.tail
  certsSlash : d.certsDir.endsInSlash = true → t.LinkFree d.certsDir.location

theorem Destinations.Suit.of_linksFrom {d : Destinations} {t u : FileTree} (h : d.Suit t)
    (hlinks : FileTree.LinksFrom t u) : d.Suit u :=
  { h with
    registriesLinkFree := h.registriesLinkFree.of_linksFrom hlinks
    policyLinkFree := h.policyLinkFree.of_linksFrom hlinks
    certsLinkFree := h.certsLinkFree.of_linksFrom hlinks
    certsSlash := fun hslash => (h.certsSlash hslash).of_linksFrom hlinks }

namespace Pass

variable {t u : FileTree} {c : Configuration} {d : Destinations}

theorem runStages_cons_eq_ok_iff {stage : Stage} {actions : List Action}
    {rest : List (Stage × List Action)}
    : runStages ((stage, actions) :: rest) t = (.ok (), u) ↔
        ∃ v, Action.runAll actions t = (.ok (), v) ∧ runStages rest v = (.ok (), u) := by
  rw [runStages]
  rcases hactions : Action.runAll actions t with ⟨outcome, v⟩
  cases outcome with
  | ok =>
    constructor
    . intro h
      exact ⟨v, rfl, h⟩
    . rintro ⟨v', hv, h⟩
      injection hv with _ hv
      rw [hv]
      exact h
  | error e =>
    constructor
    . intro h
      injection h
      contradiction
    . rintro ⟨v', hv, -⟩
      injection hv
      contradiction

theorem runStages_of_run {summary : Summary} (h : run c d t = (.ok summary, u))
    : summary = c.summary ∧ runStages (c.stages d) t = (.ok (), u) := by
  unfold run at h
  split at h
  . next hstages =>
    injection h with hsummary hu
    injection hsummary with hsummary
    rw [hstages, hu, hsummary]
    exact ⟨rfl, rfl⟩
  . injection h
    contradiction

theorem run_eq {outcome : Except Failure Summary} (h : (run c d t).1 = outcome)
    : run c d t = (outcome, (run c d t).2) :=
  Prod.ext h rfl

theorem exists_run_eq {outcome : Except Failure Summary} (h : (run c d t).1 = outcome)
    : ∃ u, run c d t = (outcome, u) :=
  ⟨(run c d t).2, run_eq h⟩

theorem exists_of_runStages (h : runStages (c.stages d) t = (.ok (), u))
    : ∃ t₁ t₂ t₃,
        Action.runAll (Action.writing d.registriesConf c.registries.toToml) t = (.ok (), t₁) ∧
        Action.runAll (Action.writing d.policyJson c.policy.toJson) t₁ = (.ok (), t₂) ∧
        t₂.removeTree d.certsDir = (.ok (), t₃) ∧
        Action.runAll (TrustStore.writingAll ⟨d.certsDir⟩ c.certificates) t₃ = (.ok (), u) := by
  obtain ⟨t₁, hregistries, h⟩ := runStages_cons_eq_ok_iff.mp h
  obtain ⟨t₂, hpolicy, h⟩ := runStages_cons_eq_ok_iff.mp h
  obtain ⟨t₃, hclearing, h⟩ := runStages_cons_eq_ok_iff.mp h
  obtain ⟨t₄, hwriting, h⟩ := runStages_cons_eq_ok_iff.mp h
  obtain ⟨v, hremove, hclearing⟩ := Action.runAll_cons_eq_ok_iff.mp hclearing
  injection hclearing with _ hv
  injection h with _ hu
  subst hv hu
  exact ⟨t₁, t₂, v, hregistries, hpolicy, hremove, hwriting⟩

theorem run_completed {summary : Summary} (hnamed : ∀ k ∈ c.certificates, k.IsNamed)
    (hd : d.Suit t) (hrun : run c d t = (.ok summary, u))
    : u.entry? d.registriesConf.location = some (.file c.registries.toToml.toUTF8) ∧
      u.entry? d.policyJson.location = some (.file c.policy.toJson.toUTF8) ∧
      TrustStore.Holds ⟨d.certsDir⟩ c.certificates u ∧
      summary = ⟨c.registries.entries.size, c.policy.rejected.length, c.certificates.length⟩ ∧
      c.policy.rejected.Nodup ∧
      (∀ r, r ∈ c.policy.rejected ↔ ∃ transport, c.policy.rejectsOn r transport = true) := by
  obtain ⟨hsummary, hstages⟩ := runStages_of_run hrun
  obtain ⟨t₁, t₂, t₃, hregistries, hpolicy, hremove, hwriting⟩ := exists_of_runStages hstages
  -- The first two stages.
  have hregistries := Action.WritesFile.of_runAll_writing hd.registriesConf
    hd.registriesApartPolicy.ne_nil hd.registriesLinkFree hregistries
  have hpolicy := Action.WritesFile.of_runAll_writing hd.policyJson
    hd.registriesApartPolicy.symm.ne_nil (hd.policyLinkFree.of_linksFrom hregistries.linksFrom)
    hpolicy
  have hlinks := hregistries.linksFrom.trans hpolicy.linksFrom
  -- The certificates of earlier passes.
  have hremove := FileTree.entry?_removeTree hd.certsDir hd.registriesApartCerts.symm.ne_nil
    (hd.certsLinkFree.of_linksFrom hlinks)
    (fun hslash => (hd.certsSlash hslash).of_linksFrom hlinks) hremove
  have hlinks : FileTree.LinksFrom t t₃ := by
    apply hlinks.trans
    apply FileTree.LinksFrom.of_eq_or_ne
    intro l
    rw [hremove]
    split
    . exact .inr nofun
    . exact .inl rfl
  have hempty : TrustStore.Holds ⟨d.certsDir⟩ [] t₃ := by
    intro inside
    rw [hremove, if_pos (List.suffix_append inside _), TrustStore.contents_nil]
  obtain ⟨hheld, halone⟩ := TrustStore.holds_of_writingAll hd.certsDir hnamed
    (hd.certsLinkFree.of_linksFrom hlinks) hempty hwriting
  refine ⟨?_, ?_, hheld, hsummary, ?_, c.policy.mem_rejected⟩
  . rw [halone _ hd.registriesApartCerts.1 hd.registriesApartCerts.2, hremove,
      if_neg hd.registriesApartCerts.2, hpolicy, if_neg hd.registriesApartPolicy.ne,
      if_neg hd.registriesApartPolicy.1, hregistries, if_pos rfl]
  . rw [halone _ hd.policyApartCerts.1 hd.policyApartCerts.2, hremove,
      if_neg hd.policyApartCerts.2, hpolicy, if_pos rfl]
  . apply c.policy.pairwise_rejected.imp
    rintro r s hlt rfl
    exact List.lt_irrefl _ hlt

/-- The folder of certificates is a link at first, and two certificates share a folder. -/
theorem run_completed_over_link
    : ∃ c d t u summary, (∀ k ∈ c.certificates, k.IsNamed) ∧ d.Suit t ∧
        run c d t = (.ok summary, u) ∧
        t.entry? ["certs"] = some (.link (.ofText "etc")) ∧
        u.entry? ["registries.conf", "etc"] = some (.file c.registries.toToml.toUTF8) ∧
        u.entry? ["ca.crt", "a:5000", "certs"] = some (.file "new".toUTF8) ∧
        u.entry? ["registries.conf", "certs"] = none := by
  let c : Configuration :=
    { Configuration.initial with certificates := [⟨"a..5000", "old"⟩, ⟨"a:5000", "new"⟩] }
  let d : Destinations :=
    ⟨.ofText "etc/registries.conf", .ofText "etc/policy.json", .ofText "certs"⟩
  let t := ((FileTree.empty.put "etc" [] .directory).put "registries.conf" ["etc"]
    (.file "old".toUTF8)).put "certs" [] (.link (.ofText "etc"))
  have hnamed : ∀ k ∈ c.certificates, k.IsNamed := by decide
  have hd : d.Suit t := by
    constructor <;> decide +kernel
  have hsummary : (run c d t).1 = .ok ⟨0, 0, 2⟩ := by decide +kernel
  obtain ⟨u, hrun⟩ : ∃ u, run c d t = (.ok ⟨0, 0, 2⟩, u) := by
    rw [← hsummary]
    exact ⟨_, rfl⟩
  obtain ⟨hregistries, -, hheld, -⟩ := run_completed hnamed hd hrun
  exact ⟨c, d, t, u, _, hnamed, hd, hrun, by rfl, hregistries, hheld ["ca.crt", "a:5000"],
    hheld ["registries.conf"]⟩

end Pass
end RegistrySync
