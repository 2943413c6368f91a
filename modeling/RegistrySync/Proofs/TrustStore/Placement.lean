import RegistrySync.Proofs.FileTree.Linkless
import RegistrySync.Proofs.TrustStore.Layout

/-!
Where certificates are placed, whatever their registries are called: each at the goal of its path,
which may be outside the store.
-/

namespace RegistrySync.TrustStore

open FileTree (LinksFrom Spares)

variable {s : TrustStore} {t u : FileTree} {certificates : List Certificate}

/-- The location of the file of a certificate. -/
def goal (s : TrustStore) (c : Certificate) : Location :=
  (s.file c).goal

/-- At the location of each certificate there is one of those that belong there, and elsewhere
nothing has changed but that directories were made. -/
structure Places (s : TrustStore) (certificates : List Certificate) (t u : FileTree) : Prop where
  placed : ∀ c ∈ certificates, ∃ k ∈ certificates, s.goal k = s.goal c ∧
    u.entry? (s.goal c) = some (.file k.content.toUTF8)
  spares : Spares (fun l => ∃ c ∈ certificates, s.goal c = l) (fun _ => True) t u

theorem Places.linksFrom (h : s.Places certificates t u) : LinksFrom t u := by
  apply h.spares.linksFrom
  rintro l target ⟨c, hc, rfl⟩
  obtain ⟨k, -, -, hfile⟩ := h.placed c hc
  rw [hfile]
  exact nofun

theorem Places.of_writing (hlinks : t.NoLinks) {c : Certificate}
    (h : Action.runAll (s.writing c) t = (.ok (), u)) : s.Places [c] t u := by
  obtain ⟨v, hmake, h⟩ := Action.runAll_cons_eq_ok_iff.mp h
  obtain ⟨w, hwrite, h⟩ := Action.runAll_cons_eq_ok_iff.mp h
  injection h with _ h
  subst h
  have hgrows := FileTree.grows_of_makeDirectories hmake
  have hlinks := hlinks.of_linksFrom (hgrows.linksFrom fun _ _ h => h.elim)
  have hfile := FileTree.entry?_write_of_reaches (hlinks.reaches (s.file c))
    (Action.exists_of_perform_write hwrite)
  constructor
  . intro k hk
    rw [List.mem_singleton.mp hk]
    refine ⟨c, List.mem_singleton_self c, rfl, ?_⟩
    rw [goal, hfile, if_pos rfl]
  . apply (hgrows.mono (fun _ h => h.elim) fun _ _ h => h).trans
    intro l hl
    rw [hfile, if_neg]
    . exact .inl rfl
    . intro heq
      exact hl ⟨c, List.mem_singleton_self c, heq.symm⟩

theorem Places.append {v : FileTree} {more : List Certificate} (h : s.Places certificates t u)
    (h' : s.Places more u v) : s.Places (certificates ++ more) t v where
  placed := by
    intro c hc
    by_cases hmore : ∃ k ∈ more, s.goal k = s.goal c
    . obtain ⟨k, hk, hgoal⟩ := hmore
      rw [← hgoal]
      obtain ⟨j, hj, hsame, hfile⟩ := h'.placed k hk
      exact ⟨j, List.mem_append_right _ hj, hsame, hfile⟩
    . have hc : c ∈ certificates :=
        (List.mem_append.mp hc).resolve_right fun hc => hmore ⟨c, hc, rfl⟩
      obtain ⟨k, hk, hsame, hfile⟩ := h.placed c hc
      refine ⟨k, List.mem_append_left _ hk, hsame, ?_⟩
      -- A file that is in the way of no later certificate stays.
      rcases h'.spares _ hmore with heq | ⟨-, hnone, -⟩
      . rw [heq, hfile]
      . rw [hfile] at hnone
        exact absurd hnone (Option.some_ne_none _)
  spares := by
    apply (h.spares.mono _ fun _ _ h => h).trans (h'.spares.mono _ fun _ _ h => h)
    . rintro l ⟨c, hc, hgoal⟩
      exact ⟨c, List.mem_append_left _ hc, hgoal⟩
    . rintro l ⟨c, hc, hgoal⟩
      exact ⟨c, List.mem_append_right _ hc, hgoal⟩

theorem Places.of_writingAll (hlinks : t.NoLinks)
    (h : Action.runAll (s.writingAll certificates) t = (.ok (), u))
    : s.Places certificates t u := by
  induction certificates generalizing t with
  | nil =>
    injection h with _ h
    rw [← h]
    exact ⟨nofun, .refl _ _ t⟩
  | cons c certificates ih =>
    rw [writingAll, List.flatMap_cons, Action.runAll_append_eq_ok_iff] at h
    obtain ⟨v, hfirst, hrest⟩ := h
    have hfirst := Places.of_writing hlinks hfirst
    exact hfirst.append (ih (hlinks.of_linksFrom hfirst.linksFrom) hrest)

end RegistrySync.TrustStore
