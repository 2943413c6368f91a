import RegistrySync.Proofs.Action.Completion

/-!
Actions that fail: a list of actions stops at the first that fails, and what came before it is done.
Whether or not a file could be written, nothing changes but the file and the directories above it.
-/

namespace RegistrySync.Action

open FileTree (MakesDirectories Spares)

variable {t u : FileTree} {e : IoFailure}

theorem runAll_cons_eq_error_iff {a : Action} {rest : List Action}
    : runAll (a :: rest) t = (.error e, u) ↔
        (a.perform t = (.error e.cause, u) ∧ e.path = a.path) ∨
          ∃ v, a.perform t = (.ok (), v) ∧ runAll rest v = (.error e, u) := by
  rw [runAll, run]
  rcases hperform : a.perform t with ⟨outcome, v⟩
  cases outcome with
  | ok =>
    constructor
    . intro h
      exact .inr ⟨v, rfl, h⟩
    . rintro (⟨hv, -⟩ | ⟨v', hv, h⟩)
      . injection hv
        contradiction
      . injection hv with _ hv
        rw [hv]
        exact h
  | error cause =>
    constructor
    . intro h
      injection h with he hv
      injection he with he
      rw [← he, hv]
      exact .inl ⟨rfl, rfl⟩
    . rintro (⟨hv, hpath⟩ | ⟨v', hv, -⟩)
      . injection hv with hcause hv
        injection hcause with hcause
        rw [hcause, hv, ← hpath]
      . injection hv
        contradiction

theorem runAll_append_eq_error_iff {first rest : List Action}
    : runAll (first ++ rest) t = (.error e, u) ↔
        runAll first t = (.error e, u) ∨
          ∃ v, runAll first t = (.ok (), v) ∧ runAll rest v = (.error e, u) := by
  induction first generalizing t with
  | nil =>
    constructor
    . intro h
      exact .inr ⟨t, rfl, h⟩
    . rintro (h | ⟨v, hv, h⟩)
      . injection h
        contradiction
      . injection hv with _ hv
        rw [← hv] at h
        exact h
  | cons a first ih =>
    simp only [List.cons_append, runAll_cons_eq_error_iff, runAll_cons_eq_ok_iff, ih]
    constructor
    . rintro (h | ⟨v, hperform, h | ⟨w, hfirst, hrest⟩⟩)
      . exact .inl (.inl h)
      . exact .inl (.inr ⟨v, hperform, h⟩)
      . exact .inr ⟨w, ⟨v, hperform, hfirst⟩, hrest⟩
    . rintro ((h | ⟨v, hperform, h⟩) | ⟨w, ⟨v, hperform, hfirst⟩, hrest⟩)
      . exact .inl h
      . exact .inr ⟨v, hperform, .inl h⟩
      . exact .inr ⟨v, hperform, .inr ⟨w, hfirst, hrest⟩⟩

/-- Of the items for which actions are run, one is the first that fails. -/
theorem exists_of_runAll_flatMap {α : Type} {f : α → List Action} {items : List α}
    (h : runAll (items.flatMap f) t = (.error e, u))
    : ∃ done item rest v, items = done ++ item :: rest ∧
        runAll (done.flatMap f) t = (.ok (), v) ∧ runAll (f item) v = (.error e, u) := by
  induction items generalizing t with
  | nil =>
    injection h
    contradiction
  | cons item items ih =>
    rw [List.flatMap_cons, runAll_append_eq_error_iff] at h
    rcases h with h | ⟨v, hfirst, h⟩
    . exact ⟨[], item, items, t, rfl, rfl, h⟩
    . obtain ⟨done, other, rest, w, rfl, hdone, h⟩ := ih h
      refine ⟨item :: done, other, rest, w, rfl, ?_, h⟩
      rw [List.flatMap_cons, runAll_append_eq_ok_iff]
      exact ⟨v, hfirst, hdone⟩

/-! ### Writing a file with the directories above it -/

theorem eq_of_failed_write {p : Path} {content : String} {cause : FileTree.Failure}
    (h : (write p content).perform t = (.error cause, u)) : u = t := by
  rw [perform] at h
  split at h
  . injection h
    contradiction
  . injection h with _ h
    exact h.symm

theorem makeDirectories_of_failed {p q : Path} {content : String}
    (h : runAll [makeDirectories q, write p content] t = (.error e, u))
    : t.makeDirectories q = (.error e.cause, u) ∨ t.makeDirectories q = (.ok (), u) := by
  rcases runAll_cons_eq_error_iff.mp h with ⟨hmake, -⟩ | ⟨v, hmake, h⟩
  . exact .inl hmake
  . rcases runAll_cons_eq_error_iff.mp h with ⟨hwrite, -⟩ | ⟨w, -, h⟩
    . rw [eq_of_failed_write hwrite]
      exact .inr hmake
    . injection h
      contradiction

section

variable {p q : Path} {content : String} (hp : p.Descends) (hq : q.Descends)
  (hparent : q.target = p.target.tail) (hlinks : t.LinkFree p.target)
include hp hq hparent hlinks

omit hp in
theorem makesDirectories_of_failed
    (h : runAll [makeDirectories q, write p content] t = (.error e, u))
    : MakesDirectories p.target.tail t u := by
  have habove : t.LinkFree q.target := hlinks.mono (hparent ▸ List.tail_suffix _)
  rw [← hparent]
  rcases makeDirectories_of_failed h with hmake | hmake
  . exact FileTree.makesDirectories_of_makeDirectories hq habove hmake
  . exact FileTree.makesDirectories_of_makeDirectories hq habove hmake

theorem spares_of_runAll {outcome : Except IoFailure Unit}
    (h : runAll [makeDirectories q, write p content] t = (outcome, u))
    : Spares (· = p.target) (· <:+ p.target) t u := by
  have hsuffix : ∀ m, m <:+ p.target.tail → m <:+ p.target :=
    fun _ hm => hm.trans (List.tail_suffix _)
  cases outcome with
  | error e => exact (makesDirectories_of_failed hq hparent hlinks h).spares hsuffix
  | ok =>
    obtain ⟨v, hmake, h⟩ := runAll_cons_eq_ok_iff.mp h
    obtain ⟨w, hwrite, h⟩ := runAll_cons_eq_ok_iff.mp h
    injection h with _ h
    subst h
    have hmakes := FileTree.makesDirectories_of_makeDirectories hq
      (hlinks.mono (hparent ▸ List.tail_suffix _)) hmake
    rw [hparent] at hmakes
    apply (hmakes.spares hsuffix).trans
    intro m hm
    rw [FileTree.entry?_write hp (hlinks.of_linksFrom hmakes.linksFrom)
      (exists_of_perform_write hwrite), if_neg hm]
    exact .inl rfl

end

/-! ### Writing a file where it belongs -/

section

variable {p : Path} {content : String} (hp : p.IsPlain) (hne : p.location ≠ [])
  (hlinks : t.LinkFree p.location)
include hp hne hlinks

theorem makesDirectories_of_failed_writing (h : runAll (writing p content) t = (.error e, u))
    : MakesDirectories p.location.tail t u := by
  rw [← hp.target_eq] at hne hlinks ⊢
  rcases Path.parent?_cases hp.descends with ⟨htarget, -⟩ | ⟨q, hparent, hq, htarget⟩
  . contradiction
  . rw [writing, hparent] at h
    exact makesDirectories_of_failed hq htarget hlinks h

theorem spares_of_writing {outcome : Except IoFailure Unit}
    (h : runAll (writing p content) t = (outcome, u))
    : Spares (· = p.location) (· <:+ p.location) t u := by
  rw [← hp.target_eq] at hne hlinks ⊢
  rcases Path.parent?_cases hp.descends with ⟨htarget, -⟩ | ⟨q, hparent, hq, htarget⟩
  . contradiction
  . rw [writing, hparent] at h
    exact spares_of_runAll hp.descends hq htarget hlinks h

end

end RegistrySync.Action
