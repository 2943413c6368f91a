import RegistrySync.Action
import RegistrySync.Proofs.FileTree.Removal

/-!
Actions that complete: a list of actions completes if each of them does, one after the other.
-/

namespace RegistrySync.Action

variable {t u : FileTree}

theorem runAll_cons_eq_ok_iff {a : Action} {rest : List Action}
    : runAll (a :: rest) t = (.ok (), u) ↔
        ∃ v, a.perform t = (.ok (), v) ∧ runAll rest v = (.ok (), u) := by
  rw [runAll, run]
  rcases hperform : a.perform t with ⟨outcome, v⟩
  cases outcome with
  | ok =>
    constructor
    . intro h
      exact ⟨v, rfl, h⟩
    . rintro ⟨v', hv, h⟩
      injection hv with _ hv
      rw [hv]
      exact h
  | error e =>
    constructor
    . intro h
      injection h
      contradiction
    . rintro ⟨v', hv, -⟩
      injection hv
      contradiction

theorem runAll_append_eq_ok_iff {first rest : List Action}
    : runAll (first ++ rest) t = (.ok (), u) ↔
        ∃ v, runAll first t = (.ok (), v) ∧ runAll rest v = (.ok (), u) := by
  induction first generalizing t with
  | nil =>
    constructor
    . intro h
      exact ⟨t, rfl, h⟩
    . rintro ⟨v, hv, h⟩
      injection hv with _ hv
      rw [← hv] at h
      exact h
  | cons a first ih =>
    simp only [List.cons_append, runAll_cons_eq_ok_iff, ih]
    constructor
    . rintro ⟨v, hperform, w, hfirst, hrest⟩
      exact ⟨w, ⟨v, hperform, hfirst⟩, hrest⟩
    . rintro ⟨w, ⟨v, hperform, hfirst⟩, hrest⟩
      exact ⟨v, hperform, w, hfirst, hrest⟩

theorem exists_of_perform_write {p : Path} {content : String}
    (h : (write p content).perform t = (.ok (), u)) : t.write p content.toUTF8 = .ok u := by
  rw [perform] at h
  split at h
  . next hwrite =>
    injection h with _ h
    rw [hwrite, h]
  . injection h
    contradiction

theorem perform_of_refusal {a : Action} {e : FileTree.Failure} (h : a.path.refusal? = some e)
    : a.perform t = (.error e, t) := by
  cases a with
  | makeDirectories => exact FileTree.makeDirectories_of_refusal h
  | write p content =>
    rw [path] at h
    rw [perform, FileTree.write, FileTree.walk_of_refusal h]
    rfl
  | removeTree => exact FileTree.removeTree_of_refusal h

/-- All paths of actions that complete are ones that the system takes. -/
theorem refusal?_of_runAll {actions : List Action} (h : runAll actions t = (.ok (), u))
    : ∀ a ∈ actions, a.path.refusal? = none := by
  induction actions generalizing t with
  | nil => exact List.forall_mem_nil _
  | cons a rest ih =>
    obtain ⟨v, hperform, hrest⟩ := runAll_cons_eq_ok_iff.mp h
    refine List.forall_mem_cons.mpr ⟨?_, ih hrest⟩
    cases hrefusal : a.path.refusal? with
    | none => rfl
    | some e =>
      rw [perform_of_refusal hrefusal] at hperform
      injection hperform
      contradiction

/-- A file is written, and the directories above it are made. -/
def WritesFile (l : Location) (content : String) (t u : FileTree) : Prop :=
  ∀ m, u.entry? m =
    if m = l then some (.file content.toUTF8)
    else if m <:+ l then some .directory
    else t.entry? m

theorem WritesFile.linksFrom {l : Location} {content : String} (h : WritesFile l content t u)
    : FileTree.LinksFrom t u := by
  apply FileTree.LinksFrom.of_eq_or_ne
  intro m
  rw [h m]
  split
  . exact .inr nofun
  . split
    . exact .inr nofun
    . exact .inl rfl

theorem WritesFile.of_runAll {p q : Path} {content : String} (hp : p.Descends) (hq : q.Descends)
    (hparent : q.target = p.target.tail) (hlinks : t.LinkFree p.target)
    (h : runAll [makeDirectories q, write p content] t = (.ok (), u))
    : WritesFile p.target content t u := by
  obtain ⟨v, hmake, h⟩ := runAll_cons_eq_ok_iff.mp h
  obtain ⟨w, hwrite, h⟩ := runAll_cons_eq_ok_iff.mp h
  injection h with _ h
  subst h
  have habove : t.LinkFree q.target := hlinks.mono (hparent ▸ List.tail_suffix _)
  have hmakes := FileTree.makesDirectories_of_makeDirectories hq habove hmake
  have hlinks' : v.LinkFree p.target := hlinks.of_linksFrom hmakes.linksFrom
  have hmake := FileTree.entry?_makeDirectories hq habove hmake
  intro m
  rw [FileTree.entry?_write hp hlinks' (exists_of_perform_write hwrite), hmake, hparent]
  split
  . rfl
  . next hne =>
    congr 1
    rw [eq_iff_iff]
    constructor
    . intro hsuffix
      exact hsuffix.trans (List.tail_suffix _)
    . intro hsuffix
      exact Location.suffix_tail hsuffix hne

theorem WritesFile.of_runAll_writing {p : Path} {content : String} (hp : p.IsPlain)
    (hne : p.location ≠ []) (hlinks : t.LinkFree p.location)
    (h : runAll (writing p content) t = (.ok (), u)) : WritesFile p.location content t u := by
  rw [← hp.target_eq] at hne hlinks ⊢
  rcases Path.parent?_cases hp.descends with ⟨htarget, -⟩ | ⟨q, hparent, hq, htarget⟩
  . contradiction
  . rw [writing, hparent] at h
    exact WritesFile.of_runAll hp.descends hq htarget hlinks h

end RegistrySync.Action
