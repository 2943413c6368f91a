import RegistrySync.Proofs.FileTree.Entries
import RegistrySync.Proofs.Path.Names

/-!
A walk along a path that is made of names, with no link on the way that would be followed: it ends
at the location of the path if there is a directory to stand in, and fails otherwise.
-/

namespace RegistrySync.FileTree

variable {t : FileTree} {follow : Bool → Bool}

/-! ### From a location -/

section

variable {onLink : Bool → Location → List String → Except Failure Place} {slash : Bool}
  {ending : Ending} {here : Location}

theorem along_cons {name : String} {rest : List String} (hname : name ≠ "." ∧ name ≠ "..")
    (hlinks : ∀ target, t.entry? (name :: here) = some (.link target) →
      rest = [] ∧ follow slash = false)
    : t.along follow onLink slash ending here (name :: rest) =
        if t.entry? here ≠ some .directory then .error .notDirectory
        else if rest = [] then .ok ⟨name :: here, .name, slash⟩
        else if t.entry? (name :: here) = none then
          .error (if isTooLong name then .nameTooLong else .notFound)
        else t.along follow onLink slash .name (name :: here) rest := by
  rw [along, if_neg hname.1, if_neg hname.2]
  congr 1
  split
  . next target hlink =>
    obtain ⟨rfl, hfollow⟩ := hlinks target hlink
    simp [hfollow]
  . next hnone =>
    rw [hnone]
    cases rest <;> rfl
  . next hsome =>
    cases rest with
    | nil => rfl
    | cons next rest =>
      rw [if_neg (List.cons_ne_nil _ _), hsome, if_neg (Option.some_ne_none _)]

theorem along_cases {names : List String} (hne : names ≠ [])
    (hnames : ∀ name ∈ names, name ≠ "." ∧ name ≠ "..")
    (habove : t.LinkFree (names.reverse ++ here).tail)
    (hend : ∀ target, t.entry? (names.reverse ++ here) = some (.link target) →
      follow slash = false)
    : (t.entry? (names.reverse ++ here).tail = some .directory ∧
        t.along follow onLink slash ending here names =
          .ok ⟨names.reverse ++ here, .name, slash⟩) ∨
      (t.entry? (names.reverse ++ here).tail ≠ some .directory ∧
        ∃ e, t.along follow onLink slash ending here names = .error e) := by
  induction names generalizing ending here with
  | nil => contradiction
  | cons name rest ih =>
    rw [List.reverse_cons, List.append_assoc, List.singleton_append] at habove hend ⊢
    -- Whatever the remaining names are, the walk passes through here.
    have hhere : here <:+ (rest.reverse ++ name :: here).tail := by
      cases hrest : rest.reverse with
      | nil => exact List.suffix_rfl
      | cons first others => exact ⟨others ++ [name], by simp⟩
    have hlinks : ∀ target, t.entry? (name :: here) = some (.link target) →
        rest = [] ∧ follow slash = false := by
      intro target hlink
      cases hrest : rest.reverse with
      | nil =>
        rw [hrest] at hend
        exact ⟨List.reverse_eq_nil_iff.mp hrest, hend target hlink⟩
      | cons first others =>
        rw [hrest] at habove
        exact absurd hlink (habove _ target (List.suffix_append others _))
    rw [along_cons (hnames name List.mem_cons_self) hlinks]
    split
    . next hnot =>
      refine .inr ⟨?_, _, rfl⟩
      intro hdirectory
      exact hnot (directory_of_directory hhere hdirectory)
    . next hdirectory =>
      split
      . next hrest =>
        subst hrest
        exact .inl ⟨Classical.not_not.mp hdirectory, rfl⟩
      . next hrest =>
        split
        . next hnone =>
          refine .inr ⟨?_, _, rfl⟩
          rw [entry?_eq_none_of_suffix hnone]
          . exact nofun
          . cases hreverse : rest.reverse with
            | nil => exact absurd (List.reverse_eq_nil_iff.mp hreverse) hrest
            | cons first others => exact List.suffix_append others _
        . exact ih hrest (fun n hn => hnames n (List.mem_cons_of_mem _ hn)) habove hend

end

/-! ### Along a path -/

section

variable {p : Path} (hp : p.IsPlain) (habove : t.LinkFree p.location.tail)
  (hend : ∀ target, t.entry? p.location = some (.link target) → follow p.endsInSlash = false)
include hp habove hend

theorem walkFrom_cases (links : Nat) (hne : p.location ≠ [])
    : (t.entry? p.location.tail = some .directory ∧
        t.walkFrom follow links p.endsInSlash [] p.steps =
          .ok ⟨p.location, .name, p.endsInSlash⟩) ∨
      (t.entry? p.location.tail ≠ some .directory ∧
        ∃ e, t.walkFrom follow links p.endsInSlash [] p.steps = .error e) := by
  have hsteps : p.steps ≠ [] := by
    intro hsteps
    apply hne
    rw [Path.location, hsteps]
    rfl
  have hnames : ∀ name ∈ p.steps, name ≠ "." ∧ name ≠ ".." :=
    fun name hname => hp.of_mem_steps hname
  rw [← List.append_nil p.location] at habove hend ⊢
  cases links with
  | zero => exact along_cases hsteps hnames habove hend
  | succ links => exact along_cases hsteps hnames habove hend

theorem walk_cases (htaken : p.refusal? = none) (hne : p.location ≠ [])
    : (t.entry? p.location.tail = some .directory ∧
        t.walk follow p = .ok ⟨p.location, .name, p.endsInSlash⟩) ∨
      (t.entry? p.location.tail ≠ some .directory ∧ ∃ e, t.walk follow p = .error e) := by
  have hempty : p ≠ .empty := by
    rintro rfl
    exact hne rfl
  rw [walk_eq htaken hempty]
  exact walkFrom_cases hp habove hend 40 hne

theorem eq_of_walk_eq_ok {place : Place} (hwalk : t.walk follow p = .ok place)
    : place.location = p.location ∧ place.slash = p.endsInSlash ∧
        t.entry? p.location.tail = some .directory := by
  obtain ⟨htaken, hfrom⟩ := walk_eq_ok hwalk
  by_cases hne : p.location = []
  . have hsteps : p.steps = [] := List.reverse_eq_nil_iff.mp hne
    rw [hsteps] at hfrom
    injection hfrom with hfrom
    rw [hne, ← hfrom]
    exact ⟨rfl, rfl, rfl⟩
  . rcases walk_cases hp habove hend htaken hne with ⟨hparent, hok⟩ | ⟨-, e, herror⟩
    . rw [hok] at hwalk
      injection hwalk with hwalk
      rw [← hwalk]
      exact ⟨rfl, rfl, hparent⟩
    . rw [herror] at hwalk
      contradiction

theorem entry?_eq_none_of_walk (hne : p.location ≠ []) (hwalk : t.walk follow p = .error .notFound)
    : t.entry? p.location = none := by
  have hrefusal := refusal?_of_walk_eq_notFound hwalk
  rcases walk_cases hp habove hend hrefusal hne with ⟨-, hok⟩ | ⟨hparent, -⟩
  . rw [hok] at hwalk
    contradiction
  . apply Option.not_isSome_iff_eq_none.mp
    intro hsome
    apply hparent
    obtain ⟨name, parent, hlocation⟩ := List.exists_cons_of_ne_nil hne
    rw [hlocation] at hsome ⊢
    exact t.closed name parent hsome

end

end RegistrySync.FileTree
