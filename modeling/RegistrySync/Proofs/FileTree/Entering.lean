import RegistrySync.Proofs.FileTree.Entries
import RegistrySync.Proofs.Path.Names

/-!
Walks that end in a directory, whatever links they go through: a walk one name further ends under
that name there, a walk that goes on has been there, and a walk does not change with entries it does
not come by.
-/

namespace RegistrySync.FileTree

variable {t u : FileTree} {n : Nat} {here l : Location} {names : List String}

/-- From a location the steps lead into a directory, through no more than a number of links. -/
inductive Enters (t : FileTree) : Nat → Location → List String → Location → Prop where
  | here {n : Nat} {l : Location} (directory : t.entry? l = some .directory) : Enters t n l [] l
  | dot {n : Nat} {here l : Location} {names : List String}
      (directory : t.entry? here = some .directory) (enters : Enters t n here names l) :
      Enters t n here ("." :: names) l
  | up {n : Nat} {here l : Location} {names : List String}
      (directory : t.entry? here = some .directory) (enters : Enters t n here.tail names l) :
      Enters t n here (".." :: names) l
  | into {n : Nat} {here l : Location} {name : String} {names : List String}
      (ordinary : name ≠ "." ∧ name ≠ "..") (directory : t.entry? (name :: here) = some .directory)
      (enters : Enters t n (name :: here) names l) : Enters t n here (name :: names) l
  | through {n : Nat} {here l : Location} {name : String} {names : List String} {target : Path}
      (ordinary : name ≠ "." ∧ name ≠ "..") (link : t.entry? (name :: here) = some (.link target))
      (enters : Enters t n (if target.isAbsolute then [] else here) (target.steps ++ names) l) :
      Enters t (n + 1) here (name :: names) l

/-- Each directory and each link of a tree is in a second one too. -/
def Within (t u : FileTree) : Prop :=
  ∀ l e, t.entry? l = some e → (∀ content, e ≠ .file content) → u.entry? l = some e

theorem Within.refl (t : FileTree) : t.Within t :=
  fun _ _ h _ => h

/-- What a walk does with a link that it follows. -/
def onLink (t : FileTree) (follow : Bool → Bool) :
    Nat → Bool → Location → List String → Except Failure Place
  | 0 => fun _ _ _ => .error .tooManyLinks
  | n + 1 => t.walkFrom follow n

theorem walkFrom_eq (t : FileTree) (follow : Bool → Bool) (n : Nat) (slash : Bool)
    (here : Location) (names : List String)
    : t.walkFrom follow n slash here names =
        t.along follow (t.onLink follow n) slash .top here names := by
  cases n <;> rfl

/-- A step by a name, unless it is a link at the end that is not followed. -/
theorem along_name {follow : Bool → Bool} {slash : Bool} {ending : Ending} {name : String}
    (hordinary : name ≠ "." ∧ name ≠ "..") (hhere : t.entry? here = some .directory)
    {onLink : Bool → Location → List String → Except Failure Place}
    : t.along follow onLink slash ending here (name :: names) =
        match t.entry? (name :: here) with
        | some (.link target) =>
          if names.isEmpty && !follow slash then .ok ⟨name :: here, .name, slash⟩
          else onLink (slash || (names.isEmpty && target.endsInSlash))
            (if target.isAbsolute then [] else here) (target.steps ++ names)
        | none =>
          if names.isEmpty then .ok ⟨name :: here, .name, slash⟩
          else .error (if isTooLong name then .nameTooLong else .notFound)
        | some _ => t.along follow onLink slash .name (name :: here) names := by
  rw [along, if_neg (not_not_intro hhere), if_neg hordinary.1]
  exact if_neg hordinary.2

theorem directory_of_eq_some {name : String} {parent : Location} {e : Entry}
    (h : t.entry? (name :: parent) = some e) : t.entry? parent = some .directory := by
  apply t.closed name parent
  rw [ entry?] at h
  rw [h]
  rfl

namespace Enters

theorem directory (h : t.Enters n here names l) : t.entry? l = some .directory := by
  induction h with
  | here directory => exact directory
  | dot _ _ ih => exact ih
  | up _ _ ih => exact ih
  | into _ _ _ ih => exact ih
  | through _ _ _ ih => exact ih

theorem mono (h : t.Enters n here names l) (hwithin : t.Within u) : u.Enters n here names l := by
  induction h with
  | here directory => exact .here (hwithin _ _ directory nofun)
  | dot directory _ ih => exact .dot (hwithin _ _ directory nofun) ih
  | up directory _ ih => exact .up (hwithin _ _ directory nofun) ih
  | into ordinary directory _ ih => exact .into ordinary (hwithin _ _ directory nofun) ih
  | through ordinary link _ ih => exact .through ordinary (hwithin _ _ link nofun) ih

theorem source (h : t.Enters n here names l) : t.entry? here = some .directory := by
  cases h with
  | here directory => exact directory
  | dot directory => exact directory
  | up directory => exact directory
  | into _ directory => exact directory_of_eq_some directory
  | through _ link => exact directory_of_eq_some link

/-- One more name leads further into a directory. -/
theorem concat (h : t.Enters n here names l) {name : String} (hname : name ≠ "." ∧ name ≠ "..")
    (hinside : t.entry? (name :: l) = some .directory)
    : t.Enters n here (names ++ [name]) (name :: l) := by
  induction h with
  | here directory => exact .into hname hinside (.here hinside)
  | dot directory _ ih => exact .dot directory (ih hinside)
  | up directory _ ih => exact .up directory (ih hinside)
  | into ordinary directory _ ih => exact .into ordinary directory (ih hinside)
  | through ordinary link _ ih =>
    apply Enters.through ordinary link
    have hmore := ih hinside
    rw [List.append_assoc] at hmore
    exact hmore

theorem exists_init {name : String} (h : t.Enters n here (names ++ [name]) l)
    : ∃ m, t.Enters n here names m := by
  generalize hall : names ++ [name] = all at h
  induction h generalizing names with
  | here => simp at hall
  | dot directory henters ih =>
    cases names with
    | nil => exact ⟨_, .here directory⟩
    | cons first names =>
      obtain ⟨rfl, hrest⟩ := List.cons.inj hall
      obtain ⟨m, hm⟩ := ih hrest
      exact ⟨m, .dot directory hm⟩
  | up directory henters ih =>
    cases names with
    | nil => exact ⟨_, .here directory⟩
    | cons first names =>
      obtain ⟨rfl, hrest⟩ := List.cons.inj hall
      obtain ⟨m, hm⟩ := ih hrest
      exact ⟨m, .up directory hm⟩
  | into ordinary directory henters ih =>
    cases names with
    | nil => exact ⟨_, .here (directory_of_eq_some directory)⟩
    | cons first names =>
      obtain ⟨rfl, hrest⟩ := List.cons.inj hall
      obtain ⟨m, hm⟩ := ih hrest
      exact ⟨m, .into ordinary directory hm⟩
  | through ordinary link henters ih =>
    cases names with
    | nil => exact ⟨_, .here (directory_of_eq_some link)⟩
    | cons first names =>
      obtain ⟨rfl, rfl⟩ := List.cons.inj hall
      obtain ⟨m, hm⟩ := ih (List.append_assoc _ _ _)
      exact ⟨m, .through ordinary link hm⟩

/-! ### Walks after a directory -/

variable {follow : Bool → Bool} {slash : Bool}

theorem along_concat (h : t.Enters n here names l) {name : String}
    (hname : name ≠ "." ∧ name ≠ "..")
    (hlink : ∀ target, t.entry? (name :: l) = some (.link target) → follow slash = false)
    (ending : Ending)
    : t.along follow (t.onLink follow n) slash ending here (names ++ [name]) =
        .ok ⟨name :: l, .name, slash⟩ := by
  induction h generalizing ending with
  | here directory =>
    rw [List.nil_append, along_name hname directory]
    split
    . next target htarget => simp [hlink target htarget]
    . rfl
    . rfl
  | dot directory _ ih =>
    rw [List.cons_append, along, if_neg (not_not_intro directory), if_pos rfl]
    exact ih hlink .dot
  | up directory _ ih =>
    rw [List.cons_append, along, if_neg (not_not_intro directory), if_neg (by decide), if_pos rfl]
    exact ih hlink .dotDot
  | into ordinary directory _ ih =>
    rw [List.cons_append, along_name ordinary (directory_of_eq_some directory), directory]
    exact ih hlink .name
  | @through n here l first names target ordinary link _ ih =>
    have hmore : (names ++ [name]).isEmpty = false := by simp
    rw [List.cons_append, along_name ordinary (directory_of_eq_some link), link]
    simp only [hmore, Bool.false_and, Bool.or_false, Bool.false_eq_true, if_false]
    rw [onLink, walkFrom_eq, ← List.append_assoc]
    exact ih hlink .top

/-- With at least these directories and links, a walk ends where the steps lead, or at a link that
is not followed. -/
theorem exists_along (h : t.Enters n here names l) (follow : Bool → Bool) (slash : Bool)
    (ending : Ending)
    : ∃ place, (place.location = l ∨
          (∃ target, t.entry? place.location = some (.link target)) ∧ ∃ s, follow s = false) ∧
        ∀ u, t.Within u →
          u.along follow (u.onLink follow n) slash ending here names = .ok place := by
  induction h generalizing slash ending with
  | @here _ l => exact ⟨⟨l, ending, slash⟩, .inl rfl, fun _ _ => rfl⟩
  | dot directory _ ih =>
    obtain ⟨place, hplace, halong⟩ := ih slash .dot
    refine ⟨place, hplace, fun u hu => ?_⟩
    rw [along, if_neg (not_not_intro (hu _ _ directory nofun)), if_pos rfl]
    exact halong u hu
  | up directory _ ih =>
    obtain ⟨place, hplace, halong⟩ := ih slash .dotDot
    refine ⟨place, hplace, fun u hu => ?_⟩
    rw [along, if_neg (not_not_intro (hu _ _ directory nofun)), if_neg (by decide), if_pos rfl]
    exact halong u hu
  | into ordinary directory _ ih =>
    obtain ⟨place, hplace, halong⟩ := ih slash .name
    refine ⟨place, hplace, fun u hu => ?_⟩
    have hdirectory := hu _ _ directory nofun
    rw [along_name ordinary (directory_of_eq_some hdirectory), hdirectory]
    exact halong u hu
  | @through n here l name names target ordinary link _ ih =>
    by_cases hstop : (names.isEmpty && !follow slash) = true
    . refine ⟨⟨name :: here, .name, slash⟩, .inr ⟨⟨target, link⟩, slash, by simp_all⟩, ?_⟩
      intro u hu
      have hlink := hu _ _ link nofun
      rw [along_name ordinary (directory_of_eq_some hlink), hlink]
      exact if_pos hstop
    . obtain ⟨place, hplace, halong⟩ := ih (slash || (names.isEmpty && target.endsInSlash)) .top
      refine ⟨place, hplace, fun u hu => ?_⟩
      have hlink := hu _ _ link nofun
      rw [along_name ordinary (directory_of_eq_some hlink), hlink]
      refine (if_neg hstop).trans ?_
      rw [onLink, walkFrom_eq]
      exact halong u hu

theorem exists_walkFrom (h : t.Enters n here names l) (follow : Bool → Bool) (slash : Bool)
    : ∃ place, (place.location = l ∨
          (∃ target, t.entry? place.location = some (.link target)) ∧ ∃ s, follow s = false) ∧
        ∀ u, t.Within u → u.walkFrom follow n slash here names = .ok place := by
  simp only [walkFrom_eq]
  exact h.exists_along follow slash .top

theorem walkFrom_concat (h : t.Enters n here names l) {name : String}
    (hname : name ≠ "." ∧ name ≠ "..")
    (hlink : ∀ target, t.entry? (name :: l) = some (.link target) → follow slash = false)
    : t.walkFrom follow n slash here (names ++ [name]) = .ok ⟨name :: l, .name, slash⟩ := by
  rw [walkFrom_eq]
  exact h.along_concat hname hlink .top

/-- The steps lead into one directory only. -/
theorem eq {m : Location} (h : t.Enters n here names l) (h' : t.Enters n here names m)
    : l = m := by
  obtain ⟨place, hplace, hwalk⟩ := h.exists_walkFrom (fun _ => true) false
  obtain ⟨place', hplace', hwalk'⟩ := h'.exists_walkFrom (fun _ => true) false
  have heq := (hwalk t (.refl t)).symm.trans (hwalk' t (.refl t))
  injection heq with heq
  have hnever : ¬ ∃ s, (fun _ : Bool => true) s = false := by simp
  rw [← hplace.resolve_right (hnever ∘ And.right), heq,
    hplace'.resolve_right (hnever ∘ And.right)]

/-- One step further the steps lead under the name, unless it is a link. -/
theorem eq_of_concat {name : String} {m : Location} (h : t.Enters n here names l)
    (hname : name ≠ "." ∧ name ≠ "..")
    (hlink : ∀ target, t.entry? (name :: l) ≠ some (.link target))
    (hm : t.Enters n here (names ++ [name]) m) : m = name :: l := by
  obtain ⟨place, hplace, hwalk⟩ := hm.exists_walkFrom (fun _ => true) false
  have hwalk := hwalk t (.refl t)
  rw [h.walkFrom_concat hname fun target htarget => absurd htarget (hlink target)] at hwalk
  injection hwalk with hwalk
  rw [← hplace.resolve_right (by simp), ← hwalk]

end Enters

/-! ### Directories on a walk -/

section

variable {follow : Bool → Bool} {place : Place} {more : List String}
  (hend : more = [] → (∀ slash, follow slash = true) ∧
    t.entry? place.location = some .directory)
include hend

theorem exists_enters_of_along {onLink : Bool → Location → List String → Except Failure Place}
    (honLink : ∀ slash here names, onLink slash here (names ++ more) = .ok place →
      ∃ m l, n = m + 1 ∧ t.Enters m here names l ∧ (more = [] → place.location = l))
    {slash : Bool} {ending : Ending}
    (h : t.along follow onLink slash ending here (names ++ more) = .ok place)
    : ∃ l, t.Enters n here names l ∧ (more = [] → place.location = l) := by
  induction names generalizing ending here with
  | nil =>
    cases more with
    | nil =>
      injection h with h
      obtain ⟨-, hdirectory⟩ := hend rfl
      rw [← h] at hdirectory
      exact ⟨here, .here hdirectory, fun _ => h ▸ rfl⟩
    | cons name more =>
      refine ⟨here, .here ?_, nofun⟩
      rw [List.nil_append, along] at h
      split at h
      . contradiction
      . next hdirectory => exact Classical.not_not.mp hdirectory
  | cons name names ih =>
    by_cases hhere : t.entry? here = some .directory
    swap
    . rw [List.cons_append, along, if_pos hhere] at h
      contradiction
    by_cases hdot : name = "."
    . rw [List.cons_append, along, if_neg (not_not_intro hhere), if_pos hdot] at h
      obtain ⟨l, henters, hl⟩ := ih h
      exact ⟨l, hdot ▸ .dot hhere henters, hl⟩
    by_cases hup : name = ".."
    . rw [List.cons_append, along, if_neg (not_not_intro hhere), if_neg hdot, if_pos hup] at h
      obtain ⟨l, henters, hl⟩ := ih h
      exact ⟨l, hup ▸ .up hhere henters, hl⟩
    rw [List.cons_append, along_name ⟨hdot, hup⟩ hhere] at h
    split at h
    . next target hlink =>
      split at h
      . next hstop =>
        rw [Bool.and_eq_true, List.isEmpty_iff, List.append_eq_nil_iff] at hstop
        obtain ⟨hfollow, -⟩ := hend hstop.1.2
        rw [hfollow] at hstop
        exact absurd hstop.2 (by decide)
      . rw [← List.append_assoc] at h
        obtain ⟨m, l, rfl, henters, hl⟩ := honLink _ _ _ h
        exact ⟨l, .through ⟨hdot, hup⟩ hlink henters, hl⟩
    . next hnone =>
      split at h
      . next hempty =>
        rw [List.isEmpty_iff, List.append_eq_nil_iff] at hempty
        obtain ⟨-, hdirectory⟩ := hend hempty.2
        injection h with h
        rw [← h, hnone] at hdirectory
        contradiction
      . contradiction
    . obtain ⟨l, henters, hl⟩ := ih h
      exact ⟨l, .into ⟨hdot, hup⟩ henters.source henters, hl⟩

theorem exists_enters_of_walkFrom {slash : Bool}
    (h : t.walkFrom follow n slash here (names ++ more) = .ok place)
    : ∃ l, t.Enters n here names l ∧ (more = [] → place.location = l) := by
  induction n generalizing slash here names with
  | zero =>
    apply exists_enters_of_along hend _ h
    intro slash here names hlink
    cases hlink
  | succ n ih =>
    apply exists_enters_of_along hend _ h
    intro slash here names hlink
    obtain ⟨l, henters, hl⟩ := ih hlink
    exact ⟨n, l, rfl, henters, hl⟩

end

end RegistrySync.FileTree
