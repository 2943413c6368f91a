import RegistrySync.Proofs.FileTree.Entering
import RegistrySync.Proofs.FileTree.Removal

/-!
What is made at the end of a path, and what is removed there, also if links are on the way: making
directories makes those that the path leads through, and after a removal the path leads nowhere.
-/

namespace RegistrySync.FileTree

variable {t u : FileTree} {p : Path} {names : List String} {name : String} {l : Location}

/-- The steps lead from the top into a directory. -/
abbrev Opens (t : FileTree) (names : List String) (l : Location) : Prop :=
  t.Enters 40 [] names l

theorem Opens.walk (h : t.Opens p.steps l) (htaken : p.refusal? = none) (hne : p ≠ .empty)
    : ∃ place, t.walk (fun _ => true) p = .ok place ∧ place.location = l := by
  obtain ⟨place, hplace, hwalk⟩ := h.exists_walkFrom (fun _ => true) p.endsInSlash
  refine ⟨place, ?_, hplace.resolve_right (by simp)⟩
  rw [walk_eq htaken hne]
  exact hwalk t (.refl t)

/-- A walk to a name in a directory ends there, unless it follows a link. -/
theorem location_of_walk {follow : Bool → Bool} {place : Place} (h : t.Opens names l)
    (hsteps : p.steps = names ++ [name]) (hname : name ≠ "." ∧ name ≠ "..")
    (hlink : ∀ target, t.entry? (name :: l) = some (.link target) → follow p.endsInSlash = false)
    (hwalk : t.walk follow p = .ok place) : place = ⟨name :: l, .name, p.endsInSlash⟩ := by
  obtain ⟨-, hwalk⟩ := walk_eq_ok hwalk
  rw [hsteps, h.walkFrom_concat hname hlink] at hwalk
  injection hwalk with hwalk
  exact hwalk.symm

/-- A walk that does not follow a link at its end stops under the last name. -/
theorem exists_opens_of_walk {place : Place} (hp : p.IsPlain) (hsteps : p.steps = names ++ [name])
    (hwalk : t.walk (fun _ => false) p = .ok place)
    : ∃ l, t.Opens names l ∧ place = ⟨name :: l, .name, p.endsInSlash⟩ := by
  obtain ⟨-, hfrom⟩ := walk_eq_ok hwalk
  rw [hsteps] at hfrom
  obtain ⟨l, hopens, -⟩ :=
    exists_enters_of_walkFrom (fun hmore => absurd hmore (List.cons_ne_nil _ _)) hfrom
  have hname := hp.last hsteps
  exact ⟨l, hopens, location_of_walk hopens hsteps hname (fun _ _ => rfl) hwalk⟩

/-! ### Making directories -/

theorem within_of_makesDirectories (h : MakesDirectories l t u) : t.Within u := by
  intro m e he _
  rcases h m with heq | ⟨-, hnone, -⟩
  . rw [heq, he]
  . rw [he] at hnone
    contradiction

theorem makesDirectories_put (hparent : t.entry? l = some .directory)
    (hnone : t.entry? (name :: l) = none)
    : MakesDirectories (name :: l) t (t.put name l .directory) ∧
        entry? (t.put name l .directory) (name :: l) = some .directory := by
  have hput : ∀ m, entry? (t.put name l .directory) m =
      if m = name :: l then some .directory else t.entry? m :=
    fun m => entry?_put .directory hparent (hnone ▸ nofun)
  refine ⟨?_, (hput _).trans (if_pos rfl)⟩
  intro m
  rw [hput]
  split
  . next hm => exact .inr ⟨hm ▸ List.suffix_rfl, hm ▸ hnone, rfl⟩
  . exact .inl rfl

/-- A directory has been made under a name, where the other steps lead. They led there before, or
what they lead into is new as well. -/
structure MakesUnder (t u : FileTree) (names : List String) (name : String) (l : Location) :
    Prop where
  opens : u.Opens names l
  before : t.Opens names l ∨ t.entry? l = none
  missing : t.entry? (name :: l) = none
  made : u.entry? (name :: l) = some .directory
  makes : MakesDirectories (name :: l) t u

/-- The steps lead into a directory: nothing was to be done, or one has been made at their end. -/
inductive Provides (t u : FileTree) (names : List String) : Prop where
  | there {l : Location} (opens : t.Opens names l) (unchanged : u = t)
  | made {init : List String} {name : String} {l : Location} (split : names = init ++ [name])
      (makes : MakesUnder t u init name l)

theorem cases_of_makeDirectoryIfMissing (hp : p.IsPlain)
    (h : t.makeDirectoryIfMissing p = (.ok (), u))
    : (u = t ∧ ∃ l, t.Opens p.steps l) ∨
      ∃ names name l,
        p.steps = names ++ [name] ∧ t.Opens names l ∧ MakesUnder t u names name l := by
  unfold makeDirectoryIfMissing at h
  split at h
  . next v hmake =>
    injection h with _ h
    subst h
    right
    obtain ⟨name', parent, slash, hwalk, hnone, rfl⟩ := exists_of_makeDirectory hmake
    rcases List.eq_nil_or_concat' p.steps with hsteps | ⟨names, name, hsteps⟩
    . obtain ⟨-, hfrom⟩ := walk_eq_ok hwalk
      rw [hsteps] at hfrom
      injection hfrom with hfrom
      injection hfrom
      contradiction
    . obtain ⟨l, hopens, hplace⟩ := exists_opens_of_walk hp hsteps hwalk
      injection hplace with hplace
      injection hplace with hname hparent
      subst hname hparent
      obtain ⟨hmakes, hmade⟩ := makesDirectories_put hopens.directory hnone
      exact ⟨names, name', parent, hsteps, hopens,
        hopens.mono (within_of_makesDirectories hmakes), .inl hopens, hnone, hmade, hmakes⟩
  . injection h with hresult h
    split at hresult
    swap
    . contradiction
    next hdirectory =>
    refine .inl ⟨h.symm, ?_⟩
    unfold isDirectory at hdirectory
    split at hdirectory
    swap
    . contradiction
    next place hwalk =>
    split at hdirectory
    . next hlook =>
      obtain ⟨-, hwalk⟩ := walk_eq_ok hwalk
      rw [← List.append_nil p.steps] at hwalk
      obtain ⟨l, hopens, -⟩ := exists_enters_of_walkFrom
        (fun _ => ⟨fun _ => rfl, (eq_of_look_eq_ok hlook).symm⟩) hwalk
      exact ⟨l, hopens⟩
    . contradiction

theorem steps_eq_of_target {q : Path} (hp : p.IsPlain) (hq : q.IsPlain)
    (h : q.target = p.target.tail)
    : p.steps = [] ∧ q.steps = [] ∨ ∃ name, p.steps = q.steps ++ [name] := by
  rw [hp.target_eq, hq.target_eq, Path.location, Path.location] at h
  rcases List.eq_nil_or_concat' p.steps with hsteps | ⟨names, name, hsteps⟩
  . rw [hsteps] at h
    exact .inl ⟨hsteps, List.reverse_eq_nil_iff.mp h⟩
  . rw [hsteps, List.reverse_append, List.reverse_singleton, List.singleton_append, List.tail_cons,
      List.reverse_inj] at h
    exact .inr ⟨name, h ▸ hsteps⟩

theorem provides_of_makeDirectoryIfMissing (hp : p.IsPlain)
    (h : t.makeDirectoryIfMissing p = (.ok (), u)) : t.Provides u p.steps := by
  rcases cases_of_makeDirectoryIfMissing hp h with
    ⟨hu, l, hopens⟩ | ⟨names, name, l, hsteps, -, hmakes⟩
  . exact .there hopens hu
  . exact .made hsteps hmakes

/-- If the directory above is new, then nothing is in it yet. -/
theorem MakesUnder.provides {v : FileTree} {last : String} (hp : p.IsPlain)
    (hsteps : p.steps = names ++ [name] ++ [last]) (habove : MakesUnder t v names name l)
    (h : v.makeDirectoryIfMissing p = (.ok (), u)) : t.Provides u p.steps := by
  have hname : name ≠ "." ∧ name ≠ ".." := hp.of_mem_steps (by simp [hsteps])
  have hlast := hp.last hsteps
  have hparent : v.Opens (names ++ [name]) (name :: l) := habove.opens.concat hname habove.made
  have hnone : t.entry? (last :: name :: l) = none :=
    entry?_eq_none_of_suffix habove.missing (List.suffix_cons _ _)
  have hnone' : v.entry? (last :: name :: l) = none := by
    rw [← hnone]
    apply habove.makes.eq_of_not_suffix
    intro hsuffix
    exact absurd hsuffix.length_le (Nat.not_succ_le_self _)
  rcases cases_of_makeDirectoryIfMissing hp h with
    ⟨rfl, m, hopens⟩ | ⟨init, name', l', hsteps', hopens, hmakes⟩
  . rw [hsteps] at hopens
    have hm := hparent.eq_of_concat hlast (fun target => by rw [hnone']; exact nofun) hopens
    rw [← hm, hopens.directory] at hnone'
    contradiction
  . obtain ⟨rfl, rfl⟩ := List.append_singleton_inj.mp (hsteps.symm.trans hsteps')
    obtain rfl := hopens.eq hparent
    refine .made hsteps ⟨hmakes.opens, .inr habove.missing, hnone, hmakes.made, ?_⟩
    exact (habove.makes.mono (List.suffix_cons _ _)).trans hmakes.makes

theorem provides_of_makeChain {rest : List Path} (hps : Path.Ascent (p :: rest))
    (hplain : ∀ q ∈ p :: rest, q.IsPlain) (h : t.makeChain (p :: rest) = (.ok (), u))
    : t.Provides u p.steps := by
  have hp := hplain p List.mem_cons_self
  induction rest generalizing p u with
  | nil =>
    rcases makeChain_cons_cases t p [] with ⟨rfl, heq⟩ | heq | ⟨-, v, hok, -⟩ | ⟨e, v, -, heq⟩
    . rw [heq] at h
      injection h with _ h
      exact .there (.here rfl) h.symm
    . exact provides_of_makeDirectoryIfMissing hp (heq.symm.trans h)
    . injection hok
      contradiction
    . rw [heq] at h
      injection h
      contradiction
  | cons q rest ih =>
    rcases makeChain_cons_cases t p (q :: rest) with
      ⟨rfl, heq⟩ | heq | ⟨-, v, hok, heq⟩ | ⟨e, v, -, heq⟩
    . rw [heq] at h
      injection h with _ h
      exact .there (.here rfl) h.symm
    . exact provides_of_makeDirectoryIfMissing hp (heq.symm.trans h)
    . cases hps with | step _ htarget hascent =>
      rw [heq] at h
      have hplain := (List.forall_mem_cons.mp hplain).2
      have hq := hplain q List.mem_cons_self
      cases ih hascent hplain hok hq with
      | there _ hv =>
        subst hv
        exact provides_of_makeDirectoryIfMissing hp h
      | made hqsteps hmakes =>
        rcases steps_eq_of_target hp hq htarget with ⟨-, hnil⟩ | ⟨last, hsteps⟩
        . simp [hnil] at hqsteps
        . exact hmakes.provides hp (hqsteps ▸ hsteps) h
    . rw [heq] at h
      injection h
      contradiction

theorem provides_of_makeDirectories (hp : p.IsPlain) (h : t.makeDirectories p = (.ok (), u))
    : t.Provides u p.steps := by
  obtain ⟨rest, hchain, hascent⟩ := Path.ascent_chain hp.descends
  have hplain : ∀ q ∈ p.chain, q.IsPlain := Path.forall_mem_chain (by decide) hp
  rw [makeDirectories, hchain] at h
  rw [hchain] at hplain
  exact provides_of_makeChain hascent hplain h

theorem MakesUnder.entry?_eq (h : MakesUnder t u names name l) (m : Location)
    : u.entry? m = if m <:+ name :: l then some .directory else t.entry? m := by
  split
  . next hsuffix => exact directory_of_directory hsuffix h.made
  . next hsuffix => exact h.makes.eq_of_not_suffix hsuffix

section

variable (hp : p.IsPlain) (hsteps : p.steps = names ++ [name])
  (h : t.makeDirectories p = (.ok (), u))
include hp hsteps h

theorem Opens.makeDirectories (hopens : t.Opens names l)
    (hlink : ∀ target, t.entry? (name :: l) ≠ some (.link target))
    : u.Opens names l ∧
        ∀ m, u.entry? m = if m <:+ name :: l then some .directory else t.entry? m := by
  cases provides_of_makeDirectories hp h with
  | there hthere hu =>
    subst hu
    refine ⟨hopens, ?_⟩
    have hname := hp.last hsteps
    rw [hsteps] at hthere
    obtain rfl := hopens.eq_of_concat hname hlink hthere
    intro m
    split
    . next hsuffix => exact directory_of_directory hsuffix hthere.directory
    . rfl
  | made hsplit hmakes =>
    obtain ⟨rfl, rfl⟩ := List.append_singleton_inj.mp (hsteps.symm.trans hsplit)
    have hstill := hopens.mono (within_of_makesDirectories hmakes.makes)
    obtain rfl := hstill.eq hmakes.opens
    exact ⟨hstill, hmakes.entry?_eq⟩

/-- Steps that led nowhere lead into a new directory then. -/
theorem exists_opens_of_makeDirectories (hvacant : ∀ l, ¬ t.Opens names l)
    : ∃ l, t.entry? l = none ∧ u.Opens names l ∧
        ∀ m, u.entry? m = if m <:+ name :: l then some .directory else t.entry? m := by
  cases provides_of_makeDirectories hp h with
  | there hthere _ =>
    rw [hsteps] at hthere
    obtain ⟨m, hm⟩ := hthere.exists_init
    exact absurd hm (hvacant m)
  | made hsplit hmakes =>
    obtain ⟨rfl, rfl⟩ := List.append_singleton_inj.mp (hsteps.symm.trans hsplit)
    exact ⟨_, hmakes.before.resolve_left (hvacant _), hmakes.opens, hmakes.entry?_eq⟩

end

/-! ### Writing a file -/

theorem Opens.write (hopens : t.Opens names l) (hsteps : p.steps = names ++ [name])
    (hname : name ≠ "." ∧ name ≠ "..")
    (hlink : ∀ target, t.entry? (name :: l) ≠ some (.link target)) {content : ByteArray}
    (h : t.write p content = .ok u)
    : t.Within u ∧ p.refusal? = none ∧
        ∀ m, u.entry? m = if m = name :: l then some (.file content) else t.entry? m := by
  obtain ⟨name', parent, ending, hwalk, hne, rfl⟩ := exists_of_write h
  have hplace :=
    location_of_walk hopens hsteps hname (fun target htarget => absurd htarget (hlink target)) hwalk
  injection hplace with hplace
  injection hplace with hname' hparent
  subst hname' hparent
  have hput := fun m => entry?_put (l := m) (.file content) hopens.directory hne
  refine ⟨?_, (walk_eq_ok hwalk).1, hput⟩
  intro m e he hfile
  rw [hput, if_neg]
  . exact he
  . rintro rfl
    cases e with
    | file content => exact hfile content rfl
    | link target => exact hlink target he
    | directory => exact hne he

theorem Opens.read (hopens : t.Opens names l) (hsteps : p.steps = names ++ [name])
    (hname : name ≠ "." ∧ name ≠ "..") (htaken : p.refusal? = none) (hslash : p.endsInSlash = false)
    (hshort : isTooLong name = false) {content : ByteArray}
    (hfile : t.entry? (name :: l) = some (.file content)) : t.read p = .ok content := by
  have hne : p ≠ .empty := by
    rintro rfl
    simp [Path.steps, Path.empty] at hsteps
  have hwalk : t.walk (fun _ => true) p = .ok ⟨name :: l, .name, false⟩ := by
    rw [walk_eq htaken hne, hslash, hsteps]
    apply hopens.walkFrom_concat hname
    intro target hlink
    rw [hfile] at hlink
    injection hlink
    contradiction
  have hlook : t.look ⟨name :: l, .name, false⟩ = .ok (some (.file content)) := by
    simp [look, hshort, hfile]
  rw [FileTree.read, hwalk]
  dsimp only [bind, Except.bind]
  rw [hlook]
  rfl

/-! ### Removing -/

theorem Opens.isSome_of_walk (h : u.Opens p.steps l) (hleaves : t.Leaves u) {follow : Bool → Bool}
    {place : Place} (hwalk : t.walk follow p = .ok place)
    : (u.entry? place.location).isSome := by
  obtain ⟨place', hplace, hwalks⟩ := h.exists_walkFrom follow p.endsInSlash
  have heq := (walk_eq_ok hwalk).2.symm.trans
    (hwalks t fun m e he _ => hleaves m e he)
  injection heq with heq
  subst heq
  rcases hplace with hl | ⟨⟨target, hlink⟩, -⟩
  . rw [hl, h.directory]
    rfl
  . rw [hlink]
    rfl

theorem Opens.walk_ne_notFound (h : t.Opens p.steps l) (hne : p ≠ .empty) (follow : Bool → Bool)
    : t.walk follow p ≠ .error .notFound := by
  obtain ⟨place, -, hwalks⟩ := h.exists_walkFrom follow p.endsInSlash
  intro hwalk
  rw [walk_eq (refusal?_of_walk_eq_notFound hwalk) hne, hwalks t (.refl t)] at hwalk
  contradiction

theorem refusal?_of_removeTree (h : t.removeTree p = (.ok (), u)) : p.refusal? = none := by
  rcases removeTree_cases h with ⟨hfind, -⟩ | ⟨place, hfind, -⟩ | ⟨place, target, hfind, -⟩ |
    ⟨place, hfind, -⟩
  . exact refusal?_of_walk_eq_notFound (walk_of_find_eq_error hfind)
  . exact (walk_eq_ok (eq_of_find_eq_ok hfind).1).1
  . exact (walk_eq_ok (eq_of_find_eq_ok hfind).1).1
  . exact (walk_eq_ok (eq_of_find_eq_ok hfind).1).1

/-- The top itself cannot be removed. -/
theorem steps_ne_nil_of_removeTree (hne : p ≠ .empty) (h : t.removeTree p = (.ok (), u))
    : p.steps ≠ [] := by
  intro hsteps
  have hwalk : ∀ (t : FileTree) follow, t.walk follow p = .ok ⟨[], .top, p.endsInSlash⟩ := by
    intro t follow
    rw [walk_eq (refusal?_of_removeTree h) hne, hsteps]
    rfl
  have hbusy : removeDirectory (t.removeBelow []) p = .error .busy := by
    rw [removeDirectory, hwalk]
    rfl
  have hfind : t.find p = .ok (⟨[], .top, p.endsInSlash⟩, some .directory) := by
    rw [find, hwalk]
    rfl
  rw [find] at hfind
  rw [removeTree, hfind] at h
  dsimp only at h
  rw [hbusy] at h
  injection h
  contradiction

/-- Where a tree has been removed, the path leads nowhere. -/
theorem not_opens_of_removeTree (hp : p.IsPlain) (hne : p ≠ .empty)
    (h : t.removeTree p = (.ok (), u)) (l : Location) : ¬ u.Opens p.steps l := by
  intro hopens
  rcases removeTree_cases h with ⟨hfind, rfl⟩ | ⟨place, hfind, rfl⟩ | ⟨place, target, hfind, rfl⟩ |
    ⟨place, hfind, hremove | ⟨hremove, rfl⟩⟩
  . exact hopens.walk_ne_notFound hne id (walk_of_find_eq_error hfind)
  . obtain ⟨hwalk, hfound⟩ := eq_of_find_eq_ok hfind
    have hsome := hopens.isSome_of_walk (fun _ _ he => he) hwalk
    rw [← hfound] at hsome
    contradiction
  . obtain ⟨hwalk, hfound⟩ := eq_of_find_eq_ok hfind
    have hsome := hopens.isSome_of_walk leaves_restrict hwalk
    rw [ entry?_remove, if_pos List.suffix_rfl] at hsome
    . contradiction
    . intro htop
      rw [htop] at hfound
      injection hfound
      contradiction
  . obtain ⟨place', hwalk, rfl⟩ := exists_of_removeDirectory hremove
    have hsome := hopens.isSome_of_walk leaves_restrict hwalk
    obtain ⟨names, name, hlast⟩ :=
      (List.eq_nil_or_concat' p.steps).resolve_left (steps_ne_nil_of_removeTree hne h)
    obtain ⟨m, -, hplace⟩ := exists_opens_of_walk hp hlast hwalk
    rw [ entry?_remove, if_pos List.suffix_rfl] at hsome
    . contradiction
    . rw [hplace]
      exact List.cons_ne_nil _ _
  . rcases missing_of_removeDirectory hremove with hwalk | ⟨place', hwalk, hnone⟩
    . exact hopens.walk_ne_notFound hne _ hwalk
    . have hsome := hopens.isSome_of_walk (fun _ _ he => he) hwalk
      rw [hnone] at hsome
      contradiction

end RegistrySync.FileTree
