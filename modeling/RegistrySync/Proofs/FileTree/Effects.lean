import RegistrySync.Proofs.FileTree.Descent
import RegistrySync.Proofs.FileTree.PlainWalk
import RegistrySync.Proofs.Path.Size

/-!
What making directories and writing a file do to a file tree, for paths that never go up and are not
reached through links: at each location the entry that was there stays, but for those that the
operation is about.
-/

namespace RegistrySync.FileTree

variable {t u : FileTree} {p : Path}

theorem exists_of_bind_eq_ok {α β : Type} {x : Except Failure α} {f : α → Except Failure β} {b : β}
    (h : x >>= f = .ok b) : ∃ a, x = .ok a ∧ f a = .ok b := by
  cases x with
  | error e => contradiction
  | ok a => exact ⟨a, rfl, h⟩

theorem cases_of_bind_eq_error {α β : Type} {x : Except Failure α} {f : α → Except Failure β}
    {e : Failure} (h : x >>= f = .error e) : x = .error e ∨ ∃ a, x = .ok a ∧ f a = .error e := by
  cases x with
  | error e =>
    injection h with h
    rw [h]
    exact .inl rfl
  | ok a => exact .inr ⟨a, rfl, h⟩

/-! ### Making directories -/

theorem exists_of_makeDirectory (h : t.makeDirectory p = .ok u)
    : ∃ name parent slash, t.walk (fun _ => false) p = .ok ⟨name :: parent, .name, slash⟩ ∧
        t.entry? (name :: parent) = none ∧ u = t.put name parent .directory := by
  obtain ⟨⟨location, ending, slash⟩, hwalk, h⟩ := exists_of_bind_eq_ok h
  obtain ⟨found, hlook, h⟩ := exists_of_bind_eq_ok h
  have hfound := eq_of_look_eq_ok hlook
  dsimp only at hfound h
  split at h
  . next name parent _ =>
    injection h with h
    exact ⟨name, parent, slash, hwalk, hfound.symm, h.symm⟩
  . contradiction

/-- Nothing changes outside the locations that are touched, but that directories are made where
there was nothing. -/
def Spares (touched made : Location → Prop) (t u : FileTree) : Prop :=
  ∀ l, ¬ touched l → u.entry? l = t.entry? l ∨
    made l ∧ t.entry? l = none ∧ u.entry? l = some .directory

namespace Spares

variable {touched made : Location → Prop}

theorem refl (touched made : Location → Prop) (t : FileTree) : Spares touched made t t :=
  fun _ _ => .inl rfl

theorem trans {v : FileTree} (h : Spares touched made t u) (h' : Spares touched made u v)
    : Spares touched made t v := by
  intro l hl
  rcases h l hl with heq | ⟨hmade, hnone, hdirectory⟩
  . rw [← heq]
    exact h' l hl
  . rcases h' l hl with heq | ⟨-, hnone', -⟩
    . exact .inr ⟨hmade, hnone, heq.trans hdirectory⟩
    . rw [hdirectory] at hnone'
      contradiction

theorem mono {touched' made' : Location → Prop} (h : Spares touched made t u)
    (htouched : ∀ l, touched l → touched' l) (hmade : ∀ l, ¬ touched' l → made l → made' l)
    : Spares touched' made' t u := by
  intro l hl
  rcases h l (hl ∘ htouched l) with heq | ⟨hm, hnone, hdirectory⟩
  . exact .inl heq
  . exact .inr ⟨hmade l hl hm, hnone, hdirectory⟩

theorem linksFrom (h : Spares touched made t u)
    (htouched : ∀ l target, touched l → u.entry? l ≠ some (.link target)) : LinksFrom t u := by
  apply LinksFrom.of_eq_or_ne
  intro l
  by_cases hl : touched l
  . exact .inr fun target => htouched l target hl
  . rcases h l hl with heq | ⟨-, -, hdirectory⟩
    . exact .inl heq
    . rw [hdirectory]
      exact .inr nofun

theorem eq_of_not {l : Location} (h : Spares touched made t u) (htouched : ¬ touched l)
    (hmade : ¬ made l) : u.entry? l = t.entry? l := by
  rcases h l htouched with heq | ⟨hl, -⟩
  . exact heq
  . contradiction

/-- No link comes up above a location at and inside which things are touched. -/
theorem linkFree_tail {l : Location} {made : Location → Prop} (h : Spares (l <:+ ·) made t u)
    (habove : t.LinkFree l.tail) : u.LinkFree l.tail := by
  intro m target hm hlink
  by_cases hinside : l <:+ m
  . rw [Location.eq_nil_of_suffix_tail hinside hm] at hlink
    cases hlink
  . rcases h m hinside with heq | ⟨-, -, hdirectory⟩
    . rw [heq] at hlink
      exact habove m target hm hlink
    . rw [hdirectory] at hlink
      cases hlink

end Spares

/-- Nothing changes but that directories are made where there was nothing, at a location or
above it. -/
def MakesDirectories (l : Location) (t u : FileTree) : Prop :=
  ∀ m, u.entry? m = t.entry? m ∨
    m <:+ l ∧ t.entry? m = none ∧ u.entry? m = some .directory

theorem MakesDirectories.refl (l : Location) (t : FileTree) : MakesDirectories l t t :=
  fun _ => .inl rfl

theorem MakesDirectories.mono {l m : Location} (h : MakesDirectories l t u) (hsuffix : l <:+ m)
    : MakesDirectories m t u := by
  intro k
  rcases h k with hk | ⟨hk, hnone, hmade⟩
  . exact .inl hk
  . exact .inr ⟨hk.trans hsuffix, hnone, hmade⟩

theorem MakesDirectories.trans {v : FileTree} {l : Location} (h : MakesDirectories l t u)
    (h' : MakesDirectories l u v) : MakesDirectories l t v := by
  intro m
  rcases h m with hm | ⟨hm, hnone, hmade⟩
  . rw [← hm]
    exact h' m
  . rcases h' m with hm' | ⟨-, hnone', -⟩
    . exact .inr ⟨hm, hnone, hm'.trans hmade⟩
    . rw [hmade] at hnone'
      contradiction

theorem MakesDirectories.spares {l : Location} (h : MakesDirectories l t u)
    {touched made : Location → Prop} (hmade : ∀ m, m <:+ l → made m) : Spares touched made t u := by
  intro m _
  rcases h m with heq | ⟨hm, hnone, hdirectory⟩
  . exact .inl heq
  . exact .inr ⟨hmade m hm, hnone, hdirectory⟩

theorem MakesDirectories.entry?_eq {l m : Location} (h : MakesDirectories l.tail t u)
    (hsuffix : l <:+ m) : u.entry? m = t.entry? m := by
  rcases h m with heq | ⟨hm, hnone, -⟩
  . exact heq
  . rw [Location.eq_nil_of_suffix_tail hsuffix hm] at hnone
    contradiction

theorem MakesDirectories.eq_of_not_suffix {l m : Location} (h : MakesDirectories l t u)
    (hm : ¬ m <:+ l) : u.entry? m = t.entry? m := by
  rcases h m with heq | ⟨hsuffix, -⟩
  . exact heq
  . contradiction

theorem MakesDirectories.linksFrom {l : Location} (h : MakesDirectories l t u)
    : LinksFrom t u := by
  apply LinksFrom.of_eq_or_ne
  intro m
  rcases h m with hm | ⟨-, -, hmade⟩
  . exact .inl hm
  . rw [hmade]
    exact .inr nofun

section

variable (hp : p.Descends) (hlinks : t.LinkFree p.target)
include hp hlinks

theorem makeDirectory_makesDirectories (h : t.makeDirectory p = .ok u)
    : MakesDirectories p.target t u ∧ u.entry? p.target = some .directory := by
  obtain ⟨name, parent, slash, hwalk, hnone, rfl⟩ := exists_of_makeDirectory h
  obtain ⟨htarget, hparent⟩ := reaches_of_linkFree hp hlinks _ _ hwalk
  dsimp only at htarget
  rw [← htarget, List.tail_cons] at hparent
  rw [← htarget]
  have hput : ∀ l, entry? (t.put name parent .directory) l =
      if l = name :: parent then some .directory else t.entry? l := by
    intro l
    apply entry?_put .directory hparent
    rw [hnone]
    exact nofun
  constructor
  . intro m
    rw [hput]
    split
    . next hm =>
      subst hm
      exact .inr ⟨List.suffix_rfl, hnone, rfl⟩
    . exact .inl rfl
  . rw [hput, if_pos rfl]

theorem makesDirectories_of_makeDirectoryIfMissing
    : MakesDirectories p.target t (t.makeDirectoryIfMissing p).2 := by
  unfold makeDirectoryIfMissing
  split
  . next u hmake => exact (makeDirectory_makesDirectories hp hlinks hmake).1
  . exact .refl _ t

theorem directory_of_isDirectory (h : t.isDirectory p = true)
    : t.entry? p.target = some .directory := by
  unfold isDirectory at h
  split at h
  . next place hwalk =>
    split at h
    . next hlook =>
      rw [← (reaches_of_linkFree hp hlinks _ _ hwalk).1]
      exact (eq_of_look_eq_ok hlook).symm
    . contradiction
  . contradiction

theorem directory_of_makeDirectoryIfMissing (h : (t.makeDirectoryIfMissing p).1 = .ok ())
    : entry? (t.makeDirectoryIfMissing p).2 p.target = some .directory := by
  unfold makeDirectoryIfMissing at h ⊢
  split at h
  . next u hmake => exact (makeDirectory_makesDirectories hp hlinks hmake).2
  . split at h
    . next hdirectory => exact directory_of_isDirectory hp hlinks hdirectory
    . contradiction

end

theorem eq_of_makeDirectoryIfMissing {e : Failure}
    (h : t.makeDirectoryIfMissing p = (.error e, u)) : t.makeDirectory p = .error e ∧ u = t := by
  unfold makeDirectoryIfMissing at h
  split at h
  . injection h
    contradiction
  . next hmake =>
    injection h with hresult hu
    split at hresult
    . contradiction
    . injection hresult with hresult
      rw [hmake, hresult]
      exact ⟨rfl, hu.symm⟩

theorem makeChain_cons_cases (t : FileTree) (p : Path) (rest : List Path)
    : (p = .empty ∧ t.makeChain (p :: rest) = (.ok (), t)) ∨
      t.makeChain (p :: rest) = t.makeDirectoryIfMissing p ∨
      (t.makeDirectory p = .error .notFound ∧ ∃ u, t.makeChain rest = (.ok (), u) ∧
        t.makeChain (p :: rest) = u.makeDirectoryIfMissing p) ∨
      (∃ e u, t.makeChain rest = (.error e, u) ∧ t.makeChain (p :: rest) = (.error e, u)) := by
  rw [makeChain]
  split
  . next hempty => exact .inl ⟨hempty, rfl⟩
  . split
    . next hmissing =>
      cases hrest : t.makeChain rest with
      | mk outcome u =>
        cases outcome with
        | ok => exact .inr (.inr (.inl ⟨hmissing, u, rfl, rfl⟩))
        | error e => exact .inr (.inr (.inr ⟨e, u, rfl, rfl⟩))
    . exact .inr (.inl rfl)

section

variable {rest : List Path} (hps : Path.Ascent (p :: rest)) (hlinks : t.LinkFree p.target)
include hps hlinks

theorem makesDirectories_of_makeChain
    : MakesDirectories p.target t (t.makeChain (p :: rest)).2 := by
  induction rest generalizing p with
  | nil =>
    rcases makeChain_cons_cases t p [] with ⟨-, h⟩ | h | ⟨-, u, hrest, -⟩ | ⟨e, u, hrest, h⟩
    . rw [h]
      exact .refl _ t
    . rw [h]
      exact makesDirectories_of_makeDirectoryIfMissing hps.descends hlinks
    . injection hrest
      contradiction
    . rw [h]
      injection hrest with _ hu
      rw [← hu]
      exact .refl _ t
  | cons q rest ih =>
    cases hps with
    | step hp htarget hrest =>
      have habove : q.target <:+ p.target := htarget ▸ List.tail_suffix _
      have ih := (ih hrest (hlinks.mono habove)).mono habove
      rcases makeChain_cons_cases t p (q :: rest) with
        ⟨-, h⟩ | h | ⟨-, u, hok, h⟩ | ⟨e, u, herror, h⟩
      . rw [h]
        exact .refl _ t
      . rw [h]
        exact makesDirectories_of_makeDirectoryIfMissing hp hlinks
      . rw [hok] at ih
        rw [h]
        -- There are new directories now but no new links, so the path leads where it did.
        apply ih.trans
        exact makesDirectories_of_makeDirectoryIfMissing hp (hlinks.of_linksFrom ih.linksFrom)
      . rw [herror] at ih
        rw [h]
        exact ih

theorem makesDirectories_above_of_makeChain
    : MakesDirectories p.target.tail t (t.makeChain rest).2 := by
  cases hps with
  | last => exact .refl _ t
  | step _ htarget hrest =>
    rw [← htarget]
    exact makesDirectories_of_makeChain hrest
      (hlinks.mono (htarget ▸ List.tail_suffix _))

theorem directory_of_makeChain (h : t.makeChain (p :: rest) = (.ok (), u))
    : u.entry? p.target = some .directory := by
  have habove := (makesDirectories_above_of_makeChain hps hlinks).linksFrom
  have hmade : ∀ v : FileTree, v.LinkFree p.target → v.makeDirectoryIfMissing p = (.ok (), u) →
      u.entry? p.target = some .directory := by
    intro v hv hmake
    have hdirectory :=
      directory_of_makeDirectoryIfMissing hps.descends hv (congrArg Prod.fst hmake)
    rw [hmake] at hdirectory
    exact hdirectory
  rcases makeChain_cons_cases t p rest with ⟨hempty, -⟩ | heq | ⟨-, v, hok, heq⟩ | ⟨e, v, -, heq⟩
  . rw [hempty]
    rfl
  . exact hmade t hlinks (heq.symm.trans h)
  . rw [hok] at habove
    exact hmade v (hlinks.of_linksFrom habove) (heq.symm.trans h)
  . rw [heq] at h
    injection h
    contradiction

theorem makesDirectories_of_failed_makeChain {e : Failure}
    (h : t.makeChain (p :: rest) = (.error e, u)) : MakesDirectories p.target.tail t u := by
  have habove := makesDirectories_above_of_makeChain hps hlinks
  rcases makeChain_cons_cases t p rest with ⟨-, heq⟩ | heq | ⟨-, v, hok, heq⟩ | ⟨e, v, herror, heq⟩
  . rw [heq] at h
    injection h
    contradiction
  . rw [(eq_of_makeDirectoryIfMissing (heq.symm.trans h)).2]
    exact .refl _ t
  . rw [hok] at habove
    rw [(eq_of_makeDirectoryIfMissing (heq.symm.trans h)).2]
    exact habove
  . rw [herror] at habove
    rw [heq] at h
    injection h with _ h
    rw [← h]
    exact habove

end

section

variable (hp : p.Descends) (hlinks : t.LinkFree p.target)
include hp hlinks

theorem makesDirectories_of_makeDirectories {outcome : Except Failure Unit}
    (h : t.makeDirectories p = (outcome, u)) : MakesDirectories p.target t u := by
  obtain ⟨rest, hchain, hascent⟩ := Path.ascent_chain hp
  have hmakes := makesDirectories_of_makeChain hascent hlinks
  rw [makeDirectories, hchain] at h
  rw [h] at hmakes
  exact hmakes

/-- The directory itself is the last one to be made. -/
theorem makesDirectories_of_failed {e : Failure} (h : t.makeDirectories p = (.error e, u))
    : MakesDirectories p.target.tail t u := by
  obtain ⟨rest, hchain, hascent⟩ := Path.ascent_chain hp
  rw [makeDirectories, hchain] at h
  exact makesDirectories_of_failed_makeChain hascent hlinks h

theorem entry?_makeDirectories (h : t.makeDirectories p = (.ok (), u)) (l : Location)
    : u.entry? l = if l <:+ p.target then some .directory else t.entry? l := by
  split
  . next hsuffix =>
    obtain ⟨rest, hchain, hascent⟩ := Path.ascent_chain hp
    rw [makeDirectories, hchain] at h
    exact directory_of_directory hsuffix (directory_of_makeChain hascent hlinks h)
  . next hsuffix =>
    rcases makesDirectories_of_makeDirectories hp hlinks h l with heq | ⟨hl, -⟩
    . exact heq
    . contradiction

end

/-! ### Paths that are refused, and names that are too long -/

theorem makeDirectories_of_refusal {e : Failure} (h : p.refusal? = some e)
    : t.makeDirectories p = (.error e, t) := by
  have hmake : t.makeDirectory p = .error e := by
    rw [makeDirectory, walk_of_refusal h]
    rfl
  have hmissing : t.makeDirectoryIfMissing p = (.error e, t) := by
    have hdirectory : t.isDirectory p = false := by rw [isDirectory, walk_of_refusal h]
    rw [makeDirectoryIfMissing, hmake, hdirectory]
    rfl
  have hne : p ≠ .empty := by
    rintro rfl
    contradiction
  obtain ⟨rest, hchain⟩ : ∃ rest, p.chain = p :: rest := by
    unfold Path.chain
    cases p.segments.length <;> exact ⟨_, rfl⟩
  rw [makeDirectories, hchain, makeChain, if_neg hne, hmake]
  split
  . next hnotFound =>
    injection hnotFound with hnotFound
    exact absurd (hnotFound ▸ h) p.refusal?_ne_notFound
  . exact hmissing

theorem isName_of_isTooLong {name : String} (h : isTooLong name = true)
    : Path.isName name = true := by
  rw [← Bool.not_eq_false]
  intro hidle
  rcases Path.isName_eq_false_iff.mp hidle with rfl | rfl <;> contradiction

theorem walk_of_makeDirectory_eq_notFound (h : t.makeDirectory p = .error .notFound)
    : t.walk (fun _ => false) p = .error .notFound := by
  rcases cases_of_bind_eq_error h with hwalk | ⟨place, -, h⟩
  . exact hwalk
  . rcases cases_of_bind_eq_error h with hlook | ⟨found, -, h⟩
    . exact absurd hlook (look_ne_notFound place)
    . split at h <;> cases h

/-- In a directory the name is missing from, only a name that is too long cannot be made. -/
theorem isTooLong_of_makeDirectory (hp : p.IsPlain) (habove : t.LinkFree p.location.tail)
    {name : String} {parent : Location} (hlocation : p.location = name :: parent)
    (htaken : p.refusal? = none) (hnone : t.entry? (name :: parent) = none)
    (hparent : t.entry? parent = some .directory) {e : Failure}
    (h : t.makeDirectory p = .error e) : isTooLong name = true := by
  have hne : p.location ≠ [] := hlocation ▸ List.cons_ne_nil name parent
  rcases @walk_cases _ (fun _ => false) p hp habove (fun _ _ => rfl) htaken hne with
    ⟨-, hwalk⟩ | ⟨hnot, -⟩
  . rw [← Bool.not_eq_false]
    intro hname
    have hlook : t.look ⟨p.location, .name, p.endsInSlash⟩ = .ok none := by
      rw [hlocation]
      simp [look, hname, hnone]
    rw [makeDirectory, hwalk] at h
    dsimp only [bind, Except.bind] at h
    rw [hlook, hlocation] at h
    contradiction
  . rw [hlocation] at hnot
    contradiction

/-- If a path is made up to its last name only, then that name is too long. -/
theorem isTooLong_of_failed (hp : p.IsPlain) (hlinks : t.LinkFree p.location) {name : String}
    {parent : Location} (hlocation : p.location = name :: parent) {e : Failure}
    (h : t.makeDirectories p = (.error e, u)) (hnone : t.entry? parent = none)
    (hmade : u.entry? parent = some .directory) : isTooLong name = true := by
  have hunmade : ∀ v : FileTree, v.entry? parent = t.entry? parent → u ≠ v := by
    rintro v hv rfl
    rw [hv, hnone] at hmade
    contradiction
  obtain ⟨rest, hchain, hascent⟩ := Path.ascent_chain hp.descends
  have hparent : p.target.tail = parent := by
    rw [hp.target_eq, hlocation, List.tail_cons]
  have habove := makesDirectories_above_of_makeChain hascent (hp.target_eq ▸ hlinks)
  rw [makeDirectories, hchain] at h
  rcases makeChain_cons_cases t p rest with
    ⟨-, heq⟩ | heq | ⟨hmissing, v, hok, heq⟩ | ⟨e, v, herror, heq⟩
  . rw [heq] at h
    injection h
    contradiction
  . exact absurd (eq_of_makeDirectoryIfMissing (heq.symm.trans h)).2 (hunmade t rfl)
  . obtain ⟨hmake, rfl⟩ := eq_of_makeDirectoryIfMissing (heq.symm.trans h)
    rw [hok, hparent] at habove
    have htaken := refusal?_of_walk_eq_notFound (walk_of_makeDirectory_eq_notFound hmissing)
    have hname : entry? u (name :: parent) = none := by
      rw [MakesDirectories.entry?_eq (l := name :: parent) habove List.suffix_rfl]
      exact entry?_eq_none_of_suffix hnone (List.suffix_cons name parent)
    have hfree := (hlinks.mono (List.tail_suffix _)).of_linksFrom habove.linksFrom
    exact isTooLong_of_makeDirectory hp hfree hlocation htaken hname hmade hmake
  . rw [heq] at h
    injection h with _ hv
    cases hascent with
    | last =>
      injection herror with _ ht
      exact absurd (hv.symm.trans ht.symm) (hunmade t rfl)
    | step _ htarget hrest =>
      have hlinks : t.LinkFree p.target.tail := hp.target_eq ▸ hlinks.mono (List.tail_suffix _)
      rw [← htarget] at hlinks
      have hfailed := makesDirectories_of_failed_makeChain hrest hlinks herror
      rw [htarget, hparent] at hfailed
      exact absurd hv.symm (hunmade v (hfailed.entry?_eq List.suffix_rfl))

/-- In a directory that is missing, a name that is too long is found out only after the directory
has been made. -/
theorem makeDirectories_of_isTooLong {parent name : String} (hp : Path.IsPlain ⟨[parent, name]⟩)
    (hnames : parent ≠ "" ∧ name ≠ "") (htaken : Path.refusal? ⟨[parent, name]⟩ = none)
    (hshort : isTooLong parent = false) (hlong : isTooLong name = true)
    (hmissing : t.entry? [parent] = none)
    : t.makeDirectories ⟨[parent, name]⟩ = (.error .nameTooLong, t.put parent [] .directory) := by
  obtain ⟨hparent, hname⟩ : (parent ≠ "." ∧ parent ≠ "..") ∧ (name ≠ "." ∧ name ≠ "..") := by
    simpa [Path.IsPlain] using hp
  have htop : ∀ t : FileTree, t.entry? [] = some .directory := fun _ => rfl
  have hput : ∀ l, entry? (t.put parent [] .directory) l =
      if l = [parent] then some .directory else t.entry? l := by
    intro l
    apply entry?_put .directory rfl
    rw [hmissing]
    exact nofun
  have hne : Path.mk [parent, name] ≠ .empty ∧ Path.mk [parent] ≠ .empty := by
    simp [Path.empty, hnames]
  have hfolder : Path.parent? ⟨[parent, name]⟩ = some ⟨[parent]⟩ := by
    simp [Path.parent?, Path.dropIdle, hname, hnames]
  have htaken' := Path.refusal?_parent? hfolder htaken
  have hchain : Path.chain ⟨[parent, name]⟩ = [⟨[parent, name]⟩, ⟨[parent]⟩, Path.empty] := by
    simp [Path.chain, Path.chain.go, Path.parent?, Path.dropIdle, hname, hnames, Path.root]
  have hfirst : t.makeDirectory ⟨[parent, name]⟩ = .error .notFound := by
    have hwalk : t.walk (fun _ => false) ⟨[parent, name]⟩ = .error .notFound := by
      rw [walk_eq htaken hne.1]
      simp [walkFrom, along, Path.steps, hparent, hnames, htop, hmissing, hshort]
    rw [makeDirectory, hwalk]
    rfl
  have hsecond : t.makeDirectory ⟨[parent]⟩ = .ok (t.put parent [] .directory) := by
    rw [makeDirectory, walk_eq htaken' hne.2]
    simp [walkFrom, along, look, Path.steps, hparent, hnames, htop, hmissing, hshort, bind,
      Except.bind, pure, Except.pure]
  have hlook : look (t.put parent [] .directory) ⟨[name, parent], .name, false⟩ =
      .error .nameTooLong := by
    simp [look, hlong]
  have hthird : ∀ follow, walk (t.put parent [] .directory) follow ⟨[parent, name]⟩ =
      .ok ⟨[name, parent], .name, false⟩ := by
    intro follow
    have hnone : t.entry? [name, parent] = none :=
      entry?_eq_none_of_suffix hmissing (List.suffix_cons _ _)
    rw [walk_eq htaken hne.1]
    simp [walkFrom, along, Path.steps, Path.endsInSlash, hparent, hname, hnames, htop, hput, hnone]
  have hmade : t.makeDirectoryIfMissing ⟨[parent]⟩ = (.ok (), t.put parent [] .directory) := by
    rw [makeDirectoryIfMissing, hsecond]
  have hfailed : makeDirectoryIfMissing (t.put parent [] .directory) ⟨[parent, name]⟩ =
      (.error .nameTooLong, t.put parent [] .directory) := by
    simp [makeDirectoryIfMissing, makeDirectory, isDirectory, hthird, hlook, bind, Except.bind]
  rw [makeDirectories, hchain]
  simp [makeChain, hfirst, hsecond, hmade, hfailed, hne]

/-! ### Writing a file -/

theorem exists_of_write {content : ByteArray} (h : t.write p content = .ok u)
    : ∃ name parent ending, t.walk (!·) p = .ok ⟨name :: parent, ending, false⟩ ∧
        t.entry? (name :: parent) ≠ some .directory ∧
        u = t.put name parent (.file content) := by
  obtain ⟨⟨location, ending, slash⟩, hwalk, h⟩ := exists_of_bind_eq_ok h
  cases slash with
  | true => contradiction
  | false =>
    obtain ⟨found, hlook, h⟩ := exists_of_bind_eq_ok h
    have hfound := eq_of_look_eq_ok hlook
    dsimp only at hfound h
    split at h
    . contradiction
    . next name parent hne _ =>
      injection h with h
      refine ⟨name, parent, ending, hwalk, ?_, h.symm⟩
      rw [← hfound]
      exact hne
    . contradiction

theorem entry?_write_of_reaches {m : Location} (hreaches : t.Reaches p m) {content : ByteArray}
    (h : t.write p content = .ok u) (l : Location)
    : u.entry? l = if l = m then some (.file content) else t.entry? l := by
  obtain ⟨name, parent, ending, hwalk, hne, rfl⟩ := exists_of_write h
  obtain ⟨rfl, hparent⟩ := hreaches _ _ hwalk
  exact entry?_put (.file content) hparent hne

theorem entry?_write (hp : p.Descends) (hlinks : t.LinkFree p.target) {content : ByteArray}
    (h : t.write p content = .ok u) (l : Location)
    : u.entry? l = if l = p.target then some (.file content) else t.entry? l :=
  entry?_write_of_reaches (reaches_of_linkFree hp hlinks) h l

end RegistrySync.FileTree
