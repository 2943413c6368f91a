import RegistrySync.Proofs.FileTree.Linkless
import RegistrySync.Proofs.FileTree.Removal

/-!
When operations on a file tree without links complete. A path that is made of names which the system
accepts, and not too long as a whole, can be used unless a file is in the way above its location, or
what stands at the location is of the wrong kind.
-/

namespace RegistrySync

def FileTree.accepts (name : String) : Bool :=
  !isTooLong name && !name.toList.contains '\x00'

/-- Made of names that the system accepts. -/
structure Path.IsOrdinary (p : Path) : Prop where
  plain : p.IsPlain
  accepted : ∀ s ∈ p.segments, FileTree.accepts s = true

instance (p : Path) : Decidable p.IsOrdinary :=
  decidable_of_iff (p.IsPlain ∧ ∀ s ∈ p.segments, FileTree.accepts s = true)
    ⟨fun h => ⟨h.1, h.2⟩, fun h => ⟨h.plain, h.accepted⟩⟩

/-- The system takes the whole path as well. -/
structure Path.IsUsable (p : Path) : Prop extends p.IsOrdinary where
  short : p.isTooLong = false

namespace Path.IsOrdinary

variable {p : Path} (hp : p.IsOrdinary)
include hp

theorem hasNul : p.hasNul = false := by
  rw [Path.hasNul, List.any_eq_false]
  intro s hs
  have hs := hp.accepted s hs
  rw [FileTree.accepts, Bool.and_eq_true, Bool.not_eq_true', Bool.not_eq_true'] at hs
  rw [hs.2]
  exact Bool.false_ne_true

theorem isTooLong_name {name : String} (hname : name ∈ p.location)
    : FileTree.isTooLong name = false := by
  have hname := (List.mem_filter.mp (List.mem_reverse.mp hname)).1
  have hname := hp.accepted name hname
  rw [FileTree.accepts, Bool.and_eq_true, Bool.not_eq_true'] at hname
  exact hname.1

theorem parent {q : Path} (h : p.parent? = some q) : q.IsOrdinary where
  plain := by
    intro s hs
    rcases segments_of_parent? h hs with rfl | hs
    . decide
    . exact hp.plain s hs
  accepted := by
    intro s hs
    rcases segments_of_parent? h hs with rfl | hs
    . decide
    . exact hp.accepted s hs

theorem join {name : String} (hslash : '/' ∉ name.toList) (hdots : name ≠ "." ∧ name ≠ "..")
    (hname : FileTree.accepts name = true) : (p.join (ofText name)).IsOrdinary where
  plain := isPlain_join hslash hp.plain hdots
  accepted := by
    rw [join_ofText hslash]
    intro s hs
    rcases List.mem_append.mp hs with hs | hs
    . exact hp.accepted s ((openEnd_sublist _).mem hs)
    . rw [List.mem_singleton.mp hs]
      exact hname

end Path.IsOrdinary

namespace Path.IsUsable

variable {p : Path} (hp : p.IsUsable)
include hp

theorem taken : p.refusal? = none :=
  refusal?_eq_none_iff.mpr ⟨hp.hasNul, hp.short⟩

theorem parent {q : Path} (h : p.parent? = some q) : q.IsUsable where
  toIsOrdinary := hp.toIsOrdinary.parent h
  short := isTooLong_of_le hp.short (size_parent? h)

end Path.IsUsable

namespace FileTree

variable {t u : FileTree} {p : Path} {follow : Bool → Bool}

/-! ### Files in the way -/

/-- No file is at a location or above it. -/
def FileFree (t : FileTree) (l : Location) : Prop :=
  ∀ m content, m <:+ l → t.entry? m ≠ some (.file content)

theorem FileFree.mono {l m : Location} (h : t.FileFree m) (hsuffix : l <:+ m) : t.FileFree l :=
  fun k content hk => h k content (hk.trans hsuffix)

theorem fileFree_of_directory {l : Location} (h : t.entry? l = some .directory)
    : t.FileFree l := by
  intro m content hm hfile
  rw [directory_of_directory hm h] at hfile
  injection hfile
  contradiction

theorem fileFree_of_missing {l parent : Location} {name : String} (hsuffix : name :: parent <:+ l)
    (hnone : t.entry? (name :: parent) = none) (hparent : t.entry? parent = some .directory)
    : t.FileFree l := by
  intro m content hm hfile
  rcases List.suffix_or_suffix_of_suffix hm hsuffix with hm | hm
  . rcases List.suffix_cons_iff.mp hm with rfl | hm
    . rw [hnone] at hfile
      contradiction
    . exact fileFree_of_directory hparent m content hm hfile
  . rw [entry?_eq_none_of_suffix hnone hm] at hfile
    contradiction

/-- No file comes up above a location at and inside which things are touched. -/
theorem Spares.fileFree_tail {l : Location} {made : Location → Prop}
    (h : Spares (l <:+ ·) made t u) (habove : t.FileFree l.tail) : u.FileFree l.tail := by
  intro m content hm hfile
  by_cases hinside : l <:+ m
  . rw [Location.eq_nil_of_suffix_tail hinside hm] at hfile
    cases hfile
  . rcases h m hinside with heq | ⟨-, -, hdirectory⟩
    . rw [heq] at hfile
      exact habove m content hm hfile
    . rw [hdirectory] at hfile
      cases hfile

/-! ### Walking -/

theorem along_cases_of_noLinks {onLink : Bool → Location → List String → Except Failure Place}
    {slash : Bool} {ending : Ending} {here : Location} {names : List String} (hlinks : t.NoLinks)
    (hne : names ≠ []) (hnames : ∀ name ∈ names, name ≠ "." ∧ name ≠ "..")
    (hshort : ∀ name ∈ names, isTooLong name = false) (hhere : (t.entry? here).isSome)
    : (t.entry? (names.reverse ++ here).tail = some .directory ∧
        t.along follow onLink slash ending here names =
          .ok ⟨names.reverse ++ here, .name, slash⟩) ∨
      (¬ t.FileFree (names.reverse ++ here).tail ∧
        t.along follow onLink slash ending here names = .error .notDirectory) ∨
      ((∃ name parent, name :: parent <:+ (names.reverse ++ here).tail ∧
          t.entry? (name :: parent) = none ∧ t.entry? parent = some .directory) ∧
        t.along follow onLink slash ending here names = .error .notFound) := by
  induction names generalizing ending here with
  | nil => contradiction
  | cons name rest ih =>
    have hbelow : here <:+ (rest.reverse ++ name :: here).tail := by
      cases hrest : rest.reverse with
      | nil => exact List.suffix_rfl
      | cons first others => exact ⟨others ++ [name], by simp⟩
    rw [List.reverse_cons, List.append_assoc, List.singleton_append,
      along_cons (hnames name List.mem_cons_self) fun target h => absurd h (hlinks _ target)]
    split
    . next hnot =>
      refine .inr (.inl ⟨?_, rfl⟩)
      intro hfree
      cases hentry : t.entry? here with
      | none => simp [hentry] at hhere
      | some e =>
        cases e with
        | file content => exact hfree here content hbelow hentry
        | link target => exact hlinks here target hentry
        | directory => exact hnot hentry
    . next hdirectory =>
      split
      . next hrest =>
        subst hrest
        exact .inl ⟨Classical.not_not.mp hdirectory, rfl⟩
      . next hrest =>
        have hinside : name :: here <:+ (rest.reverse ++ name :: here).tail := by
          cases hreverse : rest.reverse with
          | nil => exact absurd (List.reverse_eq_nil_iff.mp hreverse) hrest
          | cons first others => exact List.suffix_append others _
        split
        . next hnone =>
          rw [hshort name List.mem_cons_self, if_neg Bool.false_ne_true]
          exact .inr (.inr ⟨⟨name, here, hinside, hnone, Classical.not_not.mp hdirectory⟩, rfl⟩)
        . next hsome =>
          exact ih hrest (fun n hn => hnames n (List.mem_cons_of_mem _ hn))
            (fun n hn => hshort n (List.mem_cons_of_mem _ hn)) (Option.isSome_iff_ne_none.mpr hsome)

section

variable (hlinks : t.NoLinks) (hp : p.IsUsable)
include hlinks hp

theorem walk_cases_of_noLinks (hne : p.location ≠ []) (follow : Bool → Bool)
    : (t.entry? p.location.tail = some .directory ∧
        t.walk follow p = .ok ⟨p.location, .name, p.endsInSlash⟩) ∨
      (¬ t.FileFree p.location.tail ∧ t.walk follow p = .error .notDirectory) ∨
      ((∃ name parent, name :: parent <:+ p.location.tail ∧ t.entry? (name :: parent) = none ∧
          t.entry? parent = some .directory) ∧ t.walk follow p = .error .notFound) := by
  have hempty : p ≠ .empty := by
    rintro rfl
    exact hne rfl
  have hsteps : p.steps ≠ [] := by
    intro hsteps
    rw [Path.location, hsteps] at hne
    contradiction
  rw [walk_eq hp.taken hempty, ← List.append_nil p.location]
  exact along_cases_of_noLinks hlinks hsteps (fun name hname => hp.plain.of_mem_steps hname)
    (fun name hname => hp.isTooLong_name (List.mem_reverse.mpr hname)) rfl

omit hlinks in
theorem look_eq (hne : p.location ≠ []) (slash : Bool)
    : t.look ⟨p.location, .name, slash⟩ = .ok (t.entry? p.location) := by
  obtain ⟨name, parent, hlocation⟩ := List.exists_cons_of_ne_nil hne
  have hname : isTooLong name = false := by
    apply hp.isTooLong_name
    rw [hlocation]
    exact List.mem_cons_self
  rw [hlocation]
  simp [look, hname]

theorem exists_walk_of_directory (hempty : p ≠ .empty)
    (hparent : t.entry? p.location.tail = some .directory) (follow : Bool → Bool)
    : ∃ place, t.walk follow p = .ok place ∧ t.look place = .ok (t.entry? p.location) := by
  by_cases hne : p.location = []
  . have hsteps : p.steps = [] := List.reverse_eq_nil_iff.mp hne
    refine ⟨⟨[], .top, p.endsInSlash⟩, ?_, by rw [hne]; rfl⟩
    rw [walk_eq hp.taken hempty, hsteps]
    rfl
  . rcases walk_cases_of_noLinks hlinks hp hne follow with
      ⟨-, hwalk⟩ | ⟨hfile, -⟩ | ⟨⟨name, parent, hsuffix, hnone, -⟩, -⟩
    . exact ⟨_, hwalk, look_eq hp hne _⟩
    . exact absurd (fileFree_of_directory hparent) hfile
    . rw [entry?_eq_none_of_suffix hnone hsuffix] at hparent
      contradiction

/-! ### Making directories -/

theorem exists_makeDirectoryIfMissing (hempty : p ≠ .empty)
    (hparent : t.entry? p.location.tail = some .directory)
    (hfile : ∀ content, t.entry? p.location ≠ some (.file content))
    : ∃ u, t.makeDirectoryIfMissing p = (.ok (), u) := by
  have hdirectory : t.makeDirectory p = .ok (t.put (p.location.headD "") p.location.tail .directory)
      ∨ t.isDirectory p = true := by
    cases hentry : t.entry? p.location with
    | none =>
      have hne : p.location ≠ [] := by
        intro hne
        rw [hne] at hentry
        contradiction
      obtain ⟨name, parent, hlocation⟩ := List.exists_cons_of_ne_nil hne
      rcases walk_cases_of_noLinks hlinks hp hne (fun _ => false) with
        ⟨-, hwalk⟩ | ⟨hfile, -⟩ | ⟨⟨name, parent, hsuffix, hnone, -⟩, -⟩
      . left
        rw [makeDirectory, hwalk]
        dsimp only [bind, Except.bind]
        rw [look_eq hp hne, hentry, hlocation]
        rfl
      . exact absurd (fileFree_of_directory hparent) hfile
      . rw [entry?_eq_none_of_suffix hnone hsuffix] at hparent
        contradiction
    | some e =>
      cases e with
      | file content => exact absurd hentry (hfile content)
      | link target => exact absurd hentry (hlinks _ target)
      | directory =>
        right
        obtain ⟨place, hwalk, hlook⟩ :=
          exists_walk_of_directory hlinks hp hempty hparent (fun _ => true)
        rw [hentry] at hlook
        rw [isDirectory, hwalk]
        dsimp only
        rw [hlook]
  unfold makeDirectoryIfMissing
  rcases hdirectory with hmake | hdirectory
  . rw [hmake]
    exact ⟨_, rfl⟩
  . split
    . exact ⟨_, rfl⟩
    . rw [if_pos hdirectory]
      exact ⟨_, rfl⟩

theorem exists_makeChain_of_directory (hparent : t.entry? p.location.tail = some .directory)
    (hfile : ∀ content, t.entry? p.location ≠ some (.file content)) (rest : List Path)
    : ∃ u, t.makeChain (p :: rest) = (.ok (), u) := by
  rw [makeChain]
  split
  . exact ⟨t, rfl⟩
  . next hempty =>
    split
    . next hmissing =>
      obtain ⟨place, hwalk, -⟩ :=
        exists_walk_of_directory hlinks hp hempty hparent (fun _ => false)
      rw [walk_of_makeDirectory_eq_notFound hmissing] at hwalk
      contradiction
    . exact exists_makeDirectoryIfMissing hlinks hp hempty hparent hfile

theorem exists_makeChain {n : Nat} (hn : p.location.length ≤ n) (hfree : t.FileFree p.location)
    : ∃ u, t.makeChain (Path.chain.go n p) = (.ok (), u) := by
  have hfile := fun content => hfree p.location content List.suffix_rfl
  induction n generalizing p with
  | zero =>
    apply exists_makeChain_of_directory hlinks hp _ hfile
    rw [List.eq_nil_of_length_eq_zero (Nat.le_zero.mp hn)]
    rfl
  | succ n ih =>
    rw [Path.chain.go]
    by_cases hparent : t.entry? p.location.tail = some .directory
    . exact exists_makeChain_of_directory hlinks hp hparent hfile _
    . have hne : p.location ≠ [] := by
        intro hne
        rw [hne] at hparent
        exact hparent rfl
      have habove : t.FileFree p.location.tail := hfree.mono (List.tail_suffix _)
      have hmissing : t.makeDirectory p = .error .notFound := by
        rcases walk_cases_of_noLinks hlinks hp hne (fun _ => false) with
          ⟨hdirectory, -⟩ | ⟨hfile, -⟩ | ⟨-, hwalk⟩
        . contradiction
        . contradiction
        . rw [makeDirectory, hwalk]
          rfl
      rcases Path.parent?_cases hp.plain.descends with ⟨htarget, -⟩ | ⟨q, hq, -, htarget⟩
      . rw [hp.plain.target_eq] at htarget
        contradiction
      . have husable := hp.parent hq
        rw [hp.plain.target_eq, husable.plain.target_eq] at htarget
        rw [← htarget] at habove
        have hlength : q.location.length ≤ n := by
          rw [htarget, List.length_tail]
          omega
        obtain ⟨v, hmade⟩ := ih husable hlength habove
          fun content => habove q.location content List.suffix_rfl
        obtain ⟨rest, hgo, hascent⟩ := Path.ascent_chain_go n husable.plain.descends
        have hfree' : t.LinkFree q.target := fun m target _ => hlinks m target
        rw [hgo] at hmade
        have hdirectory := directory_of_makeChain hascent hfree' hmade
        have hmakes := makesDirectories_of_makeChain hascent hfree'
        rw [hmade, husable.plain.target_eq, htarget] at hmakes
        rw [husable.plain.target_eq, htarget] at hdirectory
        have hsame := hmakes.entry?_eq (List.suffix_rfl (l := p.location))
        rw [hq, Option.map_some, Option.getD_some, hgo, makeChain]
        split
        . exact ⟨t, rfl⟩
        . next hempty =>
          rw [hmissing, hmade]
          apply exists_makeDirectoryIfMissing (hlinks.of_linksFrom hmakes.linksFrom) hp hempty
            hdirectory
          rw [hsame]
          exact hfile

theorem exists_makeDirectories (hfree : t.FileFree p.location)
    : ∃ u, t.makeDirectories p = (.ok (), u) := by
  apply exists_makeChain hlinks hp _ hfree
  rw [Path.location, List.length_reverse]
  exact List.length_filter_le _ _

/-! ### Writing a file -/

theorem exists_write (hslash : p.endsInSlash = false) (hne : p.location ≠ [])
    (hparent : t.entry? p.location.tail = some .directory)
    (hdirectory : t.entry? p.location ≠ some .directory) (content : ByteArray)
    : ∃ u, t.write p content = .ok u := by
  rcases walk_cases_of_noLinks hlinks hp hne (!·) with
    ⟨-, hwalk⟩ | ⟨hfile, -⟩ | ⟨⟨name, parent, hsuffix, hnone, -⟩, -⟩
  . rw [write, hwalk]
    dsimp only [bind, Except.bind]
    rw [look_eq hp hne, hslash]
    simp only [Bool.false_eq_true, if_false]
    split
    . next hfound => exact absurd hfound hdirectory
    . exact ⟨_, rfl⟩
    . next htop _ => exact absurd htop hne
  . exact absurd (fileFree_of_directory hparent) hfile
  . rw [entry?_eq_none_of_suffix hnone hsuffix] at hparent
    contradiction

/-! ### Removing a tree -/

theorem exists_removeTree_iff (hne : p.location ≠ [])
    : (∃ u, t.removeTree p = (.ok (), u)) ↔ t.FileFree p.location := by
  rcases walk_cases_of_noLinks hlinks hp hne id with
    ⟨hparent, hwalk⟩ | ⟨hfile, hwalk⟩ | ⟨⟨name, parent, hsuffix, hnone, hparent⟩, hwalk⟩
  . have hfind : t.find p =
        .ok (⟨p.location, .name, p.endsInSlash⟩, t.entry? p.location) := by
      rw [find, hwalk]
      dsimp only [bind, Except.bind]
      rw [look_eq hp hne]
      rfl
    cases hentry : t.entry? p.location with
    | none =>
      obtain ⟨name, parent, hlocation⟩ := List.exists_cons_of_ne_nil hne
      rw [hentry, find] at hfind
      rw [removeTree, hfind]
      rw [hlocation] at hparent hentry ⊢
      exact iff_of_true ⟨_, rfl⟩ (fileFree_of_missing List.suffix_rfl hentry hparent)
    | some e =>
      cases e with
      | file content =>
        rw [hentry, find] at hfind
        rw [removeTree, hfind]
        apply iff_of_false
        . rintro ⟨u, hu⟩
          injection hu
          contradiction
        . exact fun hfree => hfree _ content List.suffix_rfl hentry
      | link target => exact absurd hentry (hlinks _ target)
      | directory =>
        rw [hentry] at hfind
        obtain ⟨u, hu⟩ := exists_removeDirectory_removeBelow hp.plain hne
          (fun m target _ => hlinks m target) (fun target h => absurd h (hlinks _ target)) hfind
        rw [find] at hfind
        rw [removeTree, hfind]
        dsimp only
        rw [hu]
        exact iff_of_true ⟨u, rfl⟩ (fileFree_of_directory hentry)
  . apply iff_of_false
    . rintro ⟨u, hu⟩
      rw [removeTree, hwalk] at hu
      injection hu
      contradiction
    . exact fun hfree => hfile (hfree.mono (List.tail_suffix _))
  . rw [removeTree, hwalk]
    exact iff_of_true ⟨t, rfl⟩
      (fileFree_of_missing (hsuffix.trans (List.tail_suffix _)) hnone hparent)

end

end FileTree
end RegistrySync
