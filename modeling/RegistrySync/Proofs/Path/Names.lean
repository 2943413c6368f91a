import RegistrySync.FileTree.Operations

/-!
Where paths lead when no link is on the way. A path that never goes up leads to its names; the path
of its parent leads to all of them but the last, and the chain of its parents up to the top.
-/

namespace RegistrySync.Path

def IsPlain (p : Path) : Prop :=
  ∀ s ∈ p.segments, s ≠ "." ∧ s ≠ ".."

instance (p : Path) : Decidable p.IsPlain :=
  inferInstanceAs (Decidable (∀ s ∈ p.segments, s ≠ "." ∧ s ≠ ".."))

/-- The names of the path, innermost first. -/
def location (p : Path) : Location :=
  p.steps.reverse

theorem IsPlain.of_mem_steps {p : Path} (hp : p.IsPlain) {name : String} (hname : name ∈ p.steps)
    : name ≠ "." ∧ name ≠ ".." :=
  hp name (List.mem_filter.mp hname).1

theorem IsPlain.last {p : Path} (hp : p.IsPlain) {names : List String} {name : String}
    (hsteps : p.steps = names ++ [name]) : name ≠ "." ∧ name ≠ ".." :=
  hp.of_mem_steps (hsteps ▸ List.mem_append_right names (List.mem_singleton_self name))

/-- The path never goes up, though it may stay where it is in between. -/
def Descends (p : Path) : Prop :=
  ".." ∉ p.segments

instance (p : Path) : Decidable p.Descends :=
  inferInstanceAs (Decidable (".." ∉ p.segments))

def isName (s : String) : Bool :=
  s ≠ "" && s ≠ "."

/-- Where a path leads that never goes up. -/
def target (p : Path) : Location :=
  p.segments.reverse.filter isName

theorem isName_eq_false_iff {s : String} : isName s = false ↔ s = "" ∨ s = "." := by
  simp [isName, Decidable.or_iff_not_imp_left]

theorem ne_empty_of_isName {s : String} (h : isName s = true) : s ≠ "" := by
  rintro rfl
  contradiction

theorem ne_dot_of_isName {s : String} (h : isName s = true) : s ≠ "." := by
  rintro rfl
  contradiction

theorem target_eq_filter_steps (p : Path) : p.target = (p.steps.filter (· ≠ ".")).reverse := by
  rw [target, List.filter_reverse, steps, List.filter_filter]
  congr 2
  funext s
  simp [isName, Bool.and_comm]

namespace IsPlain

variable {p : Path} (hp : p.IsPlain)
include hp

theorem descends : p.Descends :=
  fun hmem => (hp _ hmem).2 rfl

theorem target_eq : p.target = p.location := by
  rw [target_eq_filter_steps, location, List.filter_eq_self.mpr]
  intro name hname
  simpa using (hp.of_mem_steps hname).1

end IsPlain

/-- Where steps lead from a location; those that go up stay at the top once there. -/
def leads : Location → List String → Location
  | here, [] => here
  | here, name :: rest =>
    if name = "." then leads here rest
    else if name = ".." then leads here.tail rest
    else leads (name :: here) rest

/-- Where a path leads, whatever its steps are. -/
def goal (p : Path) : Location :=
  leads [] p.steps

theorem leads_of_not_mem {names : List String} (hup : ".." ∉ names) (here : Location)
    : leads here names = (names.filter (· ≠ ".")).reverse ++ here := by
  induction names generalizing here with
  | nil => rfl
  | cons name rest ih =>
    obtain ⟨hname, hup⟩ := not_or.mp (mt List.mem_cons.mpr hup)
    rw [leads]
    split
    . next hdot => rw [ih hup, List.filter_cons_of_neg (by simpa using hdot)]
    . next hdot =>
      rw [if_neg (Ne.symm hname), ih hup, List.filter_cons_of_pos (by simpa using hdot),
        List.reverse_cons, List.append_assoc, List.singleton_append]

theorem Descends.not_mem_steps {p : Path} (hp : p.Descends) : ".." ∉ p.steps :=
  fun hmem => hp (List.mem_filter.mp hmem).1

theorem Descends.goal_eq {p : Path} (hp : p.Descends) : p.goal = p.target := by
  rw [goal, leads_of_not_mem hp.not_mem_steps, target_eq_filter_steps, List.append_nil]

/-! ### Parents -/

theorem dropIdle_sublist (l : List String) : (dropIdle l).Sublist l := by
  fun_induction dropIdle l with
  | case1 s t rest _ ih => exact ih.cons s
  | case2 => exact List.Sublist.refl _
  | case3 => exact List.Sublist.refl _

theorem filter_dropIdle (l : List String) : (dropIdle l).filter isName = l.filter isName := by
  fun_induction dropIdle l with
  | case1 s t rest hidle ih =>
    have hs : ¬ isName s = true := by
      rw [isName_eq_false_iff.mpr hidle]
      exact Bool.false_ne_true
    rw [ih, List.filter_cons_of_neg hs]
  | case2 => rfl
  | case3 => rfl

theorem isName_of_dropIdle_eq {l rest : List String} {s t : String}
    (h : dropIdle l = s :: t :: rest) : isName s = true := by
  fun_induction dropIdle l with
  | case1 _ _ _ _ ih => exact ih h
  | case2 s' t' rest' hbusy =>
    injection h with h
    subst h
    rw [← Bool.not_eq_false, isName_eq_false_iff]
    exact hbusy
  | case3 rest' hrest =>
    exact absurd h (hrest s t rest)

theorem parent?_cases {p : Path} (hp : p.Descends)
    : (p.target = [] ∧ p.parent? = none) ∨
        ∃ q, p.parent? = some q ∧ q.Descends ∧ q.target = p.target.tail := by
  rw [target, ← filter_dropIdle]
  have hsub := dropIdle_sublist p.segments.reverse
  unfold parent?
  split
  . next h =>
    rw [h]
    exact .inl ⟨rfl, rfl⟩
  . next s h =>
    rw [h]
    by_cases hs : s = ""
    . rw [hs]
      exact .inl ⟨rfl, rfl⟩
    . rw [if_neg hs]
      refine .inr ⟨empty, rfl, by decide, ?_⟩
      cases hname : isName s with
      | true => rw [List.filter_cons_of_pos hname]; rfl
      | false => rw [List.filter_cons_of_neg (by simp [hname])]; rfl
  . next s rest hrest h =>
    rw [h] at hsub ⊢
    obtain ⟨t, rest, rfl⟩ := List.exists_cons_of_ne_nil hrest
    -- The first segment is the name; the parent keeps what is not idle of the others.
    have htail := (List.sublist_cons_self s (t :: rest)).trans hsub
    have hkept := (dropIdle_sublist (t :: rest)).trans htail
    refine .inr ⟨_, rfl, ?_⟩
    rw [List.filter_cons_of_pos (isName_of_dropIdle_eq h), List.tail_cons, ← filter_dropIdle]
    split
    . next hroot =>
      rw [hroot]
      exact ⟨by decide, rfl⟩
    . constructor
      . intro hmem
        exact hp (List.mem_reverse.mp (hkept.mem (List.mem_reverse.mp hmem)))
      . rw [target, List.reverse_reverse]

/-- Paths one after the other, of which each leads one name less deep than the one before. -/
inductive Ascent : List Path → Prop where
  | last {p : Path} (descends : p.Descends) : Ascent [p]
  | step {p q : Path} {rest : List Path} (descends : p.Descends)
      (target : q.target = p.target.tail) (ascent : Ascent (q :: rest)) : Ascent (p :: q :: rest)

theorem Ascent.descends {p : Path} {rest : List Path} (h : Ascent (p :: rest)) : p.Descends := by
  cases h with
  | last hp => exact hp
  | step hp _ _ => exact hp

theorem ascent_chain_go (n : Nat) {p : Path} (hp : p.Descends)
    : ∃ rest, chain.go n p = p :: rest ∧ Ascent (p :: rest) := by
  induction n generalizing p with
  | zero => exact ⟨[], rfl, .last hp⟩
  | succ n ih =>
    rw [chain.go]
    rcases parent?_cases hp with ⟨-, hparent⟩ | ⟨q, hparent, hq, htarget⟩
    . rw [hparent]
      exact ⟨[], rfl, .last hp⟩
    . obtain ⟨rest, hgo, hascent⟩ := ih hq
      rw [hparent, Option.map_some, Option.getD_some, hgo]
      exact ⟨q :: rest, rfl, .step hp htarget hascent⟩

theorem ascent_chain {p : Path} (hp : p.Descends)
    : ∃ rest, p.chain = p :: rest ∧ Ascent (p :: rest) :=
  ascent_chain_go p.segments.length hp

/-- A parent is made of segments of the path, but that it may be the top or nothing at all. -/
theorem segments_of_parent? {p q : Path} (h : p.parent? = some q) {s : String}
    (hs : s ∈ q.segments) : s = "" ∨ s ∈ p.segments := by
  unfold parent? at h
  split at h
  . contradiction
  . split at h
    . contradiction
    . injection h with h
      subst h
      exact .inl (List.mem_singleton.mp hs)
  . next first rest hrest hidle =>
    have hkept : (dropIdle rest).Sublist p.segments.reverse :=
      ((dropIdle_sublist rest).trans (List.sublist_cons_self first rest)).trans
        (hidle ▸ dropIdle_sublist p.segments.reverse)
    injection h with h
    subst h
    split at hs
    . rw [root] at hs
      exact .inl (by simpa using hs)
    . exact .inr (List.mem_reverse.mp (hkept.mem (List.mem_reverse.mp hs)))

theorem forall_mem_chain {P : String → Prop} (hempty : P "") {p : Path} (hp : ∀ s ∈ p.segments, P s)
    : ∀ q ∈ p.chain, ∀ s ∈ q.segments, P s := by
  suffices ∀ n (p : Path), (∀ s ∈ p.segments, P s) → ∀ q ∈ chain.go n p, ∀ s ∈ q.segments, P s from
    this p.segments.length p hp
  intro n
  induction n with
  | zero =>
    intro p hp q hq
    rw [List.mem_singleton.mp hq]
    exact hp
  | succ n ih =>
    intro p hp q hq
    rw [chain.go, List.mem_cons] at hq
    rcases hq with rfl | hq
    . exact hp
    . cases hparent : p.parent? with
      | none => simp [hparent] at hq
      | some parent =>
        rw [hparent] at hq
        refine ih parent ?_ q hq
        intro s hs
        rcases segments_of_parent? hparent hs with rfl | hs
        . exact hempty
        . exact hp s hs

/-! ### Joining a name -/

theorem split_eq_singleton {cs : List Char} (h : '/' ∉ cs) : split cs = [cs] := by
  induction cs with
  | nil => rfl
  | cons c cs ih =>
    rw [List.mem_cons, not_or] at h
    rw [split, if_neg (Ne.symm h.1), ih h.2]

theorem filter_openEnd (l : List String) : (openEnd l).filter isName = l.filter isName := by
  fun_induction openEnd l with
  | case1 => rfl
  | case2 => rfl
  | case3 => rfl
  | case4 s rest _ ih =>
    rw [List.filter_cons, List.filter_cons, ih]

theorem openEnd_sublist (l : List String) : (openEnd l).Sublist l := by
  fun_induction openEnd l with
  | case1 => exact List.Sublist.refl _
  | case2 => exact List.nil_sublist _
  | case3 => exact List.Sublist.refl _
  | case4 s rest _ ih => exact ih.cons_cons s

section

variable {p : Path} {name : String} (hname : '/' ∉ name.toList)
include hname

theorem join_ofText : p.join (ofText name) = ⟨openEnd p.segments ++ [name]⟩ := by
  have hsegments : ofText name = ⟨[name]⟩ := by
    rw [ofText, split_eq_singleton hname, List.map_singleton, String.ofList_toList]
  rw [hsegments, join, if_neg]
  simp [isAbsolute]

theorem target_join
    : (p.join (ofText name)).target = if isName name then name :: p.target else p.target := by
  rw [join_ofText hname, target, target, List.reverse_append, List.reverse_singleton,
    List.singleton_append, List.filter_cons, List.filter_reverse, List.filter_reverse,
    filter_openEnd]

theorem descends_join (hp : p.Descends) (hdots : name ≠ "..")
    : (p.join (ofText name)).Descends := by
  rw [join_ofText hname]
  intro hmem
  rcases List.mem_append.mp hmem with hmem | hmem
  . exact hp ((openEnd_sublist _).mem hmem)
  . exact hdots (List.mem_singleton.mp hmem).symm

theorem isPlain_join (hp : p.IsPlain) (hdots : name ≠ "." ∧ name ≠ "..")
    : (p.join (ofText name)).IsPlain := by
  rw [join_ofText hname]
  intro s hs
  rcases List.mem_append.mp hs with hs | hs
  . exact hp s ((openEnd_sublist _).mem hs)
  . rw [List.mem_singleton.mp hs]
    exact hdots

end

end RegistrySync.Path
