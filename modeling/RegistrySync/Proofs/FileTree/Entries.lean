import Mathlib.Data.List.Infix
import RegistrySync.FileTree.Operations

/-!
What stands where in a file tree after an entry was put or removed. A location is at or inside
another one if it ends with it.
-/

namespace RegistrySync

namespace Location

theorem isBelow_iff {top l : Location} : top.isBelow l = true ↔ top <:+ l ∧ l ≠ top := by
  induction l with
  | nil => simp [isBelow, eq_comm]
  | cons name parent ih =>
    rw [isBelow, Bool.or_eq_true, decide_eq_true_eq, ih, List.suffix_cons_iff]
    constructor
    . intro h
      have hsuffix : top <:+ parent := by
        rcases h with rfl | h
        . exact List.suffix_rfl
        . exact h.1
      refine ⟨.inr hsuffix, ?_⟩
      rintro rfl
      exact absurd hsuffix.length_le (Nat.not_succ_le_self _)
    . rintro ⟨rfl | hsuffix, hne⟩
      . contradiction
      . by_cases heq : parent = top
        . exact .inl heq
        . exact .inr ⟨hsuffix, heq⟩

theorem suffix_tail {l m : Location} (hsuffix : l <:+ m) (hne : l ≠ m) : l <:+ m.tail := by
  cases m with
  | nil => exact hsuffix
  | cons name parent => exact (List.suffix_cons_iff.mp hsuffix).resolve_left hne

/-- Only the top is at or inside a location and above it too. -/
theorem eq_nil_of_suffix_tail {l m : Location} (hinside : l <:+ m) (habove : m <:+ l.tail)
    : m = [] := by
  cases l with
  | nil => exact List.suffix_nil.mp habove
  | cons name parent =>
    exact absurd (hinside.trans habove).length_le (Nat.not_succ_le_self _)

end Location

namespace FileTree

variable {t : FileTree} {l m : Location}

theorem entry?_empty (h : l ≠ []) : empty.entry? l = none := by
  cases l with
  | nil => contradiction
  | cons name parent => rfl

/-! ### Directories above -/

theorem directory_of_isSome (hsuffix : l <:+ m) (hne : l ≠ m) (hm : (t.entry? m).isSome)
    : t.entry? l = some .directory := by
  induction m with
  | nil => exact absurd (List.suffix_nil.mp hsuffix) hne
  | cons name parent ih =>
    have hparent : t.entry? parent = some .directory := t.closed name parent hm
    rcases List.suffix_cons_iff.mp hsuffix with heq | hsuffix
    . contradiction
    . by_cases heq : l = parent
      . rw [heq, hparent]
      . apply ih hsuffix heq
        rw [hparent]
        rfl

theorem directory_of_directory (hsuffix : l <:+ m) (hm : t.entry? m = some .directory)
    : t.entry? l = some .directory := by
  by_cases heq : l = m
  . rw [heq, hm]
  . apply directory_of_isSome hsuffix heq
    rw [hm]
    rfl

theorem entry?_eq_none_of_suffix (hl : t.entry? l = none) (hsuffix : l <:+ m)
    : t.entry? m = none := by
  by_cases heq : l = m
  . rw [← heq, hl]
  . apply Option.not_isSome_iff_eq_none.mp
    intro hm
    rw [directory_of_isSome hsuffix heq hm] at hl
    contradiction

/-! ### Entries after a change -/

theorem entry?_put {name : String} {parent : Location} (e : Entry)
    (hparent : t.entry? parent = some .directory)
    (hname : t.entry? (name :: parent) ≠ some .directory)
    : entry? (t.put name parent e) l = if l = name :: parent then some e else t.entry? l := by
  unfold put
  rw [dif_pos ⟨hparent, hname⟩]
  apply Entries.at?_insert

theorem entry?_restrict {keep : Location → Bool}
    {upward : ∀ name parent, keep (name :: parent) → keep parent} (hne : l ≠ [])
    : entry? (t.restrict keep upward) l = if keep l then t.entry? l else none := by
  cases l with
  | nil => contradiction
  | cons name parent => apply Entries.at?_filter

theorem entry?_removeBelow (t : FileTree) (top l : Location)
    : entry? (t.removeBelow top) l = if top <:+ l ∧ l ≠ top then none else t.entry? l := by
  by_cases hne : l = []
  . subst hne
    rw [if_neg]
    . rfl
    . rintro ⟨hsuffix, hne⟩
      exact hne (List.suffix_nil.mp hsuffix).symm
  . rw [removeBelow, entry?_restrict hne]
    by_cases hbelow : top.isBelow l
    . rw [if_pos (Location.isBelow_iff.mp hbelow), hbelow]
      rfl
    . rw [if_neg (hbelow ∘ Location.isBelow_iff.mpr), if_pos]
      simpa using hbelow

theorem entry?_remove {top : Location} (htop : top ≠ []) (l : Location)
    : entry? (t.remove top) l = if top <:+ l then none else t.entry? l := by
  by_cases hne : l = []
  . subst hne
    rw [if_neg]
    . rfl
    . exact htop ∘ List.suffix_nil.mp
  . rw [remove, entry?_restrict hne]
    by_cases hsuffix : top <:+ l
    . rw [if_pos hsuffix, if_neg]
      intro hkeep
      have hne : l ≠ top ∧ top.isBelow l = false := by simpa using hkeep
      have hbelow := Location.isBelow_iff.mpr ⟨hsuffix, hne.1⟩
      rw [hne.2] at hbelow
      contradiction
    . rw [if_neg hsuffix, if_pos]
      have hbelow : top.isBelow l = false := by
        rw [← Bool.not_eq_true]
        exact fun hbelow => hsuffix (Location.isBelow_iff.mp hbelow).1
      have hne : l ≠ top := by
        rintro rfl
        exact hsuffix List.suffix_rfl
      simp [hbelow, hne]

/-! ### What is left -/

/-- Each entry of a second tree stands in the first one too. -/
def Leaves (t u : FileTree) : Prop :=
  ∀ l e, u.entry? l = some e → t.entry? l = some e

theorem leaves_restrict {keep : Location → Bool}
    {upward : ∀ name parent, keep (name :: parent) → keep parent}
    : t.Leaves (t.restrict keep upward) := by
  intro l e he
  by_cases hl : l = []
  . rw [hl] at he ⊢
    exact he
  . rw [entry?_restrict hl] at he
    split at he
    . exact he
    . contradiction

def Entry.isFile : Entry → Bool
  | file _ => true
  | _ => false

/-! ### Links -/

/-- Each link of a second tree stands in the first one too. -/
def LinksFrom (t u : FileTree) : Prop :=
  ∀ l target, u.entry? l = some (.link target) → t.entry? l = some (.link target)

theorem LinksFrom.trans {t u v : FileTree} (h : LinksFrom t u) (h' : LinksFrom u v)
    : LinksFrom t v :=
  fun l target hlink => h l target (h' l target hlink)

theorem LinksFrom.of_eq_or_ne {t u : FileTree}
    (h : ∀ l, u.entry? l = t.entry? l ∨ ∀ target, u.entry? l ≠ some (.link target))
    : LinksFrom t u := by
  intro l target hlink
  rcases h l with heq | hne
  . rw [← heq]
    exact hlink
  . exact absurd hlink (hne target)

theorem linksFrom_removeBelow (t : FileTree) (top : Location)
    : LinksFrom t (t.removeBelow top) := by
  apply LinksFrom.of_eq_or_ne
  intro l
  rw [entry?_removeBelow]
  split
  . exact .inr nofun
  . exact .inl rfl

/-- Neither at a location nor above it is there a link. -/
def LinkFree (t : FileTree) (l : Location) : Prop :=
  ∀ m target, m <:+ l → t.entry? m ≠ some (.link target)

def Entry.isLink : Entry → Bool
  | link _ => true
  | _ => false

theorem linkFree_iff (t : FileTree) (l : Location)
    : (∀ m ∈ l.tails, (t.entry? m).any Entry.isLink = false) ↔ t.LinkFree l := by
  have hlink : ∀ e : Option Entry,
      e.any Entry.isLink = false ↔ ∀ target, e ≠ some (.link target) := by
    rintro (_ | _ | _ | _) <;> simp [Entry.isLink]
  simp only [hlink, List.mem_tails]
  exact ⟨fun h m target hm => h m hm target, fun h m hm target => h m target hm⟩

instance (t : FileTree) (l : Location) : Decidable (t.LinkFree l) :=
  decidable_of_iff _ (linkFree_iff t l)

theorem LinkFree.mono (h : t.LinkFree m) (hsuffix : l <:+ m) : t.LinkFree l :=
  fun k target hk => h k target (hk.trans hsuffix)

theorem LinkFree.of_linksFrom {u : FileTree} (h : t.LinkFree l) (hlinks : LinksFrom t u)
    : u.LinkFree l :=
  fun k target hk hlink => h k target hk (hlinks k target hlink)

theorem LinkFree.of_inside (habove : t.LinkFree l.tail)
    (hinside : ∀ rel target, t.entry? (rel ++ l) ≠ some (.link target)) (rel : Location)
    : t.LinkFree (rel ++ l) := by
  intro k target hk hlink
  rcases List.suffix_or_suffix_of_suffix (List.suffix_append rel l) hk with ⟨rel, rfl⟩ | hsuffix
  . exact hinside rel target hlink
  . by_cases heq : k = l
    . exact hinside [] target (heq ▸ hlink)
    . exact habove k target (Location.suffix_tail hsuffix heq) hlink

end FileTree
end RegistrySync
