import RegistrySync.Proofs.Document.Steady

/-!
Readers that fit a shape: they do not notice an edit, and they refuse a value that is spoiled. A
reader of a list fits if the reader of its items does, and a reader of a record if it looks at each
declared member with a reader that fits.
-/

namespace RegistrySync.Shape

structure Fits {α : Type} (s : Shape) (read : Value → Option α) : Prop where
  edited {v w : Value} (h : s.Edit v w) : read v = read w
  spoiled {v : Value} (h : s.Spoiled v) : read v = none

variable {α β : Type} {s : Shape} {read : Value → Option α}

theorem Fits.eq_of_eqvGen (h : s.Fits read) {v w : Value} (hedits : Relation.EqvGen s.Edit v w)
    : read v = read w := by
  induction hedits with
  | rel _ _ hedit => exact h.edited hedit
  | refl => rfl
  | symm _ _ _ ih => exact ih.symm
  | trans _ _ _ _ _ ih ih' => exact ih.trans ih'

theorem fits_text : text.Fits Value.text? where
  edited h := h.text?_eq
  spoiled h := by
    cases h with
    | text h => exact h

theorem Fits.list (h : s.Fits read) : (list s).Fits (Value.listOf? read) where
  edited := listOf?_edit (s := .list s) fun _ _ _ => h.edited
  spoiled hspoiled := by
    cases hspoiled with
    | list => rfl
    | item hmem hspoiled =>
      obtain ⟨before, after, rfl⟩ := List.append_of_mem hmem
      simp [Value.listOf?, Value.elements?, List.mapM_append, List.mapM_cons, h.spoiled hspoiled]

theorem fits_texts : (list text).Fits Value.texts? := fits_text.list

/-! ### Members -/

/-- What is made of a member, which may be left out. -/
structure FitsMember (s : Shape) (default : Option Value) (make : Option Value → Option α) : Prop
    where
  edited {v w : Option Value} (h : Alike s default v w) : make v = make w
  spoiled {v : Value} (h : s.Spoiled v) : make (some v) = none

theorem Fits.required (h : s.Fits read) : FitsMember s none (·.bind read) where
  edited halike := by
    cases halike with
    | same => rfl
    | edited hedit => exact h.edited hedit
    | filled hnone => contradiction
  spoiled hspoiled := h.spoiled hspoiled

theorem Fits.readOr (h : s.Fits read) {default : Value} {a : α} (hdefault : read default = some a)
    : FitsMember s (some default) (RegistrySync.readOr a read) where
  edited halike := by
    cases halike with
    | same => rfl
    | edited hedit => exact h.edited hedit
    | filled heq =>
      obtain rfl := Option.some.inj heq
      exact hdefault.symm
  spoiled hspoiled := h.spoiled hspoiled

/-! ### Records -/

/-- What is made of the members of a record, which looks at each of the declared ones. -/
structure Covers (declared : Members) (make : (String → Option Value) → Option β) : Prop where
  edited {m m' : String → Option Value} (h : MembersAlike declared m m') : make m = make m'
  spoiled {m : String → Option Value} {name : String} {default : Option Value} {s : Shape}
    {v : Value} (hmem : (name, default, s) ∈ declared) (hv : m name = some v) (h : s.Spoiled v)
    : make m = none

variable {declared : Members} {name : String}

theorem covers_nil (b : β) : Covers [] fun _ => some b where
  edited _ := rfl
  spoiled hmem := nomatch hmem

theorem Covers.cons {default : Option Value} {first : Option Value → Option α}
    {rest : α → (String → Option Value) → Option β} (h : FitsMember s default first)
    (hrest : ∀ a, Covers declared (rest a))
    : Covers ((name, default, s) :: declared) fun m => (first (m name)).bind fun a => rest a m where
  edited {m m'} halike := by
    have hdeclared : MembersAlike declared m m' := fun n d t hmem =>
      halike n d t (List.mem_cons_of_mem _ hmem)
    simp only [h.edited (halike name default s List.mem_cons_self),
      fun a => (hrest a).edited hdeclared]
  spoiled {m n d t v} hmem hv hspoiled := by
    rcases List.mem_cons.mp hmem with heq | hmem
    . obtain ⟨rfl, rfl, rfl⟩ : n = name ∧ d = default ∧ t = s := by simpa using heq
      rw [hv, h.spoiled hspoiled, Option.bind_none]
    . simp only [fun a => (hrest a).spoiled hmem hv hspoiled, Option.bind_fun_none]

variable {rest : α → (String → Option Value) → Option β}

theorem Covers.required (h : s.Fits read) (hrest : ∀ a, Covers declared (rest a))
    : Covers ((name, none, s) :: declared) fun m =>
        (m name).bind fun v => (read v).bind fun a => rest a m := by
  simpa only [Option.bind_assoc] using Covers.cons h.required hrest

theorem Covers.readOr (h : s.Fits read) {default : Value} {a : α} (hdefault : read default = some a)
    (hrest : ∀ a, Covers declared (rest a))
    : Covers ((name, some default, s) :: declared) fun m =>
        (RegistrySync.readOr a read (m name)).bind fun a => rest a m :=
  .cons (h.readOr hdefault) hrest

theorem Covers.only_readOr (h : s.Fits read) {default : Value} {a : α}
    (hdefault : read default = some a)
    : Covers [(name, some default, s)] fun m => RegistrySync.readOr a read (m name) := by
  simpa only [Option.bind_fun_some] using Covers.cons (h.readOr hdefault) covers_nil

theorem fits_record {make : (String → Option Value) → Option β}
    (hnames : (declared.map Prod.fst).Nodup) (h : Covers declared make)
    : (record declared).Fits fun v => (v.record? (declared.map Prod.fst)).bind make where
  edited {v w} hedit := by
    have hmembers := record?_edit hnames hedit
    generalize v.record? _ = m, w.record? _ = m' at hmembers
    cases hmembers with
    | some hmembers => exact h.edited hmembers
    | none => rfl
  spoiled {v} hspoiled := by
    cases hspoiled with
    | record => rfl
    | @member _ _ x name hgives hspoiled =>
      obtain ⟨default, s, hmem, hspoiled⟩ := exists_mem_of_spoiled_member hspoiled
      cases hrecord : v.record? (declared.map Prod.fst) with
      | none => rfl
      | some m =>
        have hname : name ∈ declared.map Prod.fst := List.mem_map.mpr ⟨_, hmem, rfl⟩
        exact h.spoiled hmem (hgives.eq_some hnames hname hrecord) hspoiled

end RegistrySync.Shape
