import Mathlib.Logic.Relation
import RegistrySync.Document.Integer
import RegistrySync.Proofs.Document.Record

/-!
The shape of a value: which members of its records are declared, and what its lists hold. An edit
leaves alone what the shape declares, and a spoiled value has something else in its place. The
declared members of a record are what they were after an edit, or edited themselves.
-/

namespace RegistrySync

inductive Shape where
  /-- A value of which nothing is declared, which may count as a whole. -/
  | whole
  | text
  | list (items : Shape)
  /-- A declared member may have a default, which is what it stands for where it is left out. -/
  | record (declared : List (String × Option Value × Shape))

namespace Shape

abbrev Members := List (String × Option Value × Shape)

def member : Shape → String → Shape
  | record declared, name => ((declared.lookup name).map Prod.snd).getD whole
  | _, _ => whole

def item : Shape → Nat → Shape
  | list items, _ => items
  | record declared, i => (declared[i]?.map fun field => field.2.2).getD whole
  | _, _ => whole

/-- Edits of JSON values that are to make no difference. Members that are not declared are added,
and a default is filled in for a member that is left out. The members of any object change places;
only where a name is repeated, its values stay in order, since the last of them may count. -/
inductive Edit : Shape → Value → Value → Prop where
  | add {declared : Members} (before after : List (String × Value)) {name : String} {v : Value}
      (h : name ∉ declared.map Prod.fst)
      : Edit (record declared) (.object (before ++ after)) (.object (before ++ (name, v) :: after))
  | fill {declared : Members} (before after : List (String × Value)) {name : String} {s : Shape}
      {default : Value} (h : (name, some default, s) ∈ declared)
      (habsent : name ∉ (before ++ after).map Prod.fst)
      : Edit (record declared) (.object (before ++ after))
          (.object (before ++ (name, default) :: after))
  | reorder {s : Shape} {ms ns : List (String × Value)}
      (h : ∀ name, Value.given name ms = Value.given name ns) : Edit s (.object ms) (.object ns)
  | member {s : Shape} (before after : List (String × Value)) {name : String} {v w : Value}
      (h : Edit (s.member name) v w)
      : Edit s (.object (before ++ (name, v) :: after)) (.object (before ++ (name, w) :: after))
  | item {s : Shape} (before after : List Value) {v w : Value} (h : Edit (s.item before.length) v w)
      : Edit s (.array (before ++ v :: after)) (.array (before ++ w :: after))

/-- Values that have a null in the place of a list or a record, or anything but a text in the place
of a text. -/
inductive Spoiled : Shape → Value → Prop where
  | text {v : Value} (h : v.text? = none) : Spoiled text v
  | list {items : Shape} : Spoiled (list items) .null
  | record {declared : Members} : Spoiled (record declared) .null
  | member {declared : Members} {v x : Value} {name : String}
      (h : v.Gives (declared.map Prod.fst) name x)
      (hspoiled : Spoiled ((Shape.record declared).member name) x) : Spoiled (record declared) v
  | item {s : Shape} {items : List Value} {v : Value} (h : v ∈ items) (hspoiled : Spoiled s v)
      : Spoiled (Shape.list s) (.array items)

/-- A record of which no more is declared than the names of its members. -/
def named (names : List String) : Shape :=
  record (names.map fun name => (name, none, whole))

/-! ### Edits -/

namespace Edit

variable {s : Shape} {v w : Value} (h : s.Edit v w)

include h

theorem object_or_array
    : (∃ ms ns, v = .object ms ∧ w = .object ns) ∨
        ∃ before after x y, v = .array (before ++ x :: after) ∧ w = .array (before ++ y :: after) ∧
          (s.item before.length).Edit x y := by
  cases h with
  | item before after h => exact .inr ⟨before, after, _, _, rfl, rfl, h⟩
  | _ => exact .inl ⟨_, _, rfl, rfl⟩

theorem text?_eq : v.text? = w.text? := by
  cases h <;> rfl

theorem integer?_eq : v.integer? = w.integer? := by
  cases h <;> rfl

theorem bool?_eq : v.bool? = w.bool? := by
  cases h <;> rfl

theorem isPresent?_eq : v.isPresent? = w.isPresent? := by
  cases h <;> rfl

theorem optional?_eq {α : Type} {read : Value → Option α} (hread : read v = read w)
    : v.optional? read = w.optional? read := by
  simp only [Value.optional?, h.isPresent?_eq, hread]

end Edit

/-! ### Records of names -/

theorem member_named (names : List String) (name : String) : (named names).member name = whole := by
  induction names with
  | nil => rfl
  | cons n names ih =>
    simp only [named, member, List.map_cons, List.lookup_cons] at ih ⊢
    split
    . rfl
    . exact ih

theorem item_named (names : List String) (i : Nat) : (named names).item i = whole := by
  simp only [named, item, List.getElem?_map]
  cases names[i]? <;> rfl

/-- An edit of the whole changes no more than the places of members. -/
theorem Edit.to_named {v w : Value} (h : whole.Edit v w) (names : List String)
    : (named names).Edit v w := by
  cases h with
  | reorder h => exact .reorder h
  | member before after h =>
    apply Edit.member before after
    rw [member_named]
    exact h
  | item before after h =>
    apply Edit.item before after
    rw [item_named]
    exact h

/-! ### Declared members -/

variable {declared : Members}

theorem member_record (hnames : (declared.map Prod.fst).Nodup) {name : String}
    {default : Option Value} {s : Shape} (h : (name, default, s) ∈ declared)
    : (record declared).member name = s := by
  simp only [member, Value.lookup_eq_some_of_mem hnames h, Option.map_some, Option.getD_some]

theorem exists_mem_of_spoiled_member {name : String} {v : Value}
    (h : ((record declared).member name).Spoiled v)
    : ∃ default s, (name, default, s) ∈ declared ∧ s.Spoiled v := by
  cases hlookup : declared.lookup name with
  | none =>
    simp only [member, hlookup, Option.map_none, Option.getD_none] at h
    nomatch h
  | some field =>
    simp only [member, hlookup, Option.map_some, Option.getD_some] at h
    obtain ⟨before, after, rfl, -⟩ := List.lookup_eq_some_iff.mp hlookup
    exact ⟨field.1, field.2, by simp, h⟩

/-- The values of a declared member before and after an edit. -/
def ValuesAlike (s : Shape) (default : Option Value) (vs ws : List Value) : Prop :=
  List.Forall₂ (Relation.ReflGen s.Edit) vs ws ∨ vs = [] ∧ ∃ v, default = some v ∧ ws = [v]

/-- The value that counts of a declared member, before and after an edit. -/
inductive Alike (s : Shape) (default : Option Value) : Option Value → Option Value → Prop where
  | same (v : Option Value) : Alike s default v v
  | edited {v w : Value} (h : s.Edit v w) : Alike s default (some v) (some w)
  | filled {v : Value} (h : default = some v) : Alike s default none (some v)

def MembersAlike (declared : Members) (m m' : String → Option Value) : Prop :=
  ∀ name default s, (name, default, s) ∈ declared → Alike s default (m name) (m' name)

namespace ValuesAlike

variable {s : Shape} {default : Option Value} {vs ws : List Value}

theorem refl (s : Shape) (default : Option Value) (vs : List Value)
    : ValuesAlike s default vs vs :=
  .inl (List.forall₂_refl vs)

theorem length_le_one_iff (h : ValuesAlike s default vs ws) : vs.length ≤ 1 ↔ ws.length ≤ 1 := by
  rcases h with h | ⟨rfl, v, -, rfl⟩
  . rw [h.length_eq]
  . simp

theorem head? (h : ValuesAlike s default vs ws) : Alike s default vs.head? ws.head? := by
  rcases h with h | ⟨rfl, v, hv, rfl⟩
  . cases h with
    | nil => exact .same none
    | cons h _ =>
      cases h with
      | refl => exact .same _
      | single h => exact .edited h
  . exact .filled hv

end ValuesAlike

theorem valuesAlike_given (hnames : (declared.map Prod.fst).Nodup)
    {ms ns : List (String × Value)} (h : (record declared).Edit (.object ms) (.object ns))
    {name : String} {default : Option Value} {s : Shape} (hmem : (name, default, s) ∈ declared)
    : ValuesAlike s default (Value.given name ms) (Value.given name ns) := by
  cases h with
  | @add _ before after n _ h =>
    have hn : n ≠ name := by
      rintro rfl
      exact h (List.mem_map.mpr ⟨_, hmem, rfl⟩)
    rw [Value.given_append, Value.given_append, Value.given_cons, if_neg hn]
    exact .refl s default _
  | @fill _ before after n t _ h habsent =>
    by_cases hn : n = name
    . subst hn
      cases List.inj_on_of_nodup_map hnames h hmem rfl
      have hgiven := Value.given_eq_nil habsent
      refine .inr ⟨hgiven, _, rfl, ?_⟩
      rw [Value.given_append, List.append_eq_nil_iff] at hgiven
      rw [Value.given_append, Value.given_cons, if_pos rfl, hgiven.1, hgiven.2, List.nil_append]
    . rw [Value.given_append, Value.given_append, Value.given_cons, if_neg hn]
      exact .refl s default _
  | reorder h =>
    rw [h name]
    exact .refl s default _
  | @member _ before after n v w h =>
    rw [Value.given_append, Value.given_append, Value.given_cons, Value.given_cons]
    by_cases hn : n = name
    . subst hn
      rw [member_record hnames hmem] at h
      rw [if_pos rfl, if_pos rfl]
      exact .inl (List.rel_append (List.forall₂_refl _) (.cons (.single h) (List.forall₂_refl _)))
    . rw [if_neg hn, if_neg hn]
      exact .refl s default _

/-- If an item is changed, at most the member that has its place is changed. -/
theorem lookup_zip_cases (names : List String) (before after : List Value) (v w : Value)
    (name : String)
    : (names.zip (before ++ v :: after)).lookup name =
          (names.zip (before ++ w :: after)).lookup name ∨
        names[before.length]? = some name ∧
          (names.zip (before ++ v :: after)).lookup name = some v ∧
          (names.zip (before ++ w :: after)).lookup name = some w := by
  induction before generalizing names with
  | nil =>
    cases names with
    | nil => exact .inl rfl
    | cons n names =>
      by_cases hn : name = n
      . subst hn
        exact .inr ⟨rfl, List.lookup_cons_self, List.lookup_cons_self⟩
      . simp [List.lookup_cons, beq_eq_false_iff_ne.mpr hn]
  | cons b before ih =>
    cases names with
    | nil => exact .inl rfl
    | cons n names =>
      by_cases hn : name = n
      . simp [hn]
      . simpa [List.lookup_cons, beq_eq_false_iff_ne.mpr hn] using ih names

theorem record?_edit_object (hnames : (declared.map Prod.fst).Nodup)
    {ms ns : List (String × Value)} (h : (record declared).Edit (.object ms) (.object ns))
    : Option.Rel (MembersAlike declared) ((Value.object ms).record? (declared.map Prod.fst))
        ((Value.object ns).record? (declared.map Prod.fst)) := by
  have honce : ((declared.map Prod.fst).all fun name => (Value.given name ms).length ≤ 1) =
      (declared.map Prod.fst).all fun name => (Value.given name ns).length ≤ 1 := by
    rw [Bool.eq_iff_iff, List.all_eq_true, List.all_eq_true]
    refine forall₂_congr fun name hname => ?_
    obtain ⟨field, hmem, rfl⟩ := List.mem_map.mp hname
    rw [decide_eq_true_iff, decide_eq_true_iff, (valuesAlike_given hnames h hmem).length_le_one_iff]
  -- Whether a declared name is repeated is the same before and after, so both are records or none.
  unfold Value.record?
  dsimp only
  rw [honce]
  split
  . exact .some fun _ _ _ hmem => (valuesAlike_given hnames h hmem).head?
  . exact .none

theorem record?_edit_array (hnames : (declared.map Prod.fst).Nodup) {before after : List Value}
    {v w : Value} (h : ((record declared).item before.length).Edit v w)
    : Option.Rel (MembersAlike declared)
        ((Value.array (before ++ v :: after)).record? (declared.map Prod.fst))
        ((Value.array (before ++ w :: after)).record? (declared.map Prod.fst)) := by
  simp only [Value.record?, List.length_append, List.length_cons]
  split
  . refine .some ?_
    intro name default s hmem
    dsimp only
    rcases lookup_zip_cases (declared.map Prod.fst) before after v w name with
      heq | ⟨hplace, hv, hw⟩
    . rw [heq]
      exact .same _
    . rw [List.getElem?_map, Option.map_eq_some_iff] at hplace
      obtain ⟨⟨n, d, t⟩, hfield, rfl⟩ := hplace
      cases List.inj_on_of_nodup_map hnames (List.mem_of_getElem? hfield) hmem rfl
      simp only [item, hfield, Option.map_some, Option.getD_some] at h
      rw [hv, hw]
      exact .edited h
  . exact .none

theorem record?_edit (hnames : (declared.map Prod.fst).Nodup) {v w : Value}
    (h : (record declared).Edit v w)
    : Option.Rel (MembersAlike declared) (v.record? (declared.map Prod.fst))
        (w.record? (declared.map Prod.fst)) := by
  rcases h.object_or_array with ⟨ms, ns, rfl, rfl⟩ | ⟨before, after, x, y, rfl, rfl, hitem⟩
  . exact record?_edit_object hnames h
  . exact record?_edit_array hnames hitem

end Shape
end RegistrySync
