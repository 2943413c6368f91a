import Mathlib.Data.List.Forall2
import Mathlib.Data.List.Nodup
import RegistrySync.Document.Record
import RegistrySync.Proofs.Sequence

/-!
What an object holds under a name, what a record has for its declared members, by name in an object
and by place in an array, and what a map is read from.
-/

namespace RegistrySync.Value

/-! ### Members of one name -/

theorem given_append (name : String) (ms ns : List (String × Value))
    : given name (ms ++ ns) = given name ms ++ given name ns :=
  List.filterMap_append

theorem given_cons (name n : String) (v : Value) (ms : List (String × Value))
    : given name ((n, v) :: ms) = if n = name then v :: given name ms else given name ms := by
  unfold given
  rw [List.filterMap_cons]
  split <;> split <;> simp_all

theorem mem_given_iff {name : String} {v : Value} {ms : List (String × Value)}
    : v ∈ given name ms ↔ (name, v) ∈ ms := by
  simp [given, List.mem_filterMap]

theorem given_eq_nil {name : String} {ms : List (String × Value)} (h : name ∉ ms.map Prod.fst)
    : given name ms = [] := by
  rw [List.eq_nil_iff_forall_not_mem]
  intro v hv
  exact h (List.mem_map_of_mem (mem_given_iff.mp hv))

theorem length_given_le_one {ms : List (String × Value)} (h : (ms.map Prod.fst).Nodup)
    (name : String) : (given name ms).length ≤ 1 := by
  induction ms with
  | nil => exact Nat.zero_le 1
  | cons m ms ih =>
    rw [List.map_cons, List.nodup_cons] at h
    rw [given_cons]
    split
    next hname =>
      subst hname
      rw [given_eq_nil h.1]
      exact Nat.le_refl 1
    next => exact ih h.2

/-- Where no name is repeated, all orders of the members are alike. -/
theorem given_eq_of_perm {ms ns : List (String × Value)} (h : ms.Perm ns)
    (hdistinct : (ms.map Prod.fst).Nodup) (name : String) : given name ms = given name ns := by
  have hperm : (given name ms).Perm (given name ns) := h.filterMap _
  match hgiven : given name ms, length_given_le_one hdistinct name with
  | [], _ =>
    rw [hgiven, List.nil_perm] at hperm
    exact hperm.symm
  | [v], _ =>
    rw [hgiven, List.singleton_perm] at hperm
    exact hperm

/-- What is said of all members does not depend on the order of those with different names. -/
theorem all_eq_of_given_eq {ms ns : List (String × Value)}
    (h : ∀ name, given name ms = given name ns) (p : Value → Bool)
    : (ms.all fun m => p m.2) = ns.all fun m => p m.2 := by
  rw [Bool.eq_iff_iff, List.all_eq_true, List.all_eq_true]
  apply forall_congr'
  rintro ⟨name, v⟩
  rw [← mem_given_iff, ← mem_given_iff, h name]

/-! ### Declared members -/

theorem lookup_eq_some_of_mem {α : Type} {l : List (String × α)} (h : (l.map Prod.fst).Nodup)
    {name : String} {a : α} (hmem : (name, a) ∈ l) : l.lookup name = some a := by
  obtain ⟨before, after, rfl⟩ := List.append_of_mem hmem
  rw [List.lookup_eq_some_iff]
  refine ⟨before, after, rfl, ?_⟩
  intro p hp
  rw [bne_iff_ne]
  rintro rfl
  rw [List.map_append, List.map_cons, List.nodup_middle, List.nodup_cons] at h
  exact h.1 (List.mem_append_left _ (List.mem_map.mpr ⟨p, hp, rfl⟩))

theorem nodup_map_fst_zip {names : List String} (h : names.Nodup) (items : List Value)
    : ((names.zip items).map Prod.fst).Nodup := by
  rw [List.zip_eq_zip_take_min, List.map_fst_zip]
  . exact h.sublist (List.take_sublist _ _)
  . simp

/-- A record has a value for a declared member, whether or not the record is well formed. -/
inductive Gives (names : List String) : Value → String → Value → Prop where
  | byName {members : List (String × Value)} {name : String} {v : Value}
      (h : (name, v) ∈ members) : Gives names (object members) name v
  | byPlace {items : List Value} {name : String} {v : Value}
      (h : (name, v) ∈ names.zip items) : Gives names (array items) name v

theorem Gives.eq_some {names : List String} {v x : Value} {name : String}
    {member : String → Option Value} (h : v.Gives names name x) (hnames : names.Nodup)
    (hname : name ∈ names) (hrecord : v.record? names = some member)
    : member name = some x := by
  unfold record? at hrecord
  cases h with
  | @byName members _ _ h =>
    dsimp only at hrecord
    split at hrecord
    next honce =>
      obtain rfl := Option.some.inj hrecord
      have hlength := of_decide_eq_true (List.all_eq_true.mp honce name hname)
      have hmem := mem_given_iff.mpr h
      match hgiven : given name members, hlength with
      | [], _ =>
        rw [hgiven] at hmem
        contradiction
      | [y], _ =>
        rw [hgiven, List.mem_singleton] at hmem
        rw [hmem]
        exact congrArg List.head? hgiven
    next => contradiction
  | @byPlace items _ _ h =>
    dsimp only at hrecord
    split at hrecord
    next =>
      obtain rfl := Option.some.inj hrecord
      exact lookup_eq_some_of_mem (nodup_map_fst_zip hnames items) h
    next => contradiction

variable {α : Type} {read : Value → Option α}

theorem isSome_optional? (v : Value) : (v.optional? read).isSome = v.isNullOr (takenBy read) := by
  unfold optional? isNullOr takenBy
  cases v.isPresent? with
  | none => rfl
  | some present => cases present <;> simp

theorem isSome_lastOptional? (name : String) (ms : List (String × Value))
    : (lastOptional? read name ms).isSome = (given name ms).all (isNullOr (takenBy read)) := by
  have hvalues := Sequence.isSome_mapM (optional? read) (given name ms)
  simpa [lastOptional?, Option.isSome_bind, Option.any_true, isSome_optional?] using hvalues

/-! ### Maps -/

theorem isSome_mapOf?_object (ms : List (String × Value))
    : ((object ms).mapOf? read).isSome = ms.all fun m => (read m.2).isSome := by
  have hpairs := Sequence.isSome_mapM (fun m : String × Value => do return (m.1, ← read m.2)) ms
  simpa [mapOf?, members?, Option.isSome_bind, Option.any_true] using hpairs

theorem getElem?_foldl_insert {ms : List (String × Value)} {pairs : List (String × α)}
    (h : List.Forall₂ (fun m p => m.1 = p.1 ∧ read m.2 = some p.2) ms pairs) (name : String)
    (t : Std.ExtTreeMap String α)
    : (pairs.foldl (fun t p => t.insert p.1 p.2) t)[name]? =
        ((given name ms).filterMap read).getLast?.or t[name]? := by
  -- Each insertion changes the map that the rest is folded into, so this is for any map.
  induction h generalizing t with
  | nil => rfl
  | @cons m p ms pairs h _ ih =>
    obtain ⟨n, v⟩ := m
    obtain ⟨n', a⟩ := p
    obtain ⟨rfl, hread⟩ := h
    rw [List.foldl_cons, ih, given_cons, Std.ExtTreeMap.getElem?_insert]
    by_cases hn : n = name
    . rw [if_pos hn, List.filterMap_cons_some hread, List.getLast?_cons]
      simp [hn]
    . rw [if_neg hn]
      simp [hn]

theorem getElem?_of_mapOf?_eq_some {ms : List (String × Value)} {t : Std.ExtTreeMap String α}
    (h : (object ms).mapOf? read = some t) (name : String)
    : t[name]? = ((given name ms).filterMap read).getLast? := by
  obtain ⟨pairs, hpairs, h⟩ := Option.bind_eq_some_iff.mp h
  obtain rfl := Option.some.inj h
  have hread : List.Forall₂ (fun m p => m.1 = p.1 ∧ read m.2 = some p.2) ms pairs := by
    apply (Sequence.forall₂_of_mapM_eq_some hpairs).imp
    intro m p hp
    obtain ⟨a, ha, hp⟩ := Option.bind_eq_some_iff.mp hp
    obtain rfl := Option.some.inj hp
    exact ⟨rfl, ha⟩
  refine (getElem?_foldl_insert hread name ∅).trans ?_
  rw [Std.ExtTreeMap.getElem?_empty, Option.or_none]

/-- The map of an object does not depend on the order of members with different names. -/
theorem mapOf?_congr {ms ns : List (String × Value)} (h : ∀ name, given name ms = given name ns)
    : (object ms).mapOf? read = (object ns).mapOf? read := by
  have hsome : ((object ms).mapOf? read).isSome = ((object ns).mapOf? read).isSome := by
    rw [isSome_mapOf?_object, isSome_mapOf?_object]
    exact all_eq_of_given_eq h fun v => (read v).isSome
  cases hms : (object ms).mapOf? read with
  | none =>
    rw [hms, Option.isSome_none, eq_comm, Option.isSome_eq_false_iff, Option.isNone_iff_eq_none]
      at hsome
    exact hsome.symm
  | some t =>
    cases hns : (object ns).mapOf? read with
    | none =>
      rw [hms, hns] at hsome
      contradiction
    | some u =>
      congr 1
      apply Std.ExtTreeMap.ext_getElem?
      intro name
      rw [getElem?_of_mapOf?_eq_some hms, getElem?_of_mapOf?_eq_some hns, h name]

end RegistrySync.Value
