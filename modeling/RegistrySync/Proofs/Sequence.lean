import Mathlib.Data.List.Induction

/-!
Lists that grow at their end, and lists whose items are read back one by one.
-/

namespace RegistrySync.Sequence

theorem getElem?_concat_eq_some_iff {α : Type} (l : List α) (a b : α) (i : Nat)
    : (l ++ [a])[i]? = some b ↔ l[i]? = some b ∨ i = l.length ∧ a = b := by
  rcases Nat.lt_trichotomy i l.length with hlt | rfl | hgt
  . rw [List.getElem?_append_left hlt]
    simp [Nat.ne_of_lt hlt]
  . simp
  . rw [List.getElem?_eq_none (by simp; omega), List.getElem?_eq_none (by omega)]
    simp [Nat.ne_of_gt hgt]

theorem concat_eq_append_cons_iff {α : Type} {l before after : List α} {a b : α}
    : l ++ [a] = before ++ b :: after ↔
        (l = before ∧ a = b ∧ after = []) ∨
          ∃ rest, after = rest ++ [a] ∧ l = before ++ b :: rest := by
  constructor
  . intro h
    induction after using List.reverseRecOn with
    | nil =>
      obtain ⟨hl, ha⟩ := List.append_inj' h rfl
      exact .inl ⟨hl, (List.cons.inj ha).1, rfl⟩
    | append_singleton rest last =>
      rw [← List.cons_append, ← List.append_assoc] at h
      obtain ⟨hl, ha⟩ := List.append_inj' h rfl
      rw [(List.cons.inj ha).1]
      exact .inr ⟨rest, rfl, hl⟩
  . rintro (⟨rfl, rfl, rfl⟩ | ⟨rest, rfl, rfl⟩)
    . rfl
    . rw [List.append_assoc, List.cons_append]

theorem eraseDups_concat (l : List String) (r : String)
    : (l ++ [r]).eraseDups = if r ∈ l then l.eraseDups else l.eraseDups ++ [r] := by
  rw [List.eraseDups_append]
  by_cases hmem : r ∈ l <;> simp [List.removeAll, List.eraseDups_cons, hmem]

theorem filterMap_concat {α β : Type} (f : α → Option β) (l : List α) (a : α)
    : (l ++ [a]).filterMap f = l.filterMap f ++ (f a).toList := by
  cases ha : f a <;> simp [ha]

theorem getLastD_filterMap {α β : Type} (f : α → Option β) (l : List α) (d : β)
    : (l.filterMap f).getLastD d = d ∨ ∃ a ∈ l, f a = some ((l.filterMap f).getLastD d) := by
  induction l using List.reverseRecOn with
  | nil => exact .inl rfl
  | append_singleton l a ih =>
    rw [List.filterMap_append]
    cases ha : f a with
    | some b => exact .inr ⟨a, by simp, by simp [ha]⟩
    | none =>
      simp only [ha, List.filterMap_cons_none, List.filterMap_nil, List.append_nil]
      rcases ih with ih | ⟨a', ha', hf⟩
      . exact .inl ih
      . exact .inr ⟨a', List.mem_append_left _ ha', hf⟩

theorem mapM_map_eq_some {α β : Type} {write : α → β} {read : β → Option α}
    (h : ∀ a, read (write a) = some a) (l : List α) : (l.map write).mapM read = some l := by
  have hread : read ∘ write = fun a => pure a := funext h
  rw [List.mapM_map, hread, List.mapM_pure, List.map_id']
  rfl

theorem isSome_mapM {α β : Type} (read : α → Option β) (l : List α)
    : (l.mapM read).isSome = l.all fun a => (read a).isSome := by
  induction l with
  | nil => rfl
  | cons a l ih =>
    rw [List.mapM_cons, List.all_cons, ← ih]
    cases read a <;> cases l.mapM read <;> rfl

theorem mapM_congr {α β : Type} {read : α → Option β} {l l' : List α}
    (h : List.Forall₂ (fun a b => read a = read b) l l') : l.mapM read = l'.mapM read := by
  induction h with
  | nil => rfl
  | cons h _ ih => rw [List.mapM_cons, List.mapM_cons, h, ih]

theorem all_congr {α : Type} {p : α → Bool} {l l' : List α}
    (h : List.Forall₂ (fun a b => p a = p b) l l') : l.all p = l'.all p := by
  induction h with
  | nil => rfl
  | cons h _ ih => rw [List.all_cons, List.all_cons, h, ih]

theorem forall₂_of_mapM_eq_some {α β : Type} {read : α → Option β} {l : List α} {l' : List β}
    (h : l.mapM read = some l') : List.Forall₂ (fun a b => read a = some b) l l' := by
  induction l generalizing l' with
  | nil =>
    obtain rfl := Option.some.inj h
    exact .nil
  | cons a l ih =>
    rw [List.mapM_cons] at h
    obtain ⟨b, hb, h⟩ := Option.bind_eq_some_iff.mp h
    obtain ⟨rest, hrest, h⟩ := Option.bind_eq_some_iff.mp h
    obtain rfl := Option.some.inj h
    exact .cons hb (ih hrest)

end RegistrySync.Sequence
