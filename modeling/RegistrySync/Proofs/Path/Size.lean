import RegistrySync.Proofs.Path.Names

/-!
How many bytes a path takes: those of its segments and of the slashes between them. A parent takes
no more than the path, and a name that is joined makes the path no shorter.
-/

namespace RegistrySync.Path

theorem utf8ByteSize_ofList_append (cs ds : List Char)
    : (String.ofList (cs ++ ds)).utf8ByteSize =
        (String.ofList cs).utf8ByteSize + (String.ofList ds).utf8ByteSize := by
  rw [String.ofList_append, String.utf8ByteSize_append]

theorem utf8ByteSize_text (p : Path) : p.text.utf8ByteSize = p.size := by
  obtain ⟨segments⟩ := p
  rw [text, size]
  induction segments with
  | nil => rfl
  | cons s rest ih =>
    cases rest with
    | nil => simp [bytes]
    | cons t rest =>
      have hslash : (String.ofList ['/']).utf8ByteSize = 1 := by decide
      simp only [List.map_cons, List.intercalate_cons_cons, bytes, List.length_cons,
        utf8ByteSize_ofList_append, String.ofList_toList, hslash] at ih ⊢
      omega

theorem bytes_append (l l' : List String) : bytes (l ++ l') = bytes l + bytes l' := by
  induction l with
  | nil => exact (Nat.zero_add _).symm
  | cons s rest ih => rw [List.cons_append, bytes, bytes, ih, Nat.add_assoc]

theorem bytes_le_of_sublist {l l' : List String} (h : l.Sublist l') : bytes l ≤ bytes l' := by
  induction h with
  | slnil => exact Nat.le_refl _
  | cons s _ ih => exact Nat.le_add_left_of_le ih
  | cons_cons s _ ih => exact Nat.add_le_add_left ih _

theorem size_mono {p q : Path} (h : q.segments.Sublist p.segments) : q.size ≤ p.size := by
  rw [size, size]
  have hbytes := bytes_le_of_sublist h
  have hlength := h.length_le
  omega

theorem size_parent? {p q : Path} (h : p.parent? = some q) : q.size ≤ p.size := by
  have hsub := dropIdle_sublist p.segments.reverse
  unfold parent? at h
  split at h
  . contradiction
  . split at h
    . contradiction
    . obtain rfl := Option.some.inj h
      exact Nat.zero_le _
  . next s rest hrest hbusy =>
    rw [hbusy] at hsub
    obtain rfl := Option.some.inj h
    split
    . obtain ⟨t, rest, rfl⟩ := List.exists_cons_of_ne_nil hrest
      have hlength := hsub.length_le
      rw [List.length_reverse, List.length_cons, List.length_cons] at hlength
      have hroot : root.size = 1 := by decide
      rw [hroot, size]
      omega
    . apply size_mono
      have hkept := ((dropIdle_sublist rest).trans (List.sublist_cons_self s rest)).trans hsub
      simpa using hkept.reverse

theorem bytes_openEnd (l : List String) : bytes (openEnd l) = bytes l := by
  fun_induction openEnd l with
  | case1 => rfl
  | case2 => rfl
  | case3 => rfl
  | case4 s rest _ ih => rw [bytes, bytes, ih]

theorem length_le_openEnd (l : List String) : l.length ≤ (openEnd l).length + 1 := by
  fun_induction openEnd l with
  | case1 => exact Nat.zero_le _
  | case2 => exact Nat.le_refl _
  | case3 => exact Nat.le_succ _
  | case4 s rest _ ih => exact Nat.succ_le_succ ih

theorem size_le_join (p : Path) {name : String} (hname : '/' ∉ name.toList)
    : p.size + name.utf8ByteSize ≤ (p.join (ofText name)).size := by
  have hlength := length_le_openEnd p.segments
  rw [join_ofText hname, size, size, bytes_append, bytes_openEnd, bytes, bytes,
    List.length_append, List.length_singleton]
  omega

/-! ### Refusals -/

theorem isTooLong_of_le {p q : Path} (hp : p.isTooLong = false) (h : q.size ≤ p.size)
    : q.isTooLong = false := by
  rw [isTooLong, decide_eq_false_iff_not] at hp ⊢
  omega

theorem refusal?_eq_none_iff {p : Path}
    : p.refusal? = none ↔ p.hasNul = false ∧ p.isTooLong = false := by
  unfold refusal?
  cases p.hasNul <;> cases p.isTooLong <;> decide

theorem hasNul_parent? {p q : Path} (h : p.parent? = some q) (hp : p.hasNul = false)
    : q.hasNul = false := by
  rw [hasNul, List.any_eq_false] at hp ⊢
  intro s hs
  rcases segments_of_parent? h hs with rfl | hs
  . decide
  . exact hp s hs

theorem refusal?_parent? {p q : Path} (h : p.parent? = some q) (hp : p.refusal? = none)
    : q.refusal? = none := by
  rw [refusal?_eq_none_iff] at hp ⊢
  exact ⟨hasNul_parent? h hp.1, isTooLong_of_le hp.2 (size_parent? h)⟩

end RegistrySync.Path
