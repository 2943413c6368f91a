import RegistrySync.Proofs.Text.Hex
import RegistrySync.Proofs.Toml.Grammar

/-!
A quoted text is read back, whatever it is, if no quote follows it: each of the four forms ends
where the text ends, and its escapes stand for the characters of the text.
-/

namespace RegistrySync.Toml.Grammar

open Quoted (Form)

variable {f : Form} {cs rest : List Char}

/-! ### Content -/

theorem close?_cons_of_ne {c : Char} (h : c ≠ f.quote) (rest : List Char)
    : close? f (c :: rest) = none := by
  simp [close?, h]

theorem content?_append {piece part : List Char} (hne : piece ≠ [])
    (hclose : close? f (piece ++ rest) = none)
    (hunit : unit? f (piece ++ rest) = some (part, rest))
    : content? f (piece ++ rest) = (content? f rest).map fun p => (part ++ p.1, p.2) := by
  have hlength : rest.length < (piece ++ rest).length := by
    have := List.length_pos_iff.mpr hne
    rw [List.length_append]
    omega
  rw [content?, hclose, hunit]
  dsimp only
  rw [if_pos hlength]

theorem content?_cons {piece : List Char} {c : Char}
    (hhead : ∃ d ds, piece = d :: ds ∧ d ≠ f.quote)
    (hunit : unit? f (piece ++ rest) = some ([c], rest))
    : content? f (piece ++ rest) = (content? f rest).map fun p => (c :: p.1, p.2) := by
  obtain ⟨d, ds, rfl, hd⟩ := hhead
  exact content?_append (List.cons_ne_nil d ds) (close?_cons_of_ne hd _) hunit

theorem content?_of_close {stop : List Char × List Char} (h : close? f cs = some stop)
    : content? f cs = some stop := by
  rw [content?, h]

theorem newline?_cons_of_ne {c : Char} (hline : c ≠ '\n') (hreturn : c ≠ '\r') (rest : List Char)
    : newline? (c :: rest) = none := by
  unfold newline?
  split <;> simp_all

theorem isPlain_of_not_control {c : Char} (h : Quoted.isControl c = false) (hline : c ≠ '\n')
    : isPlain c = true := by
  by_cases htab : c = '\t'
  . simp [isPlain, htab]
  . simp only [Quoted.isControl, isPlain, htab, hline, ne_eq, not_false_eq_true, decide_true,
      decide_false, Bool.and_true, Bool.false_or, Bool.or_eq_false_iff, decide_eq_false_iff_not,
      Bool.and_eq_true, decide_eq_true_eq] at h ⊢
    omega

theorem unit?_plain {c : Char} (hplain : isPlain c = true)
    (hescape : c ≠ '\\' ∨ f.hasEscapes = false) (rest : List Char)
    : unit? f (c :: rest) = some ([c], rest) := by
  rw [unit?, if_neg, if_pos hplain]
  rintro ⟨hc, hf⟩
  rcases hescape with hne | hnone
  . exact hne hc
  . rw [hnone] at hf
    contradiction

/-! ### Escapes -/

/-- The characters with an escape of one letter, and their letters. -/
def lettered : List (Char × Char) :=
  [('"', '"'), ('\\', '\\'), ('\t', 't'), ('\x08', 'b'), ('\x0c', 'f'), ('\r', 'r'), ('\n', 'n')]

theorem escaped?_of_lettered
    : ∀ p ∈ lettered, (∀ rest, escaped? (p.2 :: rest) = some (p.1, rest)) ∧
        isBlank p.2 = false ∧ p.2 ≠ '\n' ∧ p.2 ≠ '\r' := by
  simp [lettered, escaped?, letter?, isBlank]

theorem escape_of_lettered
    : ∀ p ∈ lettered, p.1 ≠ '"' → p.1 ≠ '\n' → Quoted.escape p.1 = ['\\', p.2] := by
  decide

section

variable (hf : f.hasEscapes = true)
include hf

theorem unit?_escaped {e c : Char} (hblank : isBlank e = false)
    (hline : e ≠ '\n') (hreturn : e ≠ '\r') (h : escaped? (e :: cs) = some (c, rest))
    : unit? f ('\\' :: e :: cs) = some ([c], rest) := by
  have hbreak : newline? ((e :: cs).dropWhile isBlank) = none := by
    rw [List.dropWhile_cons_of_neg (by rw [hblank]; exact Bool.false_ne_true)]
    exact newline?_cons_of_ne hline hreturn cs
  rw [unit?, if_pos ⟨rfl, hf⟩, hbreak, ite_self, h]
  rfl

theorem unit?_lettered {p : Char × Char} (hp : p ∈ lettered) (rest : List Char)
    : unit? f ('\\' :: p.2 :: rest) = some ([p.1], rest) := by
  obtain ⟨hescaped, hblank, hline, hreturn⟩ := escaped?_of_lettered p hp
  exact unit?_escaped hf hblank hline hreturn (hescaped rest)

theorem unit?_numbered {c : Char} (hc : c.toNat < 128) (rest : List Char)
    : unit? f ('\\' :: 'u' :: '0' :: '0' :: Hex.upper (c.toNat / 16) :: Hex.upper (c.toNat % 16) ::
        rest) = some ([c], rest) := by
  have hzero : Hex.value? '0' = some 0 := by decide
  have hhigh : Hex.value? (Hex.upper (c.toNat / 16)) = some (c.toNat / 16) :=
    Hex.value?_upper (by omega)
  have hlow : Hex.value? (Hex.upper (c.toNat % 16)) = some (c.toNat % 16) :=
    Hex.value?_upper (by omega)
  have hnumber : 16 * (c.toNat / 16) + c.toNat % 16 = c.toNat := by omega
  have hrange : c.toNat < 0xD800 := by omega
  apply unit?_escaped hf (by decide) (by decide) (by decide)
  simp [escaped?, numbered?, hzero, hhigh, hlow, hnumber, hrange]

theorem unit?_escape {c : Char} (hquote : c ≠ '"') (hline : c ≠ '\n') (rest : List Char)
    : unit? f (Quoted.escape c ++ rest) = some ([c], rest) := by
  by_cases hlettered : c ∈ lettered.map (·.1)
  . obtain ⟨p, hp, rfl⟩ := List.mem_map.mp hlettered
    rw [escape_of_lettered p hp hquote hline]
    exact unit?_lettered hf hp rest
  . simp only [lettered, List.map_cons, List.map_nil, List.mem_cons, List.not_mem_nil, or_false,
      not_or] at hlettered
    cases hcontrol : Quoted.isControl c with
    | true =>
      have hc : c.toNat < 128 := by
        simp only [Quoted.isControl, Bool.or_eq_true, Bool.and_eq_true, decide_eq_true_eq]
          at hcontrol
        omega
      simp only [Quoted.escape, hlettered, hcontrol, if_true, if_false]
      exact unit?_numbered hf hc rest
    | false =>
      simp only [Quoted.escape, hlettered, hcontrol, Bool.false_eq_true, if_false]
      exact unit?_plain (isPlain_of_not_control hcontrol hline) (.inl hlettered.2.1) rest

end

/-- An escape starts with a backslash, unless it is the character itself. -/
theorem exists_escape_eq (c : Char)
    : ∃ d ds, Quoted.escape c = d :: ds ∧ (d = '\\' ∨ d = c ∧ c ≠ '\r') := by
  by_cases hreturn : c = '\r'
  . subst hreturn
    exact ⟨_, _, rfl, .inl rfl⟩
  . unfold Quoted.escape
    repeat' split
    all_goals exact ⟨_, _, rfl, by simp [hreturn]⟩

theorem exists_escape_ne_quote {c : Char} (hquote : c ≠ '"')
    : ∃ d ds, Quoted.escape c = d :: ds ∧ d ≠ '"' := by
  obtain ⟨d, ds, hescape, rfl | ⟨rfl, -⟩⟩ := exists_escape_eq c
  . exact ⟨_, ds, hescape, by decide⟩
  . exact ⟨_, ds, hescape, hquote⟩

/-! ### Forms of one line -/

theorem content?_escapeLine (s rest : List Char)
    : content? .basic (Quoted.escapeLine s ++ '"' :: rest) = some (s, rest) := by
  induction s with
  | nil =>
    apply content?_of_close
    simp [close?, Form.quote, Form.isMultiline, Quoted.escapeLine]
  | cons c s ih =>
    rw [Quoted.escapeLine, List.append_assoc, content?_cons (c := c), ih, Option.map_some]
    . split
      . exact ⟨_, _, rfl, by decide⟩
      split
      . exact ⟨_, _, rfl, by decide⟩
      . next hquote _ => exact exists_escape_ne_quote hquote
    . split
      . next h =>
        subst h
        exact unit?_lettered rfl (p := ('"', '"')) (by decide) _
      split
      . next h =>
        subst h
        exact unit?_lettered rfl (p := ('\n', 'n')) (by decide) _
      . next hquote hline => exact unit?_escape rfl hquote hline _

theorem content?_literal {s : List Char} (hplain : ∀ c ∈ s, isPlain c = true) (hquote : '\'' ∉ s)
    (rest : List Char) : content? .literal (s ++ '\'' :: rest) = some (s, rest) := by
  induction s with
  | nil =>
    apply content?_of_close
    simp [close?, Form.quote, Form.isMultiline]
  | cons c s ih =>
    rw [List.mem_cons, not_or] at hquote
    rw [List.cons_append, ← List.singleton_append, content?_cons (c := c),
      ih (fun c hc => hplain c (List.mem_cons_of_mem _ hc)) hquote.2, Option.map_some]
    . exact ⟨c, [], rfl, Ne.symm hquote.1⟩
    . exact unit?_plain (hplain c List.mem_cons_self) (.inr rfl) _

/-! ### Forms of several lines -/

theorem length_takeWhile_replicate {q c : Char} (hc : c ≠ q) (n : Nat) (rest : List Char)
    : ((List.replicate n q ++ c :: rest).takeWhile (· = q)).length = n := by
  induction n with
  | zero => simp [hc]
  | succ n ih => simpa [List.replicate_succ] using ih

section

variable (hf : f.isMultiline = true)
include hf

/-- One or two quotes do not end the text. -/
theorem content?_replicate {c : Char} (hc : c ≠ f.quote) {n : Nat} (hn : n ≤ 2)
    (rest : List Char)
    : content? f (List.replicate n f.quote ++ c :: rest) =
        (content? f (c :: rest)).map fun p => (List.replicate n f.quote ++ p.1, p.2) := by
  induction n with
  | zero => simp
  | succ n ih =>
    have hclose : close? f (List.replicate (n + 1) f.quote ++ c :: rest) = none := by
      rw [close?, length_takeWhile_replicate hc, hf, if_pos rfl, if_pos (by omega)]
    have hunit : unit? f (f.quote :: (List.replicate n f.quote ++ c :: rest)) =
        some ([f.quote], List.replicate n f.quote ++ c :: rest) := by
      apply unit?_plain
      . cases f <;> decide
      . cases f <;> decide
    rw [List.replicate_succ, List.cons_append, ← List.singleton_append] at hclose ⊢
    rw [content?_append (List.cons_ne_nil _ []) hclose hunit, ih (by omega), Option.map_map]
    rfl

theorem content?_replicate_append {n : Nat} (hn : n ≤ 2) {piece : List Char} {c : Char}
    (hhead : ∃ d ds, piece = d :: ds ∧ d ≠ f.quote)
    (hunit : unit? f (piece ++ cs) = some ([c], cs)) {s : List Char}
    (hrest : content? f cs = some (s, rest))
    : content? f (List.replicate n f.quote ++ (piece ++ cs)) =
        some (List.replicate n f.quote ++ c :: s, rest) := by
  obtain ⟨d, ds, rfl, hd⟩ := hhead
  rw [List.cons_append, content?_replicate hf hd hn, ← List.cons_append,
    content?_cons ⟨d, ds, rfl, hd⟩ hunit, hrest]
  rfl

theorem content?_close {c : Char} (hc : c ≠ f.quote) {n : Nat} (hn : n ≤ 2)
    (rest : List Char)
    : content? f (List.replicate n f.quote ++ (List.replicate 3 f.quote ++ c :: rest)) =
        some (List.replicate n f.quote, c :: rest) := by
  have hextra : min (n + 3 - 3) 2 = n := by omega
  apply content?_of_close
  rw [← List.append_assoc, List.replicate_append_replicate, close?, length_takeWhile_replicate hc,
    hf, if_pos rfl, if_neg (by omega), hextra, List.drop_left' (by simp)]

end

theorem replicate_append_cons (n : Nat) (q : Char) (cs : List Char)
    : List.replicate n q ++ q :: cs = List.replicate (n + 1) q ++ cs := by
  rw [List.replicate_succ', List.append_assoc, List.singleton_append]

theorem hasTriple_cons {q c : Char} {s : List Char} (h : Quoted.hasTriple q (c :: s) = false)
    : Quoted.hasTriple q s = false := by
  match s with
  | [] | [_] => rfl
  | d :: e :: s =>
    rw [Quoted.hasTriple, Bool.or_eq_false_iff] at h
    exact h.2

theorem hasTriple_of_append {q : Char} {head : List Char} {s : List Char}
    (h : Quoted.hasTriple q (head ++ s) = false) : Quoted.hasTriple q s = false := by
  induction head with
  | nil => exact h
  | cons c head ih => exact ih (hasTriple_cons h)

theorem le_two_of_hasTriple {q : Char} {n : Nat} {s : List Char}
    (h : Quoted.hasTriple q (List.replicate n q ++ s) = false) : n ≤ 2 := by
  match n with
  | 0 | 1 | 2 => omega
  | n + 3 =>
    rw [List.replicate_succ, List.replicate_succ, List.replicate_succ] at h
    simp [Quoted.hasTriple] at h

/-
The inductions below carry the quotes that stand just before the rest of the text. There are at most
two of them, so that with the closing quotes they are at most five.
-/

theorem content?_multilineLiteral {s : List Char} (hplain : ∀ c ∈ s, isPlain c = true ∨ c = '\n')
    {n : Nat} (htriple : Quoted.hasTriple '\'' (List.replicate n '\'' ++ s) = false) {c : Char}
    (hc : c ≠ '\'') (rest : List Char)
    : content? .multilineLiteral
          (List.replicate n '\'' ++ (s ++ (List.replicate 3 '\'' ++ c :: rest))) =
        some (List.replicate n '\'' ++ s, c :: rest) := by
  have hn := le_two_of_hasTriple htriple
  induction s generalizing n with
  | nil =>
    rw [List.nil_append, List.append_nil]
    exact content?_close rfl hc hn rest
  | cons d s ih =>
    have ih := fun n => ih (fun c hc => hplain c (List.mem_cons_of_mem _ hc)) (n := n)
    by_cases hd : d = '\''
    . subst hd
      rw [replicate_append_cons] at htriple
      rw [List.cons_append, replicate_append_cons, replicate_append_cons]
      exact ih (n + 1) htriple (le_two_of_hasTriple htriple)
    . have hrest := ih 0 (hasTriple_cons (hasTriple_of_append htriple)) (Nat.zero_le 2)
      have hunit : ∀ cs, unit? .multilineLiteral ([d] ++ cs) = some ([d], cs) := by
        intro cs
        rcases hplain d List.mem_cons_self with hplain | rfl
        . exact unit?_plain hplain (.inr rfl) cs
        . rfl
      rw [List.replicate_zero, List.nil_append, List.nil_append] at hrest
      exact content?_replicate_append (f := .multilineLiteral) rfl hn ⟨d, [], rfl, hd⟩ (hunit _)
        hrest

theorem content?_escapeLines (s : List Char) {n : Nat} (hn : n ≤ 2) {c : Char} (hc : c ≠ '"')
    (rest : List Char)
    : content? .multilineBasic
          (List.replicate n '"' ++ (Quoted.escapeLines n s ++ (List.replicate 3 '"' ++ c :: rest)))
          = some (List.replicate n '"' ++ s, c :: rest) := by
  induction s generalizing n with
  | nil =>
    rw [Quoted.escapeLines, List.nil_append, List.append_nil]
    exact content?_close rfl hc hn rest
  | cons d s ih =>
    have hrest := ih (Nat.zero_le 2)
    rw [List.replicate_zero, List.nil_append, List.nil_append] at hrest
    have hpiece : ∀ piece, (∃ e es, piece = e :: es ∧ e ≠ '"') →
        (∀ cs, unit? .multilineBasic (piece ++ cs) = some ([d], cs)) →
        content? .multilineBasic (List.replicate n '"' ++
            (piece ++ (Quoted.escapeLines 0 s ++ (List.replicate 3 '"' ++ c :: rest)))) =
          some (List.replicate n '"' ++ d :: s, c :: rest) :=
      fun _ hhead hunit =>
        content?_replicate_append (f := .multilineBasic) rfl hn hhead (hunit _) hrest
    rw [Quoted.escapeLines]
    split
    . next h =>
      subst h
      split
      . next hlt =>
        rw [List.cons_append, replicate_append_cons, replicate_append_cons]
        exact ih hlt
      . exact hpiece ['\\', '"'] ⟨_, _, rfl, by decide⟩
          (unit?_lettered rfl (p := ('"', '"')) (by decide))
    split
    . next h =>
      subst h
      exact hpiece ['\n'] ⟨_, _, rfl, by decide⟩ (fun _ => rfl)
    . next hquote hline =>
      rw [List.append_assoc]
      exact hpiece _ (exists_escape_ne_quote hquote) (unit?_escape rfl hquote hline)

/-! ### Texts -/

theorem string?_basic (h : ∀ rest, cs ≠ '"' :: '"' :: rest)
    : string? (['"'] ++ cs) = content? .basic cs := by
  have hopening : opening? ('"' :: cs) = some (.basic, cs) := by
    unfold opening?
    split <;> simp_all
  rw [string?, List.singleton_append, hopening]
  rfl

theorem string?_literal (h : ∀ rest, cs ≠ '\'' :: '\'' :: rest)
    : string? (['\''] ++ cs) = content? .literal cs := by
  have hopening : opening? ('\'' :: cs) = some (.literal, cs) := by
    unfold opening?
    split <;> simp_all
  rw [string?, List.singleton_append, hopening]
  rfl

section

variable {s : List Char} (h : '\n' ∉ s → ∃ d ds, cs = d :: ds ∧ d ≠ '\n' ∧ d ≠ '\r')
include h

theorem getD_newline?_opening
    : (newline? (Quoted.opening s ++ cs)).getD (Quoted.opening s ++ cs) = cs := by
  unfold Quoted.opening
  split
  . rfl
  . next hline =>
    rw [List.contains_iff_mem] at hline
    obtain ⟨d, ds, rfl, hd, hreturn⟩ := h hline
    rw [List.nil_append, newline?_cons_of_ne hd hreturn, Option.getD_none]

theorem string?_multilineBasic
    : string? (List.replicate 3 '"' ++ (Quoted.opening s ++ cs)) = content? .multilineBasic cs :=
  congrArg (content? .multilineBasic) (getD_newline?_opening h)

theorem string?_multilineLiteral
    : string? (List.replicate 3 '\'' ++ (Quoted.opening s ++ cs)) = content? .multilineLiteral cs :=
  congrArg (content? .multilineLiteral) (getD_newline?_opening h)

end

theorem of_form_literal {s : List Char} (h : Quoted.form s = .literal)
    : (∀ c ∈ s, Quoted.isControl c = false) ∧ '\'' ∉ s ∧ '\n' ∉ s := by
  unfold Quoted.form at h
  dsimp only at h
  repeat' split at h
  all_goals try contradiction
  next hliteral => simpa [and_assoc] using hliteral

theorem of_form_multilineLiteral {s : List Char} (h : Quoted.form s = .multilineLiteral)
    : (∀ c ∈ s, Quoted.isControl c = false) ∧ Quoted.hasTriple '\'' s = false := by
  unfold Quoted.form at h
  dsimp only at h
  repeat' split at h
  all_goals try contradiction
  next hliteral => simpa using hliteral

theorem escapeLine_append_ne (s : List Char) {c : Char} (hc : c ≠ '"') (rest after : List Char)
    : Quoted.escapeLine s ++ '"' :: c :: rest ≠ '"' :: '"' :: after := by
  intro h
  cases s with
  | nil => exact hc (List.cons.inj (List.cons.inj h).2).1
  | cons d s =>
    rw [Quoted.escapeLine] at h
    split at h
    . exact absurd (List.cons.inj h).1 (by decide)
    split at h
    . exact absurd (List.cons.inj h).1 (by decide)
    . next hquote _ =>
      obtain ⟨e, es, hescape, he⟩ := exists_escape_ne_quote hquote
      rw [hescape] at h
      exact he (List.cons.inj h).1

theorem exists_escapeLines_append_eq (s rest : List Char) (h : '\n' ∉ s)
    : ∃ d ds, Quoted.escapeLines 0 s ++ '"' :: rest = d :: ds ∧ d ≠ '\n' ∧ d ≠ '\r' := by
  cases s with
  | nil => exact ⟨'"', rest, rfl, by decide, by decide⟩
  | cons d s =>
    rw [List.mem_cons, not_or] at h
    rw [Quoted.escapeLines]
    split
    . exact ⟨'"', _, rfl, by decide, by decide⟩
    . rw [if_neg (Ne.symm h.1)]
      obtain ⟨e, es, hescape, rfl | ⟨rfl, hreturn⟩⟩ := exists_escape_eq d
      . rw [hescape]
        exact ⟨'\\', _, rfl, by decide, by decide⟩
      . rw [hescape]
        exact ⟨e, _, rfl, Ne.symm h.1, hreturn⟩

theorem string?_encode (s : List Char) {c : Char} (hquote : c ≠ '"') (hsingle : c ≠ '\'')
    (rest : List Char) : string? (Quoted.encode s ++ c :: rest) = some (s, c :: rest) := by
  unfold Quoted.encode
  split
  . rw [List.append_assoc, List.append_assoc, string?_basic]
    . exact content?_escapeLine s (c :: rest)
    . exact escapeLine_append_ne s hquote rest
  . next hform =>
    obtain ⟨hcontrol, hapostrophe, hline⟩ := of_form_literal hform
    rw [List.append_assoc, List.append_assoc, string?_literal]
    . apply content?_literal _ hapostrophe
      intro d hd
      apply isPlain_of_not_control (hcontrol d hd)
      rintro rfl
      exact hline hd
    . intro after h
      cases s with
      | nil => exact hsingle (List.cons.inj (List.cons.inj h).2).1
      | cons d s =>
        rw [← (List.cons.inj h).1] at hapostrophe
        exact hapostrophe List.mem_cons_self
  . rw [List.append_assoc, List.append_assoc, List.append_assoc]
    refine (string?_multilineBasic ?_).trans (content?_escapeLines s (Nat.zero_le 2) hquote rest)
    exact exists_escapeLines_append_eq s _
  . next hform =>
    obtain ⟨hcontrol, htriple⟩ := of_form_multilineLiteral hform
    rw [List.append_assoc, List.append_assoc, List.append_assoc]
    refine (string?_multilineLiteral ?_).trans
      (content?_multilineLiteral (n := 0) ?_ htriple hsingle rest)
    . intro hline
      cases s with
      | nil => exact ⟨'\'', _, rfl, by decide, by decide⟩
      | cons d s =>
        refine ⟨d, _, rfl, fun hd => hline (hd ▸ List.mem_cons_self), ?_⟩
        rintro rfl
        exact absurd (hcontrol '\r' List.mem_cons_self) (by decide)
    . intro d hd
      by_cases hline : d = '\n'
      . exact .inr hline
      . exact .inl (isPlain_of_not_control (hcontrol d hd) hline)

end RegistrySync.Toml.Grammar
