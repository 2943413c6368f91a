import RegistrySync.Proofs.Toml.Quoted
import RegistrySync.Toml.Document

/-!
A printed document is read back: its keys, its values and its tables, in the order in which they
were written.
-/

namespace RegistrySync.Toml

namespace Value

def node : Value → Node
  | text s => .text s
  | list items => .array (items.map .text)
  | bool b => .bool b

end Value

namespace Pairs

def members (pairs : Pairs) : Members :=
  pairs.map fun (key, value) => (key, value.node)

def lines (pairs : Pairs) : List Grammar.Line :=
  pairs.map fun (key, value) => .pair key value.node

def keys (pairs : Pairs) : List String :=
  pairs.map (·.1)

end Pairs

/-- A key that needs no quotes. -/
def IsKey (key : String) : Prop :=
  key.toList ≠ [] ∧ ∀ c ∈ key.toList, Grammar.isBare c = true

instance (key : String) : Decidable (IsKey key) :=
  decidable_of_iff (key.toList ≠ [] ∧ key.toList.all Grammar.isBare = true) (by
    rw [IsKey, List.all_eq_true])

/-- The keys are plain, and none is given twice in one place. -/
structure Document.Clear (d : Document) : Prop where
  name : IsKey d.tableName
  top : ∀ key ∈ d.top.keys, IsKey key
  tables : ∀ pairs ∈ d.tables, ∀ key ∈ pairs.keys, IsKey key
  nodup_top : (d.tableName :: d.top.keys).Nodup
  nodup_tables : ∀ pairs ∈ d.tables, pairs.keys.Nodup

def Document.lines (d : Document) : List Grammar.Line :=
  match d.tables with
  | [] => (d.top ++ [(d.tableName, .list [])] : Pairs).lines
  | tables => d.top.lines ++ tables.flatMap fun pairs => .header d.tableName :: pairs.lines

/-- What a document says: the keys at its top, then its tables under their name. -/
def Document.members (d : Document) : Members :=
  d.top.members ++ [(d.tableName, .array (d.tables.map fun pairs => .table pairs.members))]

namespace Grammar

variable {rest : List Char}

/-! ### Values -/

theorem exists_encode_eq (s : List Char)
    : ∃ d ds, Quoted.encode s = d :: ds ∧ (d = '"' ∨ d = '\'') := by
  unfold Quoted.encode
  split
  . exact ⟨_, _, rfl, .inl rfl⟩
  . exact ⟨_, _, rfl, .inr rfl⟩
  . exact ⟨_, _, rfl, .inl rfl⟩
  . exact ⟨_, _, rfl, .inr rfl⟩

theorem head?_encode_append_ne (s rest : List Char)
    : (Quoted.encode s ++ rest).head? ≠ some ']' := by
  obtain ⟨d, ds, hencode, rfl | rfl⟩ := exists_encode_eq s
  all_goals simp [hencode]

theorem gap_encode (s rest : List Char)
    : gap false (Quoted.encode s ++ rest) = Quoted.encode s ++ rest := by
  obtain ⟨d, ds, hencode, rfl | rfl⟩ := exists_encode_eq s
  all_goals rw [hencode]; rfl

theorem value?_encode (s : String) {c : Char} (hquote : c ≠ '"') (hsingle : c ≠ '\'')
    (rest : List Char)
    : value? (Quoted.encode s.toList ++ c :: rest) = some (.text s, c :: rest) := by
  have hstring := string?_encode s.toList hquote hsingle rest
  obtain ⟨d, ds, hencode, hd⟩ := exists_encode_eq s.toList
  rw [hencode, List.cons_append] at hstring ⊢
  have hvalue : value? (d :: (ds ++ c :: rest)) =
      (string? (d :: (ds ++ c :: rest))).map fun p => (.text (String.ofList p.1), p.2) := by
    rcases hd with rfl | rfl
    all_goals rw [value?] <;> simp
  rw [hvalue, hstring, Option.map_some, String.ofList_toList]

def itemChars (items : List String) : List Char :=
  List.intercalate [',', ' '] (items.map fun s => Quoted.encode s.toList)

theorem itemChars_cons_cons (s r : String) (items : List String)
    : itemChars (s :: r :: items) =
        Quoted.encode s.toList ++ ',' :: ' ' :: itemChars (r :: items) := by
  simp [itemChars]

theorem gap_itemChars (items : List String) (rest : List Char)
    : gap false (itemChars items ++ ']' :: rest) = itemChars items ++ ']' :: rest := by
  match items with
  | [] => rfl
  | [s] =>
    rw [itemChars, List.map_singleton, List.intercalate_singleton, gap_encode]
  | s :: r :: items => rw [itemChars_cons_cons, List.append_assoc, gap_encode]

/-- The items are read from behind the blanks before them. -/
theorem items?_of_gap (items : List String) {cs : List Char}
    (h : gap false cs = itemChars items ++ ']' :: rest)
    : items? cs = some (items.map .text, rest) := by
  induction items generalizing cs with
  | nil =>
    have h : gap false cs = ']' :: rest := h
    simp [items?, h]
  | cons s items ih =>
    cases items with
    | nil =>
      rw [itemChars, List.map_singleton, List.intercalate_singleton] at h
      rw [items?, h, if_neg (head?_encode_append_ne _ _), value?_encode s (by decide) (by decide)]
      rfl
    | cons r items =>
      rw [itemChars_cons_cons, List.append_assoc, List.cons_append, List.cons_append] at h
      have hmore : items? (' ' :: (itemChars (r :: items) ++ ']' :: rest)) =
          some ((r :: items).map .text, rest) :=
        ih (gap_itemChars (r :: items) rest)
      have hlength := length_gap_le false cs
      rw [h, List.length_append, List.length_cons] at hlength
      have hrest : gap false (',' :: ' ' :: (itemChars (r :: items) ++ ']' :: rest)) =
          ',' :: ' ' :: (itemChars (r :: items) ++ ']' :: rest) := rfl
      rw [items?, h, if_neg (head?_encode_append_ne _ _), value?_encode s (by decide) (by decide)]
      dsimp only
      rw [hrest]
      exact (if_pos (by omega)).trans (by rw [hmore]; rfl)

theorem value?_chars (v : Value) {c : Char} (hquote : c ≠ '"') (hsingle : c ≠ '\'')
    (rest : List Char) : value? (v.chars ++ c :: rest) = some (v.node, c :: rest) := by
  cases v with
  | text s => exact value?_encode s hquote hsingle rest
  | list items =>
    have hchars : (Value.list items).chars ++ c :: rest =
        '[' :: (itemChars items ++ ']' :: c :: rest) := by
      simp [Value.chars, itemChars]
    rw [hchars, value?, items?_of_gap items (gap_itemChars items _)]
    rfl
  | bool b =>
    cases b with
    | false =>
      have hchars : (Value.bool false).chars ++ c :: rest =
        'f' :: 'a' :: 'l' :: 's' :: 'e' :: c :: rest := rfl
      rw [hchars, value?]
      rfl
    | true =>
      have hchars : (Value.bool true).chars ++ c :: rest =
        't' :: 'r' :: 'u' :: 'e' :: c :: rest := rfl
      rw [hchars, value?]
      rfl

theorem exists_chars_eq (v : Value) : ∃ d ds, v.chars = d :: ds ∧ isBlank d = false := by
  cases v with
  | text s =>
    obtain ⟨d, ds, hencode, rfl | rfl⟩ := exists_encode_eq s.toList
    all_goals exact ⟨_, ds, hencode, rfl⟩
  | list items => exact ⟨'[', _, rfl, rfl⟩
  | bool b =>
    cases b with
    | false => exact ⟨'f', _, rfl, rfl⟩
    | true => exact ⟨'t', _, rfl, rfl⟩

/-! ### Lines -/

theorem key?_append {key : String} (h : IsKey key) {c : Char} (hc : isBare c = false)
    (rest : List Char) : key? (key.toList ++ c :: rest) = some (key, c :: rest) := by
  obtain ⟨hne, hbare⟩ := h
  have htake : (key.toList ++ c :: rest).takeWhile isBare = key.toList := by
    rw [List.takeWhile_append_of_pos hbare, List.takeWhile_cons_of_neg (by simp [hc]),
      List.append_nil]
  have hdrop : (key.toList ++ c :: rest).dropWhile isBare = c :: rest := by
    rw [List.dropWhile_append_of_pos hbare, List.dropWhile_cons_of_neg (by simp [hc])]
  rw [key?, htake]
  split
  . contradiction
  . rw [hdrop, String.ofList_toList]

theorem lines?_of_line? {cs : List Char} {said : List Line}
    (hline : line? cs = some (said, '\n' :: rest)) (hlength : rest.length < cs.length)
    : lines? cs = (lines? rest).map (said ++ ·) := by
  have hcomment : comment (('\n' :: rest).dropWhile isBlank) = '\n' :: rest := rfl
  have hnewline : newline? ('\n' :: rest) = some rest := rfl
  rw [lines?, hline]
  dsimp only
  rw [hcomment]
  dsimp only
  rw [hnewline]
  dsimp only
  rw [if_pos hlength]

theorem ne_of_isBare {c d : Char} (h : isBare c = true) (hd : isBare d = false) : c ≠ d := by
  rintro rfl
  rw [h] at hd
  contradiction

theorem isBlank_of_isBare {c : Char} (h : isBare c = true) : isBlank c = false := by
  simp [isBlank, ne_of_isBare h (d := ' ') rfl, ne_of_isBare h (d := '\t') rfl]

theorem line?_of_isBare {c : Char} (h : isBare c = true) (cs : List Char)
    : line? (c :: cs) = (pair? (c :: cs)).map fun p => ([p.1], p.2) := by
  have hblank := isBlank_of_isBare h
  have hnewline := newline?_cons_of_ne (ne_of_isBare h (d := '\n') rfl)
    (ne_of_isBare h (d := '\r') rfl) cs
  rw [line?, List.dropWhile_cons_of_neg (by simp [hblank])]
  split
  . contradiction
  . next heq => exact absurd (List.cons.inj heq).1 (ne_of_isBare h rfl)
  . next heq =>
    obtain ⟨rfl, rfl⟩ := List.cons.inj heq
    simp [ne_of_isBare h (d := '#') rfl, hnewline]

theorem pair?_append {key : String} (h : IsKey key) (v : Value) (rest : List Char)
    : pair? (key.toList ++ ' ' :: '=' :: ' ' :: (v.chars ++ '\n' :: rest)) =
        some (.pair key v.node, '\n' :: rest) := by
  obtain ⟨d, ds, hchars, hd⟩ := exists_chars_eq v
  have hvalue : (' ' :: (v.chars ++ '\n' :: rest)).dropWhile isBlank = v.chars ++ '\n' :: rest := by
    rw [List.dropWhile_cons_of_pos rfl, hchars, List.cons_append,
      List.dropWhile_cons_of_neg (by simp [hd])]
  have hkey := key?_append h (c := ' ') rfl ('=' :: ' ' :: (v.chars ++ '\n' :: rest))
  have hequals : (' ' :: '=' :: ' ' :: (v.chars ++ '\n' :: rest)).dropWhile isBlank =
      '=' :: ' ' :: (v.chars ++ '\n' :: rest) := rfl
  rw [pair?, hkey, Option.bind_eq_bind, Option.bind_some]
  dsimp only
  rw [hequals]
  have hread := value?_chars v (c := '\n') (by decide) (by decide) rest
  rw [← hvalue] at hread
  exact congrArg (Option.bind · fun p => some (Line.pair key p.1, p.2)) hread

theorem lines?_pair {key : String} (h : IsKey key) (v : Value) (rest : List Char)
    : lines? (key.toList ++ ' ' :: '=' :: ' ' :: (v.chars ++ '\n' :: rest)) =
        (lines? rest).map ([.pair key v.node] ++ ·) := by
  obtain ⟨d, ds, hkey⟩ := List.exists_cons_of_ne_nil h.1
  have hbare : isBare d = true := h.2 d (hkey ▸ List.mem_cons_self)
  apply lines?_of_line?
  . have hpair := pair?_append h v rest
    rw [hkey, List.cons_append] at hpair ⊢
    rw [line?_of_isBare hbare, hpair]
    rfl
  . simp only [List.length_append, List.length_cons]
    omega

theorem header?_append {name : String} (h : IsKey name) (rest : List Char)
    : header? (name.toList ++ ']' :: ']' :: rest) = some (.header name, rest) := by
  have hname : (name.toList ++ ']' :: ']' :: rest).dropWhile isBlank =
      name.toList ++ ']' :: ']' :: rest := by
    obtain ⟨d, ds, hname⟩ := List.exists_cons_of_ne_nil h.1
    have hblank := isBlank_of_isBare (h.2 d (hname ▸ List.mem_cons_self))
    rw [hname, List.cons_append, List.dropWhile_cons_of_neg (by simp [hblank])]
  have hclosing : (']' :: ']' :: rest).dropWhile isBlank = ']' :: ']' :: rest := rfl
  rw [header?, hname, key?_append h rfl, Option.bind_eq_bind, Option.bind_some]
  dsimp only
  rw [hclosing]
  rfl

theorem lines?_header {name : String} (h : IsKey name) (rest : List Char)
    : lines? ('\n' :: '[' :: '[' :: (name.toList ++ ']' :: ']' :: '\n' :: rest)) =
        (lines? rest).map ([.header name] ++ ·) := by
  have hheader : line? ('[' :: '[' :: (name.toList ++ ']' :: ']' :: '\n' :: rest)) =
      some ([.header name], '\n' :: rest) := by
    have hopening : ('[' :: '[' :: (name.toList ++ ']' :: ']' :: '\n' :: rest)).dropWhile isBlank =
        '[' :: '[' :: (name.toList ++ ']' :: ']' :: '\n' :: rest) := rfl
    rw [line?, hopening]
    exact congrArg (Option.map fun p => ([p.1], p.2)) (header?_append h ('\n' :: rest))
  rw [lines?_of_line? rfl (Nat.lt_succ_self _), lines?_of_line? hheader, Option.map_map]
  . rfl
  . simp only [List.length_append, List.length_cons]
    omega

theorem lines?_pairs {pairs : Pairs} (h : ∀ key ∈ pairs.keys, IsKey key) (rest : List Char)
    : lines? (pairs.chars ++ rest) = (lines? rest).map (pairs.lines ++ ·) := by
  induction pairs with
  | nil => simp [Pairs.chars, Pairs.lines]
  | cons p pairs ih =>
    obtain ⟨key, v⟩ := p
    rw [Pairs.keys, List.map_cons, List.forall_mem_cons] at h
    have hchars : Pairs.chars ((key, v) :: pairs) ++ rest =
        key.toList ++ ' ' :: '=' :: ' ' :: (v.chars ++ '\n' :: (Pairs.chars pairs ++ rest)) := by
      simp [Pairs.chars]
    rw [hchars, lines?_pair h.1, ih h.2, Option.map_map]
    rfl

theorem lines?_nil : lines? [] = some [] := by
  simp [lines?, line?, comment]

theorem lines?_tables {name : String} (hname : IsKey name) {tables : List Pairs}
    (h : ∀ pairs ∈ tables, ∀ key ∈ pairs.keys, IsKey key)
    : lines? (tables.flatMap fun pairs =>
          ['\n', '[', '['] ++ name.toList ++ [']', ']', '\n'] ++ pairs.chars) =
        some (tables.flatMap fun pairs => .header name :: pairs.lines) := by
  induction tables with
  | nil => exact lines?_nil
  | cons pairs tables ih =>
    rw [List.forall_mem_cons] at h
    have hchars : ∀ rest,
        ['\n', '[', '['] ++ name.toList ++ [']', ']', '\n'] ++ pairs.chars ++ rest =
          '\n' :: '[' :: '[' :: (name.toList ++ ']' :: ']' :: '\n' :: (pairs.chars ++ rest)) := by
      simp
    rw [List.flatMap_cons, List.flatMap_cons, hchars, lines?_header hname, lines?_pairs h.1, ih h.2]
    simp

theorem lines?_chars {d : Document} (h : d.Clear) : lines? d.chars = some d.lines := by
  obtain ⟨hname, htop, htables, -, -⟩ := h
  obtain ⟨top, name, tables⟩ := d
  cases tables with
  | nil =>
    have hkeys : ∀ key ∈ Pairs.keys (top ++ [(name, .list [])]), IsKey key := by
      intro key hkey
      rw [Pairs.keys, List.map_append, List.mem_append] at hkey
      rcases hkey with hkey | hkey
      . exact htop key hkey
      . exact List.mem_singleton.mp hkey ▸ hname
    have hpairs := lines?_pairs hkeys []
    rw [List.append_nil, lines?_nil, Option.map_some, List.append_nil] at hpairs
    exact hpairs
  | cons pairs tables =>
    have hlines := lines?_tables hname htables
    have hpairs := lines?_pairs htop
    exact (hpairs _).trans (by rw [hlines]; rfl)

end Grammar

namespace Draft

open Grammar (Line)

theorem lookup_eq_none {members : Members} {key : String} (h : key ∉ members.map (·.1))
    : members.lookup key = none := by
  rw [List.lookup_eq_none_iff]
  intro p hp
  rw [bne_iff_ne]
  rintro rfl
  exact h (List.mem_map_of_mem hp)

theorem foldlM_add_top (top : Members) {pairs : Pairs} (h : (top.map (·.1) ++ pairs.keys).Nodup)
    : pairs.lines.foldlM add ⟨top, []⟩ = some ⟨top ++ pairs.members, []⟩ := by
  induction pairs generalizing top with
  | nil => simp [Pairs.lines, Pairs.members]
  | cons p pairs ih =>
    have hkey : top.lookup p.1 = none := by
      apply lookup_eq_none
      intro hmem
      exact List.nodup_append.mp h |>.2.2 _ hmem _ List.mem_cons_self rfl
    have hadd : add ⟨top, []⟩ (.pair p.1 p.2.node) = some ⟨top ++ [(p.1, p.2.node)], []⟩ := by
      simp [add, hkey]
    have hrest := ih (top ++ [(p.1, p.2.node)]) (by simpa [Pairs.keys] using h)
    rw [Pairs.lines, List.map_cons, List.foldlM_cons, hadd]
    exact hrest.trans (by simp [Pairs.members])

theorem foldlM_add_table {top : Members} {tables : List (String × Members)} {name : String}
    (members : Members) {pairs : Pairs} (h : (members.map (·.1) ++ pairs.keys).Nodup)
    : pairs.lines.foldlM add ⟨top, (name, members) :: tables⟩ =
        some ⟨top, (name, members ++ pairs.members) :: tables⟩ := by
  induction pairs generalizing members with
  | nil => simp [Pairs.lines, Pairs.members]
  | cons p pairs ih =>
    have hkey : members.lookup p.1 = none := by
      apply lookup_eq_none
      intro hmem
      exact List.nodup_append.mp h |>.2.2 _ hmem _ List.mem_cons_self rfl
    have hadd : add ⟨top, (name, members) :: tables⟩ (.pair p.1 p.2.node) =
        some ⟨top, (name, members ++ [(p.1, p.2.node)]) :: tables⟩ := by
      simp [add, hkey]
    have hrest := ih (members ++ [(p.1, p.2.node)]) (by simpa [Pairs.keys] using h)
    rw [Pairs.lines, List.map_cons, List.foldlM_cons, hadd]
    exact hrest.trans (by simp [Pairs.members])

theorem foldlM_add_tables {top : Members} {name : String} (hname : name ∉ top.map (·.1))
    {tables : List Pairs} (h : ∀ pairs ∈ tables, pairs.keys.Nodup)
    (before : List (String × Members))
    : (tables.flatMap fun pairs => .header name :: pairs.lines).foldlM add ⟨top, before⟩ =
        some ⟨top, (tables.map fun pairs => (name, pairs.members)).reverse ++ before⟩ := by
  induction tables generalizing before with
  | nil => simp
  | cons pairs tables ih =>
    rw [List.forall_mem_cons] at h
    have hadd : add ⟨top, before⟩ (.header name) = some ⟨top, (name, []) :: before⟩ := by
      simp [add, lookup_eq_none hname]
    have hpairs : pairs.lines.foldlM add ⟨top, (name, []) :: before⟩ =
        some ⟨top, (name, pairs.members) :: before⟩ :=
      foldlM_add_table [] (by simpa using h.1)
    rw [List.flatMap_cons, List.cons_append, List.foldlM_cons, hadd]
    rw [Option.bind_eq_bind, Option.bind_some, List.foldlM_append, hpairs, Option.bind_eq_bind,
      Option.bind_some, ih h.2]
    simp

theorem members_of_tables {top : Members} {name : String} {tables : List Members} (h : tables ≠ [])
    : members ⟨top, (tables.map (name, ·)).reverse⟩ =
        top ++ [(name, .array (tables.map .table))] := by
  have hnames : ((tables.map (name, ·)).map (·.1)).eraseDups = [name] := by
    obtain ⟨table, tables, rfl⟩ := List.exists_cons_of_ne_nil h
    have hothers : ((tables.map (name, ·)).map (·.1)).filter (fun other => !other == name) =
        [] := by
      simp
    rw [List.map_cons, List.map_cons, List.eraseDups_cons, hothers]
    rfl
  have hfilter : (tables.map (name, ·)).filter (·.1 = name) = tables.map (name, ·) := by
    simp
  rw [members, List.reverse_reverse, hnames, List.map_singleton, hfilter, List.map_map]
  rfl

theorem foldlM_add_lines {d : Document} (h : d.Clear)
    : ∃ draft, d.lines.foldlM add ⟨[], []⟩ = some draft ∧ draft.members = d.members := by
  obtain ⟨-, -, -, htop, htables⟩ := h
  obtain ⟨top, name, tables⟩ := d
  have htop : (name :: top.keys).Nodup := htop
  cases tables with
  | nil =>
    have hkeys : (([] : Members).map (·.1) ++ Pairs.keys (top ++ [(name, .list [])])).Nodup := by
      have hperm : (top.keys ++ [name]).Perm (name :: top.keys) := List.perm_append_singleton name _
      rw [List.map_nil, List.nil_append, Pairs.keys, List.map_append]
      exact hperm.nodup_iff.mpr htop
    refine ⟨_, foldlM_add_top [] hkeys, ?_⟩
    simp [members, Document.members, Pairs.members, Value.node]
  | cons pairs tables =>
    obtain ⟨hname, htop⟩ := List.nodup_cons.mp htop
    have hname : name ∉ top.members.map (·.1) := by
      rwa [Pairs.members, List.map_map]
    have htop : top.lines.foldlM add ⟨[], []⟩ = some ⟨top.members, []⟩ :=
      foldlM_add_top [] htop
    have htables := foldlM_add_tables hname htables []
    have hreverse : (pairs :: tables).map (fun pairs => (name, pairs.members)) =
        ((pairs :: tables).map Pairs.members).map (name, ·) := by
      rw [List.map_map]
      rfl
    have hne : (pairs :: tables).map Pairs.members ≠ [] := List.cons_ne_nil _ _
    refine ⟨⟨top.members, (((pairs :: tables).map Pairs.members).map (name, ·)).reverse⟩, ?_, ?_⟩
    . rw [Document.lines, List.foldlM_append, htop, Option.bind_eq_bind, Option.bind_some]
      rw [htables, List.append_nil, hreverse]
    . rw [members_of_tables hne, List.map_map]
      rfl

end Draft

theorem read?_print {d : Document} (h : d.Clear) : read? d.print = some d.members := by
  obtain ⟨draft, hdraft, hmembers⟩ := Draft.foldlM_add_lines h
  rw [read?, Document.print, String.toList_ofList, Grammar.lines?_chars h, Option.bind_eq_bind,
    Option.bind_some, hdraft, Option.bind_eq_bind, Option.bind_some, hmembers]
  rfl

end RegistrySync.Toml
