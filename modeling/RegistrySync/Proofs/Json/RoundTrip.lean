import RegistrySync.Json.Document
import RegistrySync.Json.Tree
import RegistrySync.Proofs.Sequence
import RegistrySync.Proofs.Text.Hex

/-!
A printed JSON document is read back. The characters of each part of a document are lexed to the
tokens of the part, whatever follows them, and the tokens of a value put that value in its place.
-/

namespace RegistrySync.Json

namespace Token

theorem lexFrom_cons (s : State) (c : Char) (rest : List Char)
    : lexFrom s (c :: rest) =
        (step s c).bind fun (ts, s) => (lexFrom s rest).map (ts ++ ·) := by
  rw [lexFrom]
  cases step s c with
  | none => rfl
  | some next => cases h : lexFrom next.2 rest <;> simp [h]

theorem lexFrom_of_silent {s u : State} {c : Char} (h : step s c = some ([], u))
    (rest : List Char) : lexFrom s (c :: rest) = lexFrom u rest := by
  rw [lexFrom_cons, h]
  simp

theorem lexFrom_of_token {s u : State} {c : Char} {t : Token} (h : step s c = some ([t], u))
    (rest : List Char) : lexFrom s (c :: rest) = (lexFrom u rest).map (t :: ·) := by
  rw [lexFrom_cons, h]
  simp

/-! ### Between tokens -/

/-- The characters are those of the tokens, and what follows them does not matter. -/
def Spell (cs : List Char) (ts : List Token) : Prop :=
  ∀ rest, lexFrom .between (cs ++ rest) = (lexFrom .between rest).map (ts ++ ·)

theorem Spell.nil : Spell [] [] := by
  intro rest
  simp

theorem Spell.append {cs ds : List Char} {ts us : List Token} (h : Spell cs ts)
    (h' : Spell ds us) : Spell (cs ++ ds) (ts ++ us) := by
  intro rest
  rw [List.append_assoc, h, h', Option.map_map]
  congr 1
  funext vs
  simp

theorem Spell.append_silent {cs ds : List Char} {ts : List Token} (h : Spell cs ts)
    (h' : Spell ds []) : Spell (cs ++ ds) ts := by
  rw [← ts.append_nil]
  exact h.append h'

theorem Spell.lex_eq {cs : List Char} {ts : List Token} (h : Spell cs ts)
    : lex cs = some ts := by
  rw [lex, ← cs.append_nil, h, lexFrom, finish, Option.map_some, List.append_nil]

theorem spell_punctuation {c : Char} {t : Token} (h : ofPunctuation? c = some t)
    : Spell [c] [t] := by
  intro rest
  apply lexFrom_of_token
  simp [step, begin, h]

theorem spell_blank {c : Char} (hblank : isBlank c = true) (h : ofPunctuation? c = none)
    : Spell [c] [] := by
  intro rest
  rw [List.singleton_append, lexFrom_of_silent (u := .between)]
  . simp
  . simp [step, begin, h, hblank]

theorem spell_newline (depth : Nat) : Spell (Tree.newline depth) [] := by
  have hspaces : ∀ n, Spell (List.replicate n ' ') [] := by
    intro n
    induction n with
    | zero => exact .nil
    | succ n ih => exact (spell_blank (c := ' ') (by decide) (by decide)).append ih
  exact (spell_blank (c := '\n') (by decide) (by decide)).append (hspaces _)

/-! ### Texts -/

namespace Open

/-- What has been read of a text so far, with nothing wrong about it. -/
def ofChars (cs : List Char) : Open :=
  ⟨cs.reverse, true, none⟩

theorem push_ofChars (cs : List Char) (c : Char) : (ofChars cs).push c = ofChars (cs ++ [c]) := by
  simp [push, ofChars]

theorem pushUnit_ofChars (cs : List Char) {c : Char} (h : c.toNat < 32)
    : (ofChars cs).pushUnit c.toNat = ofChars (cs ++ [c]) := by
  have hhigh : ¬ (0xD800 ≤ c.toNat ∧ c.toNat < 0xDC00) := by omega
  have hlow : ¬ (0xDC00 ≤ c.toNat ∧ c.toNat < 0xE000) := by omega
  simp [pushUnit, ofChars, hhigh, hlow]

theorem close_ofChars (cs : List Char) : (ofChars cs).close = .text (some (String.ofList cs)) := by
  simp [close, ofChars]

end Open

theorem lexFrom_escaped (cs : List Char) {c d : Char} (hu : c ≠ 'u') (h : ofEscape? c = some d)
    (rest : List Char)
    : lexFrom (.text (.ofChars cs)) ('\\' :: c :: rest) =
        lexFrom (.text (.ofChars (cs ++ [d]))) rest := by
  rw [lexFrom_of_silent (u := .escape (.ofChars cs)) (by simp [step])]
  apply lexFrom_of_silent
  simp [step, hu, h, Open.push_ofChars]

/-- A character below the space that has no escape of its own is written as its number. -/
theorem lexFrom_unit (cs : List Char) {c : Char} (h : c.toNat < 32) (rest : List Char)
    : lexFrom (.text (.ofChars cs))
          ('\\' :: 'u' :: '0' :: '0' :: Hex.lower (c.toNat / 16) :: Hex.lower (c.toNat % 16) ::
            rest) =
        lexFrom (.text (.ofChars (cs ++ [c]))) rest := by
  have hzero : Hex.value? '0' = some 0 := by decide
  have hhigh : Hex.value? (Hex.lower (c.toNat / 16)) = some (c.toNat / 16) :=
    Hex.value?_lower (by omega)
  have hlow : Hex.value? (Hex.lower (c.toNat % 16)) = some (c.toNat % 16) :=
    Hex.value?_lower (by omega)
  have hnumber : 16 * (c.toNat / 16) + c.toNat % 16 = c.toNat := by omega
  rw [lexFrom_of_silent (u := .escape (.ofChars cs)) (by simp [step]),
    lexFrom_of_silent (u := .unit (.ofChars cs) 0 0) (by simp [step]),
    lexFrom_of_silent (u := .unit (.ofChars cs) 1 0) (by simp [step, hzero]),
    lexFrom_of_silent (u := .unit (.ofChars cs) 2 0) (by simp [step, hzero]),
    lexFrom_of_silent (u := .unit (.ofChars cs) 3 (c.toNat / 16)) (by simp [step, hhigh])]
  apply lexFrom_of_silent
  simp [step, hlow, hnumber, Open.pushUnit_ofChars cs h]

/-- The characters that are written with one letter after a backslash, and their letters. -/
def lettered : List (Char × Char) :=
  [('"', '"'), ('\\', '\\'), ('\x08', 'b'), ('\x0c', 'f'), ('\n', 'n'), ('\r', 'r'), ('\t', 't')]

theorem escape_of_lettered
    : ∀ p ∈ lettered, Tree.escape p.1 = ['\\', p.2] ∧ ofEscape? p.2 = some p.1 ∧ p.2 ≠ 'u' := by
  decide

theorem lexFrom_escape (cs : List Char) (c : Char) (rest : List Char)
    : lexFrom (.text (.ofChars cs)) (Tree.escape c ++ rest) =
        lexFrom (.text (.ofChars (cs ++ [c]))) rest := by
  by_cases hlettered : c ∈ lettered.map (·.1)
  . obtain ⟨p, hp, rfl⟩ := List.mem_map.mp hlettered
    obtain ⟨hescape, hletter, hu⟩ := escape_of_lettered p hp
    rw [hescape]
    exact lexFrom_escaped cs hu hletter rest
  . simp only [lettered, List.map_cons, List.map_nil, List.mem_cons, List.not_mem_nil, or_false,
      not_or] at hlettered
    by_cases hspace : c.toNat < 32
    . simp only [Tree.escape, hlettered, hspace, if_true, if_false]
      exact lexFrom_unit cs hspace rest
    . simp only [Tree.escape, hlettered, hspace, if_false]
      apply lexFrom_of_silent
      simp [step, hlettered, hspace, Open.push_ofChars]

theorem lexFrom_flatMap_escape (cs s rest : List Char)
    : lexFrom (.text (.ofChars cs)) (s.flatMap Tree.escape ++ rest) =
        lexFrom (.text (.ofChars (cs ++ s))) rest := by
  induction s generalizing cs with
  | nil => simp
  | cons c s ih =>
    rw [List.flatMap_cons, List.append_assoc, lexFrom_escape, ih, List.append_assoc,
      List.singleton_append]

theorem spell_quote (s : String) : Spell (Tree.quote s) [.text (some s)] := by
  intro rest
  rw [Tree.quote, List.append_assoc, List.cons_append,
    lexFrom_of_silent (u := .text (.ofChars [])) rfl, lexFrom_flatMap_escape]
  apply lexFrom_of_token
  simp [step, Open.close_ofChars]

end Token

/-! ### Documents -/

namespace Tree

mutual

def tokens : Tree → List Token
  | text s => [.text (some s)]
  | list [] => [.openBracket, .closeBracket]
  | list (item :: rest) => [.openBracket] ++ item.tokens ++ itemTokens rest ++ [.closeBracket]
  | record [] => [.openBrace, .closeBrace]
  | record ((name, t) :: rest) =>
    [.openBrace, .text (some name), .colon] ++ t.tokens ++ memberTokens rest ++ [.closeBrace]

def itemTokens : List Tree → List Token
  | [] => []
  | item :: rest => [.comma] ++ item.tokens ++ itemTokens rest

def memberTokens : List (String × Tree) → List Token
  | [] => []
  | (name, t) :: rest => [.comma, .text (some name), .colon] ++ t.tokens ++ memberTokens rest

end

section

open Token

theorem spell_name (s : String) : Spell (quote s ++ [':', ' ']) [.text (some s), .colon] :=
  (spell_quote s).append ((spell_punctuation (c := ':') (by decide)).append_silent
    (spell_blank (c := ' ') (by decide) (by decide)))

mutual

theorem spell_chars (depth : Nat) : (t : Tree) → Spell (t.chars depth) t.tokens
  | text s => spell_quote s
  | list [] =>
    (spell_punctuation (c := '[') (by decide)).append (spell_punctuation (c := ']') (by decide))
  | list (item :: rest) => by
    have hopen : Spell ('[' :: newline (depth + 1)) [.openBracket] :=
      (spell_punctuation (by decide)).append_silent (spell_newline (depth + 1))
    rw [chars, tokens]
    apply Spell.append
    . apply Spell.append_silent
      . exact (hopen.append (spell_chars _ item)).append (spell_itemChars _ rest)
      . exact spell_newline depth
    . exact spell_punctuation (by decide)
  | record [] =>
    (spell_punctuation (c := '\x7b') (by decide)).append
      (spell_punctuation (c := '\x7d') (by decide))
  | record ((name, t) :: rest) => by
    have hopen : Spell ('\x7b' :: newline (depth + 1)) [.openBrace] :=
      (spell_punctuation (by decide)).append_silent (spell_newline (depth + 1))
    rw [chars, tokens, List.append_assoc _ (quote name)]
    apply Spell.append
    . apply Spell.append_silent
      . exact ((hopen.append (spell_name name)).append (spell_chars _ t)).append
          (spell_memberChars _ rest)
      . exact spell_newline depth
    . exact spell_punctuation (by decide)

theorem spell_itemChars (depth : Nat)
    : (items : List Tree) → Spell (itemChars depth items) (itemTokens items)
  | [] => .nil
  | item :: rest => by
    have hcomma : Spell (',' :: newline depth) [.comma] :=
      (spell_punctuation (by decide)).append_silent (spell_newline depth)
    rw [itemChars, itemTokens]
    exact (hcomma.append (spell_chars depth item)).append (spell_itemChars depth rest)

theorem spell_memberChars (depth : Nat)
    : (members : List (String × Tree)) → Spell (memberChars depth members) (memberTokens members)
  | [] => .nil
  | (name, t) :: rest => by
    have hcomma : Spell (',' :: newline depth) [.comma] :=
      (spell_punctuation (by decide)).append_silent (spell_newline depth)
    rw [memberChars, memberTokens, List.append_assoc _ (quote name)]
    exact ((hcomma.append (spell_name name)).append (spell_chars depth t)).append
      (spell_memberChars depth rest)

end

end

mutual

def value : Tree → Value
  | text s => .text s
  | list items => .array (itemValues items)
  | record members => .object (memberValues members)

def itemValues : List Tree → List Value
  | [] => []
  | item :: rest => item.value :: itemValues rest

def memberValues : List (String × Tree) → List (String × Value)
  | [] => []
  | (name, t) :: rest => (name, t.value) :: memberValues rest

end

theorem itemValues_eq_map (items : List Tree) : itemValues items = items.map value := by
  induction items with
  | nil => rfl
  | cons item rest ih => rw [itemValues, ih, List.map_cons]

theorem memberValues_eq_map (members : List (String × Tree))
    : memberValues members = members.map fun (name, t) => (name, t.value) := by
  induction members with
  | nil => rfl
  | cons member rest ih => rw [memberValues, ih, List.map_cons]

end Tree

namespace Reader

def named (members : List (String × Value)) : List (Option String × Value) :=
  members.map fun member => (some member.1, member.2)

theorem ofMembers_named (members : List (String × Value))
    : ofMembers (named members) = .object members := by
  rw [ofMembers, named, Sequence.mapM_map_eq_some]
  exact fun _ => rfl

/-- The tokens take one reader to the other. -/
def Leads (ts : List Token) (r s : Reader) : Prop :=
  ts.foldlM step r = some s

theorem Leads.append {ts us : List Token} {r s q : Reader} (h : Leads ts r s)
    (h' : Leads us s q) : Leads (ts ++ us) r q := by
  rw [Leads, List.foldlM_append, h]
  exact h'

/-- A reader inside an open array or object whose last part is complete. -/
def between (frame : Frame) (below : List Frame) (result : Value) : Reader :=
  ⟨.separator, frame :: below, result⟩

section

variable {r : Reader} (hr : r.expected = .value ∨ r.expected = .firstItem)
include hr

theorem leads_text (s : String) : Leads [.text (some s)] r (r.put (.text s)) := by
  rcases r with ⟨expected, stack, result⟩
  rcases hr with rfl | rfl <;> rfl

theorem leads_openBracket
    : Leads [.openBracket] r ⟨.firstItem, .array [] :: r.stack, r.result⟩ := by
  rcases r with ⟨expected, stack, result⟩
  rcases hr with rfl | rfl <;> rfl

theorem leads_openBrace
    : Leads [.openBrace] r ⟨.firstName, .object [] none :: r.stack, r.result⟩ := by
  rcases r with ⟨expected, stack, result⟩
  rcases hr with rfl | rfl <;> rfl

end

theorem leads_closeBracket (items : List Value) (r : Reader)
    : Leads [.closeBracket] (between (.array items.reverse) r.stack r.result)
        (r.put (.array items)) := by
  change some (r.put (.array items.reverse.reverse)) = _
  rw [List.reverse_reverse]

theorem leads_closeBrace (members : List (String × Value)) (r : Reader)
    : Leads [.closeBrace] (between (.object (named members).reverse none) r.stack r.result)
        (r.put (.object members)) := by
  change some (r.put (ofMembers (named members).reverse.reverse)) = _
  rw [List.reverse_reverse, ofMembers_named]

open Json.Tree

mutual

/-- The tokens of a value put it where the reader stands. -/
theorem leads_tokens {r : Reader} (hr : r.expected = .value ∨ r.expected = .firstItem)
    : (t : Tree) → Leads t.tokens r (r.put t.value)
  | .text s => leads_text hr s
  | .list [] => (leads_openBracket hr).append rfl
  | .list (item :: rest) => by
    have hitem : Leads item.tokens ⟨.firstItem, .array [] :: r.stack, r.result⟩
        (between (.array [item.value]) r.stack r.result) := leads_tokens (.inr rfl) item
    have hrest : Leads (itemTokens rest) (between (.array [item.value]) r.stack r.result)
        (between (.array (itemValues (item :: rest)).reverse) r.stack r.result) :=
      leads_itemTokens [item.value] r.stack r.result rest
    rw [tokens]
    exact (((leads_openBracket hr).append hitem).append hrest).append (leads_closeBracket _ r)
  | .record [] => (leads_openBrace hr).append rfl
  | .record ((name, t) :: rest) => by
    have ht : Leads t.tokens ⟨.value, .object [] (some name) :: r.stack, r.result⟩
        (between (.object [(some name, t.value)] none) r.stack r.result) :=
      leads_tokens (.inl rfl) t
    have hrest : Leads (memberTokens rest)
        (between (.object [(some name, t.value)] none) r.stack r.result)
        (between (.object (named (memberValues ((name, t) :: rest))).reverse none) r.stack
          r.result) :=
      leads_memberTokens [(some name, t.value)] r.stack r.result rest
    have hname : Leads [.text (some name), .colon]
        ⟨.firstName, .object [] none :: r.stack, r.result⟩
        ⟨.value, .object [] (some name) :: r.stack, r.result⟩ := rfl
    rw [tokens]
    exact ((((leads_openBrace hr).append hname).append ht).append hrest).append
      (leads_closeBrace _ r)

/-- What has been read of an array stands last first. -/
theorem leads_itemTokens (read : List Value) (below : List Frame) (result : Value)
    : (items : List Tree) → Leads (itemTokens items) (between (.array read) below result)
        (between (.array ((itemValues items).reverseAux read)) below result)
  | [] => rfl
  | item :: rest => by
    have hcomma : Leads [.comma] (between (.array read) below result)
        ⟨.value, .array read :: below, result⟩ := rfl
    have hitem := leads_tokens (r := ⟨.value, .array read :: below, result⟩) (.inl rfl) item
    have hrest := leads_itemTokens (item.value :: read) below result rest
    rw [itemTokens]
    exact (hcomma.append hitem).append hrest

theorem leads_memberTokens (read : List (Option String × Value)) (below : List Frame)
    (result : Value)
    : (members : List (String × Tree)) →
        Leads (memberTokens members) (between (.object read none) below result)
          (between (.object ((named (memberValues members)).reverseAux read) none) below result)
  | [] => rfl
  | (name, t) :: rest => by
    have hname : Leads [.comma, .text (some name), .colon]
        (between (.object read none) below result)
        ⟨.value, .object read (some name) :: below, result⟩ := rfl
    have ht := leads_tokens (r := ⟨.value, .object read (some name) :: below, result⟩) (.inl rfl) t
    have hrest := leads_memberTokens ((some name, t.value) :: read) below result rest
    rw [memberTokens]
    exact (hname.append ht).append hrest

end

end Reader

theorem parse?_print (t : Tree) : parse? t.print = some t.value := by
  have hlex : Token.lex t.print.toList = some t.tokens := by
    rw [Tree.print, String.toList_ofList]
    exact (Tree.spell_chars 0 t).lex_eq
  have hread : t.tokens.foldlM Reader.step Reader.start = some (Reader.start.put t.value) :=
    Reader.leads_tokens (.inl rfl) t
  rw [parse?, hlex, Option.bind_eq_bind, Option.bind_some, hread]
  rfl

end RegistrySync.Json
