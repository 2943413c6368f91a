import RegistrySync.Toml.Quoted

/-!
Reading TOML 1.0 documents by the rules of the grammar: keys, strings of all four forms, booleans,
arrays, arrays of tables, blanks and comments. A document with anything else (numbers, dates, inline
tables, dotted keys, single tables) is refused.
-/

namespace RegistrySync.Toml

inductive Node where
  | text (s : String)
  | bool (b : Bool)
  | array (items : List Node)
  | table (members : List (String × Node))

abbrev Members := List (String × Node)

namespace Quoted.Form

def quote : Form → Char
  | basic | multilineBasic => '"'
  | literal | multilineLiteral => '\''

def isMultiline : Form → Bool
  | basic | literal => false
  | multilineBasic | multilineLiteral => true

def hasEscapes : Form → Bool
  | basic | multilineBasic => true
  | literal | multilineLiteral => false

end Quoted.Form

namespace Grammar

open Quoted (Form)

/-! ### Blanks -/

def isBlank (c : Char) : Bool :=
  c = ' ' || c = '\t'

/-- What may stand for itself in strings and comments: of the control characters only the tab. -/
def isPlain (c : Char) : Bool :=
  c = '\t' || (32 ≤ c.toNat && c.toNat ≠ 127)

def newline? : List Char → Option (List Char)
  | '\n' :: rest => some rest
  | '\r' :: '\n' :: rest => some rest
  | _ => none

def comment : List Char → List Char
  | '#' :: rest => rest.dropWhile isPlain
  | cs => cs

/-- Blanks and line breaks. -/
def margin : List Char → List Char
  | '\n' :: rest => margin rest
  | '\r' :: '\n' :: rest => margin rest
  | c :: rest => if isBlank c then margin rest else c :: rest
  | [] => []

/-- Blanks, line breaks and comments. -/
def gap (isComment : Bool) : List Char → List Char
  | '\n' :: rest => gap false rest
  | '\r' :: '\n' :: rest => gap false rest
  | c :: rest =>
    if if isComment then isPlain c else isBlank c || c = '#' then
      gap (isComment || c = '#') rest
    else c :: rest
  | [] => []

/-! ### Strings -/

def letter? (c : Char) : Option Char :=
  if c = '"' ∨ c = '\\' then some c
  else if c = 'b' then some '\x08'
  else if c = 't' then some '\t'
  else if c = 'n' then some '\n'
  else if c = 'f' then some '\x0c'
  else if c = 'r' then some '\r'
  else none

/-- A character by the hexadecimal digits of its number; half of a surrogate pair is none. -/
def numbered? : Nat → Nat → List Char → Option (Char × List Char)
  | 0, n, cs =>
    if n < 0xD800 ∨ (0xDFFF < n ∧ n < 0x110000) then some (Char.ofNat n, cs) else none
  | digits + 1, n, c :: cs => do numbered? digits (16 * n + (← Hex.value? c)) cs
  | _ + 1, _, [] => none

def escaped? : List Char → Option (Char × List Char)
  | 'u' :: cs => numbered? 4 0 cs
  | 'U' :: cs => numbered? 8 0 cs
  | c :: cs => (letter? c).map (·, cs)
  | [] => none

/-- One character of the content of a string, or nothing if the line is continued on another. -/
def unit? (f : Form) : List Char → Option (List Char × List Char)
  | [] => none
  | c :: rest =>
    if c = '\\' ∧ f.hasEscapes then
      match if f.isMultiline then newline? (rest.dropWhile isBlank) else none with
      | some rest => some ([], margin rest)
      | none => (escaped? rest).map fun (c, rest) => ([c], rest)
    else if isPlain c then some ([c], rest)
    else if f.isMultiline then (newline? (c :: rest)).map (['\n'], ·)
    else none

/-- The quotes that end a string, and at most two more that belong to its content. -/
def close? (f : Form) (cs : List Char) : Option (List Char × List Char) :=
  let run := (cs.takeWhile (· = f.quote)).length
  if f.isMultiline then
    if run < 3 then none
    else some (List.replicate (min (run - 3) 2) f.quote, cs.drop (min (run - 3) 2 + 3))
  else if run = 0 then none
  else some ([], cs.drop 1)

def content? (f : Form) (cs : List Char) : Option (List Char × List Char) :=
  match close? f cs with
  | some stop => some stop
  | none =>
    match unit? f cs with
    | some (part, rest) =>
      if rest.length < cs.length then
        (content? f rest).map fun (parts, rest) => (part ++ parts, rest)
      else none
    | none => none
termination_by cs.length

/-- A line break right after the opening of a form with several lines is not part of the text. -/
def opening? : List Char → Option (Form × List Char)
  | '"' :: '"' :: '"' :: rest => some (.multilineBasic, (newline? rest).getD rest)
  | '\'' :: '\'' :: '\'' :: rest => some (.multilineLiteral, (newline? rest).getD rest)
  | '"' :: rest => some (.basic, rest)
  | '\'' :: rest => some (.literal, rest)
  | _ => none

def string? (cs : List Char) : Option (List Char × List Char) := do
  let (f, rest) ← opening? cs
  content? f rest

/-! ### Values -/

theorem length_gap_le (isComment : Bool) (cs : List Char)
    : (gap isComment cs).length ≤ cs.length := by
  fun_induction gap isComment cs with
  | case1 _ _ ih => exact Nat.le_succ_of_le ih
  | case2 _ _ ih => exact Nat.le_succ_of_le (Nat.le_succ_of_le ih)
  | case3 _ _ _ _ _ _ ih => exact Nat.le_succ_of_le ih
  | case4 => exact Nat.le_refl _
  | case5 => exact Nat.le_refl _

mutual

def value? (cs : List Char) : Option (Node × List Char) :=
  match cs with
  | 't' :: 'r' :: 'u' :: 'e' :: rest => some (.bool true, rest)
  | 'f' :: 'a' :: 'l' :: 's' :: 'e' :: rest => some (.bool false, rest)
  | '[' :: rest => (items? rest).map fun (items, rest) => (.array items, rest)
  | cs => (string? cs).map fun (s, rest) => (.text (String.ofList s), rest)
termination_by (cs.length, 0)

/-- The items of an array after its opening bracket or a comma. A comma may follow the last one. -/
def items? (cs : List Char) : Option (List Node × List Char) :=
  if (gap false cs).head? = some ']' then some ([], (gap false cs).tail)
  else
    match value? (gap false cs) with
    | some (item, rest) =>
      match gap false rest with
      | ',' :: rest =>
        if rest.length < cs.length then
          (items? rest).map fun (items, rest) => (item :: items, rest)
        else none
      | ']' :: rest => some ([item], rest)
      | _ => none
    | none => none
termination_by (cs.length, 1)
decreasing_by
  . have := length_gap_le false cs
    grind
  . grind

end

/-! ### Lines -/

inductive Line where
  | pair (key : String) (value : Node)
  | header (name : String)

def isBare (c : Char) : Bool :=
  c.isAlphanum || c = '-' || c = '_'

def key? (cs : List Char) : Option (String × List Char) :=
  match cs.takeWhile isBare with
  | [] => do
    let (f, rest) ← opening? cs
    if f.isMultiline then none
    let (name, rest) ← content? f rest
    return (String.ofList name, rest)
  | name => some (String.ofList name, cs.dropWhile isBare)

def pair? (cs : List Char) : Option (Line × List Char) := do
  let (key, rest) ← key? cs
  match rest.dropWhile isBlank with
  | '=' :: rest =>
    let (v, rest) ← value? (rest.dropWhile isBlank)
    return (.pair key v, rest)
  | _ => none

def header? (cs : List Char) : Option (Line × List Char) := do
  let (name, rest) ← key? (cs.dropWhile isBlank)
  match rest.dropWhile isBlank with
  | ']' :: ']' :: rest => return (.header name, rest)
  | _ => none

/-- What a line says, if it says anything. -/
def line? (cs : List Char) : Option (List Line × List Char) :=
  match cs.dropWhile isBlank with
  | [] => some ([], [])
  | '[' :: '[' :: rest => (header? rest).map fun (l, rest) => ([l], rest)
  | c :: rest =>
    if c = '#' ∨ (newline? (c :: rest)).isSome then some ([], c :: rest)
    else (pair? (c :: rest)).map fun (l, rest) => ([l], rest)

def lines? (cs : List Char) : Option (List Line) :=
  match line? cs with
  | some (said, rest) =>
    match comment (rest.dropWhile isBlank) with
    | [] => some said
    | rest =>
      match newline? rest with
      | some rest => if rest.length < cs.length then (lines? rest).map (said ++ ·) else none
      | none => none
  | none => none
termination_by cs.length

end Grammar

/-! ### Documents -/

/-- A document that is being read: the keys before the first header, and the tables of the headers,
the last one first. -/
structure Draft where
  top : Members
  tables : List (String × Members)

namespace Draft

/-- A key is given only once, and it does not name an array of tables too. -/
def add (d : Draft) : Grammar.Line → Option Draft
  | .header name =>
    if (d.top.lookup name).isSome then none else some { d with tables := (name, []) :: d.tables }
  | .pair key v =>
    match d.tables with
    | [] => if (d.top.lookup key).isSome then none else some { d with top := d.top ++ [(key, v)] }
    | (name, members) :: tables =>
      if (members.lookup key).isSome then none
      else some { d with tables := (name, members ++ [(key, v)]) :: tables }

def members (d : Draft) : Members :=
  let tables := d.tables.reverse
  d.top ++ (tables.map (·.1)).eraseDups.map fun name =>
    (name, .array ((tables.filter (·.1 = name)).map fun (_, members) => .table members))

end Draft

def read? (text : String) : Option Members := do
  let lines ← Grammar.lines? text.toList
  let draft ← lines.foldlM Draft.add ⟨[], []⟩
  return draft.members

end RegistrySync.Toml
