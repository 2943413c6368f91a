/-!
Text of YAML documents: which characters it may hold, which of them are blanks and line breaks, and
where in the text one stands.
-/

namespace RegistrySync.Yaml

/-- Of the control characters only tabs and line breaks may stand in a document. -/
def isAllowed (c : Char) : Bool :=
  c = '\t' || c = '\n' || c = '\r' || c = '\u0085'
    || (0x20 ≤ c.toNat && c.toNat ≤ 0x7E) || (0xA0 ≤ c.toNat && c.toNat ≤ 0xD7FF)
    || (0xE000 ≤ c.toNat && c.toNat ≤ 0xFFFD) || 0x10000 ≤ c.toNat

/-- Line and paragraph separators are line breaks that folding keeps. -/
def isBreak (c : Char) : Bool :=
  c = '\n' || c = '\u2028' || c = '\u2029'

def isBlank (c : Char) : Bool := c = ' ' || c = '\t'

def isGap : List Char → Bool
  | [] => true
  | c :: _ => isBlank c || isBreak c

def isLineEnd : List Char → Bool
  | [] => true
  | c :: _ => isBreak c

def isNameChar (c : Char) : Bool :=
  ('0' ≤ c && c ≤ '9') || ('A' ≤ c && c ≤ 'Z') || ('a' ≤ c && c ≤ 'z') || c = '_' || c = '-'

/-- All line breaks but the separators become line feeds. -/
def unifyBreaks : List Char → List Char
  | '\r' :: '\n' :: rest => '\n' :: unifyBreaks rest
  | '\r' :: rest => '\n' :: unifyBreaks rest
  | '\u0085' :: rest => '\n' :: unifyBreaks rest
  | c :: rest => c :: unifyBreaks rest
  | [] => []

def byteOrderMark : Char := '\uFEFF'

def prepare? (cs : List Char) : Option (List Char) :=
  if cs.all isAllowed then
    some (unifyBreaks (if cs.head? = some byteOrderMark then cs.drop 1 else cs))
  else none

structure Position where
  line : Nat
  column : Nat
  index : Nat
  deriving DecidableEq, Repr

structure Cursor where
  position : Position
  rest : List Char
  deriving DecidableEq, Repr

def Position.start : Position := ⟨0, 0, 0⟩

def Position.next (p : Position) (c : Char) : Position :=
  if isBreak c then ⟨p.line + 1, 0, p.index + 1⟩ else ⟨p.line, p.column + 1, p.index + 1⟩

namespace Cursor

def column (c : Cursor) : Nat := c.position.column

def next? (c : Cursor) : Option (Char × Cursor) :=
  match c.rest with
  | [] => none
  | x :: rest => some (x, ⟨c.position.next x, rest⟩)

def skip : Nat → Cursor → Cursor
  | 0, c => c
  | n + 1, ⟨p, x :: rest⟩ => skip n ⟨p.next x, rest⟩
  | _, c => c

def span (p : Char → Bool) (c : Cursor) : List Char × Cursor :=
  let run := c.rest.takeWhile p
  (run, c.skip run.length)

def dropWhile (p : Char → Bool) (c : Cursor) : Cursor := (c.span p).2

/-- Three equal characters that begin a line stand for a document's begin or end. -/
def isMarker (mark : Char) (c : Cursor) : Bool :=
  c.column = 0 && match c.rest with
    | x :: y :: z :: rest => x = mark && y = mark && z = mark && isGap rest
    | _ => false

def isDocumentMarker (c : Cursor) : Bool := c.isMarker '-' || c.isMarker '.'

/-- Passes over blanks and a comment up to the end of the line, which has to follow. -/
def finishLine? (c : Cursor) : Option Cursor :=
  let c := c.dropWhile isBlank
  let c := if c.rest.head? = some '#' then c.dropWhile fun x => !isBreak x else c
  if isLineEnd c.rest then some (c.skip 1) else none

end Cursor
end RegistrySync.Yaml
