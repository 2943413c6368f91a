import RegistrySync.Text.Hex
import RegistrySync.Yaml.Text

/-!
Scalars of YAML documents: plain, quoted and block ones. Each is read one character at a time, with
the blanks and line breaks since the last other character kept aside until it is known what becomes
of them.
-/

namespace RegistrySync.Yaml

/-- Blanks on one line, or line breaks: the first and those after it. An escaped line break has no
first. Both are kept last first. -/
inductive Gap where
  | blanks (run : List Char)
  | breaks (first : Option Char) (others : List Char)

namespace Gap

def none : Gap := blanks []

def addBlank (c : Char) : Gap → Gap
  | blanks run => blanks (c :: run)
  | breaks first others => breaks first others

def addBreak (c : Char) : Gap → Gap
  | blanks _ => breaks (some c) []
  | breaks first others => breaks first (c :: others)

def hasBreak : Gap → Bool
  | blanks _ => false
  | breaks _ _ => true

def isNone : Gap → Bool
  | blanks run => run.isEmpty
  | breaks _ _ => false

/-- What a gap within a scalar stands for, last character first: a line feed alone is a space, and
one that others follow is nothing. -/
def fold : Gap → List Char
  | blanks run => run
  | breaks (some '\n') [] => [' ']
  | breaks (some '\n') others => others
  | breaks first others => others ++ first.toList

end Gap

def isFlowIndicator (c : Char) : Bool :=
  c = ',' || c = '[' || c = ']' || c = '\x7b' || c = '\x7d'

def endsPlain (inFlow : Bool) : List Char → Bool
  | ':' :: rest => isGap rest
  | c :: _ => inFlow && isFlowIndicator c
  | [] => true

/-- In a flow collection a colon may not stand before an indicator. -/
def isStrayColon (inFlow : Bool) : List Char → Bool
  | ':' :: c :: _ => inFlow && (isFlowIndicator c || c = '?')
  | _ => false

structure Scalar where
  content : List Char
  cursor : Cursor
  /-- Whether a line break has been passed after the last character. -/
  isLineOpen : Bool

/-- A plain scalar whose further lines are indented by `indent` columns at least. -/
def plain? (inFlow : Bool) (indent : Nat) (content : List Char) (gap : Gap) (p : Position) :
    List Char → Option Scalar
  | [] => some ⟨content.reverse, ⟨p, []⟩, gap.hasBreak⟩
  | c :: rest =>
    if isBreak c then plain? inFlow indent content (gap.addBreak c) (p.next c) rest
    else if isBlank c then
      if c = '\t' && gap.hasBreak && p.column < indent then none
      else plain? inFlow indent content (gap.addBlank c) (p.next c) rest
    else if (gap.hasBreak && !inFlow && p.column < indent)
        || Cursor.isDocumentMarker ⟨p, c :: rest⟩ || (c = '#' && !gap.isNone)
        || endsPlain inFlow (c :: rest) then
      some ⟨content.reverse, ⟨p, c :: rest⟩, gap.hasBreak⟩
    else if isStrayColon inFlow (c :: rest) then none
    else plain? inFlow indent (c :: gap.fold ++ content) .none (p.next c) rest

def escaped? (c : Char) : Option Char :=
  if c = '0' then some '\x00'
  else if c = 'a' then some '\x07'
  else if c = 'b' then some '\x08'
  else if c = 't' || c = '\t' then some '\t'
  else if c = 'n' then some '\n'
  else if c = 'v' then some '\x0b'
  else if c = 'f' then some '\x0c'
  else if c = 'r' then some '\r'
  else if c = 'e' then some '\x1b'
  else if c = ' ' || c = '"' || c = '/' || c = '\\' then some c
  else if c = 'N' then some '\u0085'
  else if c = '_' then some '\u00a0'
  else if c = 'L' then some '\u2028'
  else if c = 'P' then some '\u2029'
  else none

def escapeDigits? (c : Char) : Option Nat :=
  if c = 'x' then some 2 else if c = 'u' then some 4 else if c = 'U' then some 8 else none

def ofCodePoint? (n : Nat) : Option Char :=
  if n < 0xD800 ∨ (0xDFFF < n ∧ n < 0x110000) then some (Char.ofNat n) else none

/-- A single quote that is written twice is one quote. -/
def singleQuoted? (content : List Char) (gap : Gap) (p : Position) :
    List Char → Option Scalar
  | [] => none
  | c :: rest =>
    if isBreak c then singleQuoted? content (gap.addBreak c) (p.next c) rest
    else if isBlank c then singleQuoted? content (gap.addBlank c) (p.next c) rest
    else if Cursor.isDocumentMarker ⟨p, c :: rest⟩ then none
    else if c = '\'' then
      match rest with
      | '\'' :: rest =>
        singleQuoted? ('\'' :: gap.fold ++ content) .none ((p.next c).next c) rest
      | rest => some ⟨(gap.fold ++ content).reverse, ⟨p.next c, rest⟩, false⟩
    else singleQuoted? (c :: gap.fold ++ content) .none (p.next c) rest

inductive Escape where
  | none
  | begun
  | digits (left value : Nat)

def doubleQuoted? (content : List Char) (gap : Gap) (escape : Escape) (p : Position) :
    List Char → Option Scalar
  | [] => none
  | c :: rest =>
    match escape with
    | .begun =>
      if isBreak c then doubleQuoted? content (.breaks Option.none []) .none (p.next c) rest
      else match escaped? c, escapeDigits? c with
        | some x, _ => doubleQuoted? (x :: content) .none .none (p.next c) rest
        | _, some n => doubleQuoted? content .none (.digits n 0) (p.next c) rest
        | _, _ => Option.none
    | .digits left value => do
      let value := 16 * value + (← Hex.value? c)
      if left ≤ 1 then
        doubleQuoted? ((← ofCodePoint? value) :: content) .none .none (p.next c) rest
      else doubleQuoted? content .none (.digits (left - 1) value) (p.next c) rest
    | .none =>
      if isBreak c then doubleQuoted? content (gap.addBreak c) .none (p.next c) rest
      else if isBlank c then doubleQuoted? content (gap.addBlank c) .none (p.next c) rest
      else if Cursor.isDocumentMarker ⟨p, c :: rest⟩ then Option.none
      else if c = '"' then some ⟨(gap.fold ++ content).reverse, ⟨p.next c, rest⟩, false⟩
      else if c = '\\' then
        doubleQuoted? (gap.fold ++ content) .none .begun (p.next c) rest
      else doubleQuoted? (c :: gap.fold ++ content) .none .none (p.next c) rest

inductive Chomping where
  | strip
  | clip
  | keep
  deriving DecidableEq

structure Lines where
  first : Option Char
  others : List Char
  beganBlank : Bool

/-- What the line breaks before a further line stand for, last character first. In a folded scalar
two lines that begin with no blank are joined. -/
def Lines.joined (l : Lines) (isFolded beginsBlank : Bool) : List Char :=
  if isFolded && l.first = some '\n' && !l.beganBlank && !beginsBlank then
    if l.others.isEmpty then [' '] else l.others
  else l.others ++ l.first.toList

def Lines.chomped (l : Lines) : Chomping → List Char
  | .strip => []
  | .clip => l.first.toList
  | .keep => l.others ++ l.first.toList

/-- The indentation of a block scalar: given, or to be found from its first line with content. -/
inductive Indentation where
  | known (columns : Nat)
  /-- Not less than `least`, nor than the widest line so far. -/
  | unknown (least : Nat)

namespace Indentation

def isBefore (column : Nat) : Indentation → Bool
  | known columns => column < columns
  | unknown _ => true

def see (column : Nat) : Indentation → Indentation
  | known columns => known columns
  | unknown least => unknown (max least column)

def columns : Indentation → Nat
  | known columns => columns
  | unknown least => least

end Indentation

def block? (isFolded : Bool) (chomping : Chomping) (content : List Char) (lines : Lines)
    (indentation : Indentation) (inLine : Bool) (p : Position) : List Char → Option Scalar
  | [] => some ⟨(lines.chomped chomping ++ content).reverse, ⟨p, []⟩, true⟩
  | c :: rest =>
    if inLine then
      if isBreak c then
        block? isFolded chomping content { lines with first := some c } indentation false
          (p.next c) rest
      else block? isFolded chomping (c :: content) lines indentation true (p.next c) rest
    else if c = ' ' && indentation.isBefore p.column then
      block? isFolded chomping content lines indentation false (p.next c) rest
    else if c = '\t' && indentation.isBefore p.column then none
    else if isBreak c then
      block? isFolded chomping content { lines with others := c :: lines.others }
        (indentation.see p.column) false (p.next c) rest
    else
      let columns := (indentation.see p.column).columns
      if p.column = columns then
        block? isFolded chomping (c :: lines.joined isFolded (isBlank c) ++ content)
          ⟨none, [], isBlank c⟩ (.known columns) true (p.next c) rest
      else some ⟨(lines.chomped chomping ++ content).reverse, ⟨p, c :: rest⟩, true⟩

/-- The indicators after the one that begins a block scalar: a digit that gives the indentation and
a sign, in any order. -/
def blockHeader? (cs : List Char) : Option (Option Nat × Chomping × Nat) :=
  let sign? (c : Char) : Option Chomping :=
    if c = '+' then some .keep else if c = '-' then some .strip else none
  let digit? (c : Char) : Option Nat :=
    if '0' ≤ c ∧ c ≤ '9' then some (c.toNat - 48) else none
  let header : Option Nat × Chomping × Nat :=
    match cs.head?.bind sign?, cs.head?.bind digit? with
    | some chomping, _ =>
      match (cs.drop 1).head?.bind digit? with
      | some n => (some n, chomping, 2)
      | none => (none, chomping, 1)
    | none, some n =>
      match (cs.drop 1).head?.bind sign? with
      | some chomping => (some n, chomping, 2)
      | none => (some n, .clip, 1)
    | none, none => (none, .clip, 0)
  if header.1 = some 0 then none else some header

/-- A block scalar after the indicator that begins it. `parent` is the least indentation of
anything inside the collection around it. -/
def blockScalar? (isFolded : Bool) (parent : Nat) (c : Cursor) : Option Scalar := do
  let (indent, chomping, length) ← blockHeader? c.rest
  let c ← (c.skip length).finishLine?
  let indentation := match indent with
    | some n => Indentation.known (parent - 1 + n)
    | none => .unknown (max parent 1)
  block? isFolded chomping [] ⟨none, [], false⟩ indentation false c.position c.rest

end RegistrySync.Yaml
