import RegistrySync.Yaml.Scalar
import RegistrySync.Yaml.Token

/-!
Tokens of a YAML text. Whether something is a key shows only at the colon after it, so the lexer
remembers for each open flow collection, and for the block around them, where a key may have begun,
and puts the key's token there when the colon comes. Indentation opens and closes block collections.
-/

namespace RegistrySync.Yaml

/-- Where a key may have begun: how many tokens there were before it, and whether nothing but a key
can stand there. -/
structure PossibleKey where
  tokenCount : Nat
  position : Position
  isRequired : Bool

structure Lexer where
  cursor : Cursor
  tokens : Array Token
  /-- The columns of the open block collections, innermost first. -/
  indents : List Nat
  /-- The possible key of the innermost collection. -/
  key : Option PossibleKey
  /-- Those of the collections around it; there are as many as open flow collections. -/
  outerKeys : List (Option PossibleKey)
  isKeyAllowed : Bool

namespace Lexer

def start (cs : List Char) : Lexer :=
  ⟨⟨.start, cs⟩, #[], [], none, [], true⟩

def inFlow (l : Lexer) : Bool := !l.outerKeys.isEmpty

/-- The least column of what is inside the innermost block collection. -/
def leastIndent (l : Lexer) : Nat :=
  match l.indents with
  | [] => 0
  | column :: _ => column + 1

def add (l : Lexer) (t : Token) : Lexer :=
  { l with tokens := l.tokens.push t }

def insert (l : Lexer) (count : Nat) (t : Token) : Lexer :=
  { l with tokens := l.tokens.insertIdxIfInBounds count t }

/-- A key must be on one line and shorter than 1025 characters. -/
def isStale (now : Position) (k : PossibleKey) : Bool :=
  k.position.line < now.line || k.position.index + 1024 < now.index

def refreshKey? (now : Position) : Option PossibleKey → Option (Option PossibleKey)
  | none => some none
  | some k => if isStale now k then if k.isRequired then none else some none else some (some k)

def refreshKeys? (l : Lexer) : Option Lexer := do
  return { l with
    key := ← refreshKey? l.cursor.position l.key
    outerKeys := ← l.outerKeys.mapM (refreshKey? l.cursor.position) }

def dropKey? (l : Lexer) : Option Lexer :=
  if l.key.any (·.isRequired) then none else some { l with key := none }

def saveKey? (l : Lexer) : Option Lexer :=
  if l.isKeyAllowed then do
    let isRequired := !l.inFlow && l.indents.head? = some l.cursor.column
    return { ← l.dropKey? with key := some ⟨l.tokens.size, l.cursor.position, isRequired⟩ }
  else some l

def indent (l : Lexer) (column count : Nat) (t : Token) : Lexer :=
  if l.inFlow || column < l.leastIndent then l
  else { l.insert count t with indents := column :: l.indents }

def dedent (l : Lexer) (isBeyond : Nat → Bool) : Lexer :=
  if l.inFlow then l
  else
    let closed := (l.indents.takeWhile isBeyond).length
    { l with
      tokens := l.tokens ++ Array.replicate closed Token.blockEnd
      indents := l.indents.drop closed }

def dedentAll (l : Lexer) : Lexer := l.dedent fun _ => true

/-- Passes over what separates tokens. Tabs do so only where no key can begin. -/
def passGap (inFlow : Bool) (inComment isKeyAllowed : Bool) (p : Position) :
    List Char → Cursor × Bool
  | [] => (⟨p, []⟩, isKeyAllowed)
  | c :: rest =>
    if isBreak c then passGap inFlow false (isKeyAllowed || !inFlow) (p.next c) rest
    else if inComment || c = ' ' || (c = '\t' && (inFlow || !isKeyAllowed))
        || (c = byteOrderMark && p.index = 0) then
      passGap inFlow inComment isKeyAllowed (p.next c) rest
    else if c = '#' then passGap inFlow true isKeyAllowed (p.next c) rest
    else (⟨p, c :: rest⟩, isKeyAllowed)

def skipGap (l : Lexer) : Lexer :=
  let (cursor, isKeyAllowed) :=
    passGap l.inFlow false l.isKeyAllowed l.cursor.position l.cursor.rest
  { l with cursor, isKeyAllowed }

def take (l : Lexer) (length : Nat) (t : Token) : Lexer :=
  { l.add t with cursor := l.cursor.skip length }

def marker? (l : Lexer) (t : Token) : Option Lexer := do
  return { ← l.dedentAll.dropKey? with isKeyAllowed := false }.take 3 t

def openFlow? (l : Lexer) (t : Token) : Option Lexer := do
  let l ← l.saveKey?
  return { l with key := none, outerKeys := l.key :: l.outerKeys, isKeyAllowed := true }.take 1 t

/-- Outside of all flow collections there is none to close, which the grammar finds out. -/
def closeFlow? (l : Lexer) (t : Token) : Option Lexer := do
  let l ← l.dropKey?
  let l := match l.outerKeys with
    | key :: outerKeys => { l with key, outerKeys }
    | [] => l
  return { l with isKeyAllowed := false }.take 1 t

def flowEntry? (l : Lexer) : Option Lexer := do
  return { ← l.dropKey? with isKeyAllowed := true }.take 1 .flowEntry

def blockEntry? (l : Lexer) : Option Lexer := do
  if !l.inFlow && !l.isKeyAllowed then none
  let l := l.indent l.cursor.column l.tokens.size .blockSequenceStart
  return { ← l.dropKey? with isKeyAllowed := true }.take 1 .blockEntry

def explicitKey? (l : Lexer) : Option Lexer := do
  if !l.inFlow && !l.isKeyAllowed then none
  let l := l.indent l.cursor.column l.tokens.size .blockMappingStart
  return { ← l.dropKey? with isKeyAllowed := !l.inFlow }.take 1 .key

def value? (l : Lexer) : Option Lexer :=
  match l.key with
  | some k =>
    let l := (l.insert k.tokenCount .key).indent k.position.column k.tokenCount .blockMappingStart
    some ({ l with key := none, isKeyAllowed := false }.take 1 .value)
  | none =>
    if !l.inFlow && !l.isKeyAllowed then none
    else
      let l := l.indent l.cursor.column l.tokens.size .blockMappingStart
      some ({ l with isKeyAllowed := !l.inFlow }.take 1 .value)

def property? (l : Lexer) (read : Cursor → Option (Token × Cursor)) : Option Lexer := do
  let l ← l.saveKey?
  let (t, cursor) ← read l.cursor
  return { l.add t with cursor, isKeyAllowed := false }

def named (make : List Char → Token) (c : Cursor) : Option (Token × Cursor) := do
  let (name, c) ← anchorName? (c.skip 1)
  return (make name, c)

def scalar (l : Lexer) (form : ScalarForm) (s : Scalar) : Lexer :=
  { l.add (.scalar form s.content) with cursor := s.cursor, isKeyAllowed := s.isLineOpen }

def quoted? (l : Lexer) (read : Position → List Char → Option Scalar) : Option Lexer := do
  let l ← l.saveKey?
  let c := l.cursor.skip 1
  return l.scalar .quoted (← read c.position c.rest)

def plainScalar? (l : Lexer) : Option Lexer := do
  let l ← l.saveKey?
  return l.scalar .plain (← plain? l.inFlow l.leastIndent [] .none l.cursor.position l.cursor.rest)

def blockScalar? (l : Lexer) (isFolded : Bool) : Option Lexer := do
  let l ← l.dropKey?
  return l.scalar (if isFolded then .quoted else .literal)
    (← Yaml.blockScalar? isFolded l.leastIndent (l.cursor.skip 1))

def directive? (l : Lexer) : Option Lexer := do
  let l ← l.dedentAll.dropKey?
  let (t, cursor) ← Yaml.directive? (l.cursor.skip 1)
  return { l.add t with cursor, isKeyAllowed := false }

/-- Characters that begin no plain scalar, or only before one that is no blank. -/
def isIndicator (c : Char) : Bool :=
  isFlowIndicator c
    || ['-', '?', ':', '#', '&', '*', '!', '|', '>', '\'', '"', '%', '@', '\x60'].contains c

def beginsPlain (inFlow : Bool) (c : Char) (rest : List Char) : Bool :=
  !isIndicator c && !isBlank c
    || (c = '-' && !rest.head?.any isBlank)
    || (!inFlow && (c = '?' || c = ':') && !isGap rest)

def token? (l : Lexer) (c : Char) (rest : List Char) : Option Lexer :=
  let opensGap := l.inFlow || isGap rest
  if c = '%' && l.cursor.column = 0 then l.directive?
  else if l.cursor.isMarker '-' then l.marker? .documentStart
  else if l.cursor.isMarker '.' then l.marker? .documentEnd
  else if c = '[' then l.openFlow? .flowSequenceStart
  else if c = '\x7b' then l.openFlow? .flowMappingStart
  else if c = ']' then l.closeFlow? .flowSequenceEnd
  else if c = '\x7d' then l.closeFlow? .flowMappingEnd
  else if c = ',' then l.flowEntry?
  else if c = '-' && isGap rest then l.blockEntry?
  else if c = '?' && opensGap then l.explicitKey?
  else if c = ':' && opensGap then l.value?
  else if c = '*' then l.property? (named .alias)
  else if c = '&' then l.property? (named .anchor)
  else if c = '!' then l.property? (tag? l.inFlow)
  else if c = '|' && !l.inFlow then l.blockScalar? false
  else if c = '>' && !l.inFlow then l.blockScalar? true
  else if c = '\'' then l.quoted? (singleQuoted? [] .none)
  else if c = '"' then l.quoted? (doubleQuoted? [] .none .none)
  else if beginsPlain l.inFlow c rest then l.plainScalar?
  else none

/-- The end of the text begins a new line and closes all block collections. -/
def finish? (l : Lexer) : Option (Array Token) := do
  return (← l.dedentAll.dropKey?).tokens

/-- Reads tokens, each of which takes a character at least, so that their number is bounded by the
length of the text. -/
def run? : Nat → Lexer → Option (Array Token)
  | 0, _ => none
  | n + 1, l => do
    let l ← l.skipGap.refreshKeys?
    let l := l.dedent (l.cursor.column < ·)
    match l.cursor.rest with
    | [] => l.finish?
    | c :: rest => run? n (← l.token? c rest)

end Lexer

def Token.lex (cs : List Char) : Option (Array Token) :=
  (Lexer.start cs).run? (cs.length + 1)

end RegistrySync.Yaml
