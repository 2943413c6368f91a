import RegistrySync.Yaml.Token

/-!
The nodes of a YAML document, composed from its tokens. Anchors are numbered by how many names there
were before, so an anchor that takes up a name again may share its number with a later one.
-/

namespace RegistrySync.Yaml

inductive Node where
  | alias (anchor : Nat)
  | scalar (anchor : Option Nat) (form : ScalarForm) (tag : Option (List Char))
      (content : List Char)
  | sequence (anchor : Option Nat) (items : List Node)
  | mapping (anchor : Option Nat) (members : List (Node × Node))
  deriving Repr, Inhabited

namespace Node

/-- What is left to be composed, the tag handles of the document, and the names of anchors so far
with their numbers, the last one first. -/
structure State where
  tokens : List Token
  handles : List (List Char × List Char)
  anchors : List (List Char × Nat)

abbrev Composer := StateT State Option

def peek : Composer (Option Token) := fun s => some (s.tokens.head?, s)

def advance : Composer Unit := fun s => some ((), { s with tokens := s.tokens.drop 1 })

def nextIsAny (ts : List Token) : Composer Bool := do
  return (← peek).any ts.contains

def expect (t : Token) : Composer Unit := do
  if (← peek) = some t then advance else failure

def accept (t : Token) : Composer Bool := do
  if (← peek) = some t then
    advance
    return true
  else return false

/-- An empty plain scalar stands where a node is left out. -/
def blank : Node := .scalar none .plain none []

def anchorNumber (name : List Char) : Composer Nat := fun s =>
  let number := (s.anchors.map (·.1)).eraseDups.length
  some (number, { s with anchors := (name, number) :: s.anchors })

def aliased (name : List Char) : Composer Node := fun s => do
  return (.alias (← s.anchors.lookup name), s)

def fullTag (handle suffix : List Char) : Composer (List Char) := fun s =>
  if handle.isEmpty then some (suffix, s)
  else do return ((← s.handles.lookup handle) ++ suffix, s)

structure Properties where
  anchor : Option (List Char)
  tag : Option (List Char × List Char)

def properties : Composer Properties := do
  match ← peek with
  | some (.anchor name) =>
    advance
    match ← peek with
    | some (.tag handle suffix) =>
      advance
      return ⟨some name, some (handle, suffix)⟩
    | _ => return ⟨some name, none⟩
  | some (.tag handle suffix) =>
    advance
    match ← peek with
    | some (.anchor name) =>
      advance
      return ⟨some name, some (handle, suffix)⟩
    | _ => return ⟨none, some (handle, suffix)⟩
  | _ => return ⟨none, none⟩

inductive Place where
  | flow
  | block
  /-- The value or the key of a block mapping, whose items need no further indentation. -/
  | member
  deriving DecidableEq

def Place.isBlock (p : Place) : Bool := p ≠ .flow

def memberEnds : List Token := [.key, .value, .blockEnd]

mutual

/-- A node. The number bounds how far the composition may go; each step of it takes a token, or is
followed by one that does. -/
def compose : Nat → Place → Composer Node
  | 0, _ => failure
  | n + 1, place => do
    if let some (.alias name) := ← peek then
      advance
      return ← aliased name
    let properties ← properties
    let tag ← properties.tag.mapM fun (handle, suffix) => fullTag handle suffix
    let number : Composer (Option Nat) := properties.anchor.mapM anchorNumber
    match ← peek with
    | some (.scalar form content) =>
      advance
      return .scalar (← number) form (tag.filter (· ≠ ['!'])) content
    | some .flowSequenceStart =>
      let number ← number
      advance
      return .sequence number (← flowItems n true)
    | some .flowMappingStart =>
      let number ← number
      advance
      return .mapping number (← flowMembers n true)
    | next =>
      if place = .member && next = some .blockEntry then
        let number ← number
        return .sequence number (← indentlessItems n)
      else if place.isBlock && next = some .blockSequenceStart then
        let number ← number
        advance
        return .sequence number (← blockItems n)
      else if place.isBlock && next = some .blockMappingStart then
        let number ← number
        advance
        return .mapping number (← blockMembers n)
      else if properties.anchor.isSome || tag.isSome then
        return .scalar (← number) .plain tag []
      else failure

/-- A node, unless it is left out before one of the given tokens. -/
def composeUnless : Nat → List Token → Place → Composer Node
  | 0, _, _ => failure
  | n + 1, ends, place => do
    if ← nextIsAny ends then return blank else compose n place

def blockItems : Nat → Composer (List Node)
  | 0 => failure
  | n + 1 => do
    if ← accept .blockEntry then
      let item ← composeUnless n [.blockEntry, .blockEnd] .block
      return item :: (← blockItems n)
    else
      expect .blockEnd
      return []

def indentlessItems : Nat → Composer (List Node)
  | 0 => failure
  | n + 1 => do
    if ← accept .blockEntry then
      let item ← composeUnless n (.blockEntry :: memberEnds) .block
      return item :: (← indentlessItems n)
    else return []

def blockMembers : Nat → Composer (List (Node × Node))
  | 0 => failure
  | n + 1 => do
    if ← accept .key then
      let key ← composeUnless n memberEnds .member
      let value ← if ← accept .value then composeUnless n memberEnds .member else pure blank
      return (key, value) :: (← blockMembers n)
    else
      expect .blockEnd
      return []

/-- Items of a flow sequence, the first of which follows no comma. -/
def flowItems : Nat → Bool → Composer (List Node)
  | 0, _ => failure
  | n + 1, isFirst => do
    if ← accept .flowSequenceEnd then return []
    if !isFirst then expect .flowEntry
    if ← accept .key then
      let item ← flowPair n
      return item :: (← flowItems n false)
    else if ← accept .flowSequenceEnd then return []
    else
      let item ← compose n .flow
      return item :: (← flowItems n false)

/-- A mapping of one member that is an item of a flow sequence. Where its key is left out, one token
is passed over. -/
def flowPair : Nat → Composer Node
  | 0 => failure
  | n + 1 => do
    let key ←
      if ← nextIsAny [.value, .flowEntry, .flowSequenceEnd] then
        advance
        pure blank
      else compose n .flow
    let value ←
      if ← accept .value then composeUnless n [.flowEntry, .flowSequenceEnd] .flow
      else pure blank
    return .mapping none [(key, value)]

def flowMembers : Nat → Bool → Composer (List (Node × Node))
  | 0, _ => failure
  | n + 1, isFirst => do
    if ← accept .flowMappingEnd then return []
    if !isFirst then expect .flowEntry
    if ← accept .key then
      let key ← composeUnless n [.value, .flowEntry, .flowMappingEnd] .flow
      let value ←
        if ← accept .value then composeUnless n [.flowEntry, .flowMappingEnd] .flow
        else pure blank
      return (key, value) :: (← flowMembers n false)
    else if ← accept .flowMappingEnd then return []
    else
      let key ← compose n .flow
      return (key, blank) :: (← flowMembers n false)

end

/-- Directives before a document: at most one version, which is 1.1 or 1.2, and handles that are all
different. -/
def directives : Nat → Option Unit → List (List Char × List Char) →
    Composer (List (List Char × List Char))
  | 0, _, _ => failure
  | n + 1, version, handles => do
    match ← peek with
    | some (.version major minor) =>
      if version.isSome || major ≠ 1 || (minor ≠ 1 && minor ≠ 2) then failure
      advance
      directives n (some ()) handles
    | some (.tagHandle handle stem) =>
      if (handles.lookup handle).isSome then failure
      advance
      directives n version ((handle, stem) :: handles)
    | _ => return handles

def standardHandles : List (List Char × List Char) :=
  [(['!'], ['!']), (['!', '!'], "tag:yaml.org,2002:".toList)]

def isDirective : Token → Bool
  | .version _ _ | .tagHandle _ _ => true
  | _ => false

def endsDocument : Option Token → Bool
  | none | some .documentStart | some .documentEnd => true
  | some t => isDirective t

/-- The one document of a text; there is none in a text without tokens. -/
def document (bound : Nat) : Composer (Option Node) := do
  let next ← peek
  if next.isNone then return none
  let handles ← directives bound none []
  let isMarked ← accept .documentStart
  if next.any isDirective && !isMarked then failure
  modify fun s => { s with handles := handles ++ standardHandles }
  if isMarked && endsDocument (← peek) then return some blank
  return some (← compose bound .block)

/-- Passes over the marks that end a document, after which nothing may follow. -/
def ended : Composer Unit := fun s =>
  if s.tokens.all (· = .documentEnd) then some ((), s) else none

def ofTokens? (tokens : List Token) : Option (Option Node) := do
  let (node, s) ← document (4 * tokens.length + 4) ⟨tokens, [], []⟩
  let _ ← ended s
  return node

end Node
end RegistrySync.Yaml
