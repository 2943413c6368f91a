import RegistrySync.Document.Value
import RegistrySync.Text.Hex
import RegistrySync.Yaml.Text

/-!
Tokens of YAML documents, and the properties of nodes that are written with an indicator: anchors,
aliases, tags and directives.
-/

namespace RegistrySync.Yaml

inductive Token where
  | documentStart
  | documentEnd
  | version (major minor : Nat)
  | tagHandle (handle stem : List Char)
  | blockSequenceStart
  | blockMappingStart
  | blockEnd
  | flowSequenceStart
  | flowSequenceEnd
  | flowMappingStart
  | flowMappingEnd
  | blockEntry
  | flowEntry
  | key
  | value
  | alias (name : List Char)
  | anchor (name : List Char)
  | tag (handle suffix : List Char)
  | scalar (form : ScalarForm) (content : List Char)
  deriving DecidableEq, Repr

def anchorName? (c : Cursor) : Option (List Char × Cursor) :=
  let (name, c) := c.span isNameChar
  let isEnded := isGap c.rest || c.rest.head?.any fun x =>
    x = '?' || x = ':' || x = ',' || x = ']' || x = '\x7d' || x = '%' || x = '@' || x = '\x60'
  if !name.isEmpty && isEnded then some (name, c) else none

/-- A tag handle: an exclamation mark, or a name between two of them. The second one may be missing
where a handle and a suffix are not told apart. -/
def tagHandle? (c : Cursor) : Option (List Char × Cursor) :=
  match c.next? with
  | some ('!', c) =>
    let (name, c) := c.span isNameChar
    match c.next? with
    | some ('!', c) => some ('!' :: name ++ ['!'], c)
    | _ => some ('!' :: name, c)
  | _ => none

/-- Indicators of collections may stand in a tag only where it is set apart from them. -/
def isTagChar (isApart : Bool) (c : Char) : Bool :=
  isNameChar c
    || [';', '/', '?', ':', '@', '&', '=', '+', '$', '.', '!', '~', '*', '\'', '(', ')'].contains c
    || (isApart && (c = ',' || c = '[' || c = ']'))

/-- How many bytes the code of a character takes that begins with this byte, and the bits of it that
belong to the character. -/
def leadingByte? (b : Nat) : Option (Nat × Nat) :=
  if b < 0x80 then some (1, b)
  else if 0xC0 ≤ b ∧ b < 0xE0 then some (2, b - 0xC0)
  else if 0xE0 ≤ b ∧ b < 0xF0 then some (3, b - 0xE0)
  else if 0xF0 ≤ b ∧ b < 0xF8 then some (4, b - 0xF0)
  else none

def escapedBytes? (left code : Nat) : List Char → Option (Char × Nat)
  | '%' :: x :: y :: rest => do
    let b := 16 * (← Hex.value? x) + (← Hex.value? y)
    if left = 0 then
      let (width, bits) ← leadingByte? b
      if width = 1 then return (Char.ofNat bits, 3)
      let (c, length) ← escapedBytes? (width - 1) bits rest
      return (c, length + 3)
    else if 0x80 ≤ b ∧ b < 0xC0 then
      let code := 64 * code + (b - 0x80)
      if left = 1 then return (Char.ofNat code, 3)
      let (c, length) ← escapedBytes? (left - 1) code rest
      return (c, length + 3)
    else none
  | _ => none

def tagText? (isApart : Bool) : (skipped : Nat) → List Char → Option (List Char × Nat)
  | _, [] => some ([], 0)
  | skipped + 1, _ :: rest => do
    let (text, length) ← tagText? isApart skipped rest
    return (text, length + 1)
  | 0, c :: rest =>
    if c = '%' then do
      let (x, width) ← escapedBytes? 0 0 (c :: rest)
      let (text, length) ← tagText? isApart (width - 1) rest
      return (x :: text, length + 1)
    else if isTagChar isApart c then do
      let (text, length) ← tagText? isApart 0 rest
      return (c :: text, length + 1)
    else some ([], 0)

/-- The text of a tag that follows `head`. Together they may not be empty. -/
def tagSuffix? (isApart : Bool) (head : List Char) (c : Cursor) :
    Option (List Char × Cursor) := do
  let (text, length) ← tagText? isApart 0 c.rest
  if head.isEmpty && length = 0 then none
  return (head.drop 1 ++ text, c.skip length)

/-- A tag: between angle brackets, or as a handle with a suffix. A tag that is a mark alone has no
handle. -/
def tag? (inFlow : Bool) (c : Cursor) : Option (Token × Cursor) := do
  let (t, c) ← (do
    if c.rest.take 2 = ['!', '<'] then
      let (suffix, c) ← tagSuffix? true [] (c.skip 2)
      if c.rest.head? = some '>' then return (.tag [] suffix, c.skip 1) else none
    else
      let (handle, c) ← tagHandle? c
      if 1 < handle.length && handle.getLast? = some '!' then
        let (suffix, c) ← tagSuffix? false [] c
        return (.tag handle suffix, c)
      else
        let (suffix, c) ← tagSuffix? false handle c
        return (if suffix.isEmpty then .tag [] ['!'] else .tag ['!'] suffix, c)
    : Option (Token × Cursor))
  if isGap c.rest || (inFlow && c.rest.head? = some ',') then return (t, c) else none

/-- A number of at most nine digits. -/
def versionNumber? (c : Cursor) : Option (Nat × Cursor) :=
  let (digits, c) := c.span fun x => '0' ≤ x && x ≤ '9'
  if digits.isEmpty || 9 < digits.length then none
  else some (digits.foldl (fun n x => 10 * n + (x.toNat - 48)) 0, c)

def versionDirective? (c : Cursor) : Option (Token × Cursor) := do
  let (major, c) ← versionNumber? (c.dropWhile isBlank)
  if c.rest.head? ≠ some '.' then none
  let (minor, c) ← versionNumber? (c.skip 1)
  return (.version major minor, c)

def tagDirective? (c : Cursor) : Option (Token × Cursor) := do
  let (handle, c) ← tagHandle? (c.dropWhile isBlank)
  if 1 < handle.length && handle.getLast? ≠ some '!' then none
  if !c.rest.head?.any isBlank then none
  let (stem, c) ← tagSuffix? true [] (c.dropWhile isBlank)
  if isGap c.rest then return (.tagHandle handle stem, c) else none

/-- A directive after its percent sign, which takes the rest of the line. -/
def directive? (c : Cursor) : Option (Token × Cursor) := do
  let (name, c) := c.span isNameChar
  if name.isEmpty || !isGap c.rest then none
  let (t, c) ←
    if name = "YAML".toList then versionDirective? c
    else if name = "TAG".toList then tagDirective? c
    else none
  return (t, ← c.finishLine?)

end RegistrySync.Yaml
