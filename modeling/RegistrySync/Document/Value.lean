import Std.Data.ExtTreeMap

/-!
Document values. One type serves JSON and YAML documents: JSON scalars carry their type, YAML
scalars are text whose type is decided by what is wanted of them. The readers below take a value of
a wanted type, or refuse.
-/

namespace RegistrySync

/-- How a YAML scalar is written, as far as its type depends on it. -/
inductive ScalarForm where
  | plain
  | literal
  | quoted
  deriving DecidableEq, Repr

inductive Value where
  | null
  | bool (b : Bool)
  | number (digits : String)
  | text (s : String)
  | scalar (form : ScalarForm) (tag : Option String) (content : String)
  /-- A JSON array, which may also give the members of a record by position. -/
  | array (items : List Value)
  /-- A YAML sequence, which is a list only. -/
  | sequence (items : List Value)
  | object (members : List (String × Value))
  /-- A value with text that is no Unicode text, or with a member name that is no text. No wanted
  type accepts it, but it may stand where nothing is wanted. -/
  | malformed
  deriving Repr, Inhabited

namespace Value

def nullTag : String := "tag:yaml.org,2002:null"
def boolTag : String := "tag:yaml.org,2002:bool"
def intTag : String := "tag:yaml.org,2002:int"

/-- Any YAML scalar is text, whatever it looks like. -/
def text? : Value → Option String
  | text s => some s
  | scalar _ _ s => some s
  | _ => none

/-- A YAML value that is written as nothing stands for an empty collection. -/
def isBlank : Value → Bool
  | scalar .plain _ s => s.isEmpty
  | _ => false

def elements? : Value → Option (List Value)
  | array items => some items
  | sequence items => some items
  | v => if v.isBlank then some [] else none

def members? : Value → Option (List (String × Value))
  | object members => some members
  | v => if v.isBlank then some [] else none

def listOf? {α : Type} (read : Value → Option α) (v : Value) : Option (List α) := do
  (← v.elements?).mapM read

def texts? : Value → Option (List String) := listOf? text?

/-- Of a member that is given twice the last value counts, but all must have the wanted type. -/
def mapOf? {α : Type} (read : Value → Option α) (v : Value) :
    Option (Std.ExtTreeMap String α) := do
  let pairs ← (← v.members?).mapM fun (name, member) => do return (name, ← read member)
  return pairs.foldl (fun m (name, a) => m.insert name a) ∅

def textMap? : Value → Option (Std.ExtTreeMap String String) := mapOf? text?

def isNullWord (s : String) : Bool :=
  s = "~" || s = "null" || s = "Null" || s = "NULL"

/-- Whether an optional value is there. A plain scalar that carries the tag of null has to be a
word for it. -/
def isPresent? : Value → Option Bool
  | null => some false
  | scalar .plain none s => some (!(s.isEmpty || isNullWord s))
  | scalar .plain (some tag) s =>
    if tag = nullTag then if isNullWord s then some false else none else some true
  | _ => some true

def optional? {α : Type} (read : Value → Option α) (v : Value) : Option (Option α) := do
  if ← v.isPresent? then some <$> read v else return none

def typedText? (tag : String) : Value → Option String
  | scalar .plain _ s => some s
  | scalar .literal (some t) s => if t = tag then some s else none
  | _ => none

def bool? : Value → Option Bool
  | bool b => some b
  | v => do
    let s ← v.typedText? boolTag
    if s = "true" || s = "True" || s = "TRUE" then return true
    if s = "false" || s = "False" || s = "FALSE" then return false
    none

end Value
end RegistrySync
