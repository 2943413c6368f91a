import RegistrySync.Document.Value
import RegistrySync.Json.Token

/-!
JSON documents, read from tokens with a stack of the arrays and objects that are open.
-/

namespace RegistrySync.Json

/-- An open array or object, its parts last first. The name of a member is missing if it was no
text. -/
inductive Frame where
  | array (items : List Value)
  | object (members : List (Option String × Value)) (name : Option String)

inductive Expected where
  | value
  | firstItem
  | firstName
  | name
  | colon
  | separator
  deriving DecidableEq

structure Reader where
  expected : Expected
  stack : List Frame
  result : Value

namespace Reader

def start : Reader := ⟨.value, [], .null⟩

def put (r : Reader) (v : Value) : Reader :=
  match r.stack with
  | [] => ⟨.separator, [], v⟩
  | .array items :: below => ⟨.separator, .array (v :: items) :: below, r.result⟩
  | .object members name :: below =>
    ⟨.separator, .object ((name, v) :: members) none :: below, r.result⟩

/-- An object with a name that is no text is malformed as a whole. -/
def ofMembers (members : List (Option String × Value)) : Value :=
  match members.mapM fun (name, v) => name.map (·, v) with
  | some named => .object named
  | none => .malformed

def closeArray (r : Reader) : Option Reader :=
  match r.stack with
  | .array items :: below => some ({ r with stack := below }.put (.array items.reverse))
  | _ => none

def closeObject (r : Reader) : Option Reader :=
  match r.stack with
  | .object members _ :: below => some ({ r with stack := below }.put (ofMembers members.reverse))
  | _ => none

def beginValue (r : Reader) : Token → Option Reader
  | .openBracket => some { r with expected := .firstItem, stack := .array [] :: r.stack }
  | .openBrace => some { r with expected := .firstName, stack := .object [] none :: r.stack }
  | .null => some (r.put .null)
  | .bool b => some (r.put (.bool b))
  | .number digits => some (r.put (.number digits))
  | .text (some s) => some (r.put (.text s))
  | .text none => some (r.put .malformed)
  | _ => none

def takeName (r : Reader) (name : Option String) : Option Reader :=
  match r.stack with
  | .object members _ :: below =>
    some { r with expected := .colon, stack := .object members name :: below }
  | _ => none

def nextPart (r : Reader) : Option Reader :=
  match r.stack with
  | .array _ :: _ => some { r with expected := .value }
  | .object _ _ :: _ => some { r with expected := .name }
  | [] => none

def step (r : Reader) (t : Token) : Option Reader :=
  match r.expected, t with
  | .value, t => r.beginValue t
  | .firstItem, .closeBracket => r.closeArray
  | .firstItem, t => r.beginValue t
  | .firstName, .closeBrace => r.closeObject
  | .firstName, .text name => r.takeName name
  | .name, .text name => r.takeName name
  | .colon, .colon => some { r with expected := .value }
  | .separator, .comma => r.nextPart
  | .separator, .closeBracket => r.closeArray
  | .separator, .closeBrace => r.closeObject
  | _, _ => none

def value? (r : Reader) : Option Value :=
  match r.expected, r.stack with
  | .separator, [] => some r.result
  | _, _ => none

end Reader

def parse? (text : String) : Option Value := do
  (← (← Token.lex text.toList).foldlM Reader.step Reader.start).value?

end RegistrySync.Json
