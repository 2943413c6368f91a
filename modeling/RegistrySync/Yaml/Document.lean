import RegistrySync.Document.Value
import RegistrySync.Yaml.Node
import RegistrySync.Yaml.Token.Lexer

/-!
YAML documents as document values. An alias stands for the node with its anchor, which may be a node
around it, so aliases are resolved to a fixed depth, more than anything wanted of a document has.
-/

namespace RegistrySync.Yaml

namespace Node

mutual

def numbered : Node → List (Nat × Node)
  | .alias _ => []
  | .scalar anchor form tag content => (anchor.map (·, .scalar anchor form tag content)).toList
  | .sequence anchor items => (anchor.map (·, .sequence anchor items)).toList ++ numberedItems items
  | .mapping anchor members =>
    (anchor.map (·, .mapping anchor members)).toList ++ numberedMembers members

def numberedItems : List Node → List (Nat × Node)
  | [] => []
  | item :: rest => numbered item ++ numberedItems rest

def numberedMembers : List (Node × Node) → List (Nat × Node)
  | [] => []
  | (key, value) :: rest => numbered key ++ numbered value ++ numberedMembers rest

end

mutual

/-- The value of a node, given those of the aliases. A mapping is malformed if a key is no text. -/
def value (aliases : Nat → Value) : Node → Value
  | .alias number => aliases number
  | .scalar _ form tag content =>
    .scalar form (tag.map String.ofList) (String.ofList content)
  | .sequence _ items => .sequence (values aliases items)
  | .mapping _ members =>
    match namedValues aliases members with
    | some named => .object named
    | none => .malformed

def values (aliases : Nat → Value) : List Node → List Value
  | [] => []
  | item :: rest => value aliases item :: values aliases rest

def namedValues (aliases : Nat → Value) : List (Node × Node) → Option (List (String × Value))
  | [] => some []
  | (key, v) :: rest =>
    match (value aliases key).text?, namedValues aliases rest with
    | some name, some named => some ((name, value aliases v) :: named)
    | _, _ => none

end

def aliasValues (nodes : List (Nat × Node)) : Nat → List (Nat × Value)
  | 0 => []
  | depth + 1 =>
    let inner := aliasValues nodes depth
    nodes.map fun (number, node) =>
      (number, node.value fun number => (inner.lookup number).getD .malformed)

def maxAliasDepth : Nat := 16

/-- Of nodes that share a number the last one counts. -/
def toValue (node : Node) : Value :=
  let aliases := aliasValues node.numbered.reverse maxAliasDepth
  node.value fun number => (aliases.lookup number).getD .malformed

end Node

def parse? (text : String) : Option Value := do
  let tokens ← Token.lex (← prepare? text.toList)
  return ((← Node.ofTokens? tokens.toList).getD Node.blank).toValue

end RegistrySync.Yaml
