import RegistrySync.Toml.Quoted

/-!
TOML documents of one shape: plain keys at the top, then one array of tables with plain keys.
-/

namespace RegistrySync.Toml

inductive Value where
  | text (s : String)
  | list (items : List String)
  | bool (b : Bool)
  deriving DecidableEq, Repr

abbrev Pairs := List (String × Value)

structure Document where
  top : Pairs
  tableName : String
  tables : List Pairs
  deriving DecidableEq, Repr

namespace Value

def chars : Value → List Char
  | text s => Quoted.encode s.toList
  | list items =>
    ['['] ++ List.intercalate [',', ' '] (items.map fun s => Quoted.encode s.toList) ++ [']']
  | bool b => if b then "true".toList else "false".toList

end Value

def Pairs.chars (pairs : Pairs) : List Char :=
  pairs.flatMap fun (key, value) => key.toList ++ [' ', '=', ' '] ++ value.chars ++ ['\n']

namespace Document

/-- Without tables the array is written as an empty list among the top keys. -/
def chars (d : Document) : List Char :=
  match d.tables with
  | [] => Pairs.chars (d.top ++ [(d.tableName, .list [])])
  | tables => Pairs.chars d.top ++ tables.flatMap fun pairs =>
      ['\n', '[', '['] ++ d.tableName.toList ++ [']', ']', '\n'] ++ Pairs.chars pairs

def print (d : Document) : String :=
  String.ofList d.chars

end Document
end RegistrySync.Toml
