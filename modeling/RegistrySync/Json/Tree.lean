import RegistrySync.Text.Hex

/-!
JSON documents made of strings, lists and records, as they are written: two spaces of indentation,
one part on each line, and nothing between the brackets of an empty collection.
-/

namespace RegistrySync.Json

inductive Tree where
  | text (s : String)
  | list (items : List Tree)
  | record (members : List (String × Tree))
  deriving Repr

namespace Tree

/-- Only quotes, backslashes and characters below the space are escaped. -/
def escape (c : Char) : List Char :=
  if c = '"' then ['\\', '"']
  else if c = '\\' then ['\\', '\\']
  else if c = '\x08' then ['\\', 'b']
  else if c = '\x0c' then ['\\', 'f']
  else if c = '\n' then ['\\', 'n']
  else if c = '\r' then ['\\', 'r']
  else if c = '\t' then ['\\', 't']
  else if c.toNat < 32 then
    ['\\', 'u', '0', '0', Hex.lower (c.toNat / 16), Hex.lower (c.toNat % 16)]
  else [c]

def quote (s : String) : List Char :=
  '"' :: s.toList.flatMap escape ++ ['"']

def newline (depth : Nat) : List Char :=
  '\n' :: List.replicate (2 * depth) ' '

mutual

def chars (depth : Nat) : Tree → List Char
  | text s => quote s
  | list [] => ['[', ']']
  | list (item :: rest) =>
    '[' :: newline (depth + 1) ++ chars (depth + 1) item ++ itemChars (depth + 1) rest
      ++ newline depth ++ [']']
  | record [] => ['\x7b', '\x7d']
  | record ((name, t) :: rest) =>
    '\x7b' :: newline (depth + 1) ++ quote name ++ [':', ' '] ++ chars (depth + 1) t
      ++ memberChars (depth + 1) rest ++ newline depth ++ ['\x7d']

def itemChars (depth : Nat) : List Tree → List Char
  | [] => []
  | item :: rest => ',' :: newline depth ++ chars depth item ++ itemChars depth rest

def memberChars (depth : Nat) : List (String × Tree) → List Char
  | [] => []
  | (name, t) :: rest =>
    ',' :: newline depth ++ quote name ++ [':', ' '] ++ chars depth t ++ memberChars depth rest

end

def print (t : Tree) : String :=
  String.ofList (t.chars 0)

end Tree
end RegistrySync.Json
