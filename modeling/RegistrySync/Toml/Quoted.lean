import RegistrySync.Text.Hex

/-!
Quoted TOML strings. A text is written in the first of the four forms that leaves it readable
without escapes; only control characters and long runs of both quotes force escapes.
-/

namespace RegistrySync.Toml.Quoted

inductive Form where
  | basic
  | literal
  | multilineBasic
  | multilineLiteral
  deriving DecidableEq, Repr

/-- Characters that only an escape can write. -/
def isControl (c : Char) : Bool :=
  (c.toNat < 32 && c ≠ '\t' && c ≠ '\n') || c.toNat = 127

def hasTriple (quote : Char) : List Char → Bool
  | a :: b :: c :: rest => (a = quote && b = quote && c = quote) || hasTriple quote (b :: c :: rest)
  | _ => false

def form (s : List Char) : Form :=
  let clean := !s.any isControl
  if clean && !s.contains '\\' && !s.contains '"' && !s.contains '\n' then .basic
  else if clean && !s.contains '\'' && !s.contains '\n' then .literal
  else if clean && !s.contains '\\' && !hasTriple '"' s then .multilineBasic
  else if clean && !hasTriple '\'' s then .multilineLiteral
  else if s.contains '\n' then .multilineBasic
  else .basic

def escape (c : Char) : List Char :=
  if c = '\\' then ['\\', '\\']
  else if c = '\t' then ['\\', 't']
  else if c = '\x08' then ['\\', 'b']
  else if c = '\x0c' then ['\\', 'f']
  else if c = '\r' then ['\\', 'r']
  else if isControl c then
    ['\\', 'u', '0', '0', Hex.upper (c.toNat / 16), Hex.upper (c.toNat % 16)]
  else [c]

def escapeLine : List Char → List Char
  | [] => []
  | c :: rest =>
    (if c = '"' then ['\\', '"'] else if c = '\n' then ['\\', 'n'] else escape c)
      ++ escapeLine rest

/-- Of quotes in a row every third one is escaped; `run` counts those just written. -/
def escapeLines (run : Nat) : List Char → List Char
  | [] => []
  | c :: rest =>
    if c = '"' then
      if run < 2 then '"' :: escapeLines (run + 1) rest else '\\' :: '"' :: escapeLines 0 rest
    else if c = '\n' then '\n' :: escapeLines 0 rest
    else escape c ++ escapeLines 0 rest

/-- A line break that follows the opening of a multi-line form is not part of the text, so a text of
several lines starts on a line of its own. -/
def opening (s : List Char) : List Char :=
  if s.contains '\n' then ['\n'] else []

def encode (s : List Char) : List Char :=
  match form s with
  | .basic => ['"'] ++ escapeLine s ++ ['"']
  | .literal => ['\''] ++ s ++ ['\'']
  | .multilineBasic => ['"', '"', '"'] ++ opening s ++ escapeLines 0 s ++ ['"', '"', '"']
  | .multilineLiteral => ['\'', '\'', '\''] ++ opening s ++ s ++ ['\'', '\'', '\'']

end RegistrySync.Toml.Quoted
