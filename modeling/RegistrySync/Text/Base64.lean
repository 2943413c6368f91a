/-!
Base64 text in its padded, canonical form: groups of four characters, `=` only at the end, and no
stray bits in the last group.
-/

namespace RegistrySync.Base64

def sextet? (c : Char) : Option Nat :=
  if 'A' ≤ c ∧ c ≤ 'Z' then some (c.toNat - 65)
  else if 'a' ≤ c ∧ c ≤ 'z' then some (c.toNat - 71)
  else if '0' ≤ c ∧ c ≤ '9' then some (c.toNat + 4)
  else if c = '+' then some 62
  else if c = '/' then some 63
  else none

/-- The last group of a text: padding leaves four or two bits that must be zero. -/
def closes (a b c d : Char) : Bool :=
  match sextet? a, sextet? b, sextet? c, sextet? d with
  | some _, some _, some _, some _ => true
  | some _, some _, some z, none => d = '=' && z % 4 = 0
  | some _, some y, none, none => c = '=' && d = '=' && y % 16 = 0
  | _, _, _, _ => false

def accepts : List Char → Bool
  | [] => true
  | [a, b, c, d] => closes a b c d
  | a :: b :: c :: d :: rest =>
    (sextet? a).isSome && (sextet? b).isSome && (sextet? c).isSome && (sextet? d).isSome
      && accepts rest
  | _ => false

end RegistrySync.Base64
