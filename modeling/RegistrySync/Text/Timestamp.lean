import RegistrySync.Json.Numeral

/-!
Points in time: a date, a time of the day and its offset from UTC, as in RFC 3339. Some freedom is
left: white space may stand before each part, numbers may do without their leading zeros, and the
minutes of an offset without a colon.
-/

namespace RegistrySync.Timestamp

open Json.Numeral (isDigit value)

/-- The white space of Unicode. -/
def isSpace (c : Char) : Bool :=
  let n := c.toNat
  (0x9 ≤ n && n ≤ 0xd) || n = 0x20 || n = 0x85 || n = 0xa0 || n = 0x1680
    || (0x2000 ≤ n && n ≤ 0x200a) || n = 0x2028 || n = 0x2029 || n = 0x202f || n = 0x205f
    || n = 0x3000

def isLeap (year : Int) : Bool :=
  year % 4 = 0 && (year % 100 ≠ 0 || year % 400 = 0)

def daysIn (year : Int) (month : Nat) : Nat :=
  if month = 2 then if isLeap year then 29 else 28
  else if month = 4 || month = 6 || month = 9 || month = 11 then 30
  else 31

def minYear : Int := -262143
def maxYear : Int := 262142

/-- Whether a minute of a day, counted in UTC, is one of the years. The offset may have taken it to
the day before or after. -/
def isInRange (year : Int) (month day : Nat) (minute : Int) : Bool :=
  minYear ≤ year && year ≤ maxYear
    && !(year = minYear && month = 1 && day = 1 && minute < 0)
    && !(year = maxYear && month = 12 && day = 31 && 24 * 60 ≤ minute)

/-- Takes characters from the front of a text. -/
abbrev Reader := StateT (List Char) Option

namespace Reader

def skip (ignored : Char → Bool) : Reader Unit :=
  modify (·.dropWhile ignored)

def oneOf (wanted : List Char) : Reader Char := do
  match ← get with
  | c :: rest => if c ∈ wanted then do set rest; return c else failure
  | [] => failure

def separator (c : Char) : Reader Unit := do
  skip isSpace
  let _ ← oneOf [c]

/-- A number of one digit or more, as many as there are within a width. -/
def digits (width : Nat) : Reader Nat := do
  let cs ← get
  let digits := (cs.take width).takeWhile isDigit
  if digits.isEmpty then failure
  else do
    set (cs.drop digits.length)
    return value digits

def number (low high : Nat) : Reader Nat := do
  skip isSpace
  let n ← digits 2
  if low ≤ n && n ≤ high then return n else failure

def pair (high : Nat) : Reader Nat := do
  match ← get with
  | a :: b :: rest =>
    if isDigit a && isDigit b && value [a, b] ≤ high then do set rest; return value [a, b]
    else failure
  | _ => failure

/-- A year with a sign may have any number of digits. -/
def year : Reader Int := do
  skip isSpace
  match ← get with
  | '-' :: rest => do
    set rest
    return -(← digits rest.length)
  | '+' :: rest => do
    set rest
    return ← digits rest.length
  | _ => return ← digits 4

def fraction : Reader Unit := do
  match ← get with
  | '.' :: rest => do
    set rest
    let _ ← digits rest.length
  | _ => return

/-- The offset from UTC in minutes. -/
def offset : Reader Int := do
  skip isSpace
  let cs ← get
  if (cs.take 3).map Char.toUpper = ['U', 'T', 'C'] then do
    set (cs.drop 3)
    return 0
  else do
    let sign ← oneOf ['Z', 'z', '+', '-', '\u2212']
    if sign = 'Z' || sign = 'z' then return 0
    else do
      let hours ← pair 23
      skip fun c => c = ':' || isSpace c
      let minutes ← pair 59
      let size : Int := 60 * hours + minutes
      return if sign = '+' then size else -size

/-- A leap second is taken at the end of any minute. -/
def time : Reader Unit := do
  let year ← year
  separator '-'
  let month ← number 1 12
  separator '-'
  let day ← number 1 (daysIn year month)
  let _ ← oneOf ['T', 't', ' ']
  let hour ← number 0 23
  separator ':'
  let minute ← number 0 59
  separator ':'
  let _ ← number 0 60
  fraction
  let offset ← offset
  if isInRange year month day (60 * hour + minute - offset) then return else failure

end Reader

def accepts (cs : List Char) : Bool :=
  match Reader.time.run cs with
  | some (_, rest) => rest.all isSpace
  | none => false

end RegistrySync.Timestamp
