import RegistrySync.Destinations

/-!
The command line. `render` takes the file with the desired state and, as options or from the
environment, the destinations; `version` takes nothing. A value is attached to its option or is the
next argument, and is taken in when the argument after it is read: an argument that is not known is
reported before anything about the option before it.
-/

namespace RegistrySync.CommandLine

structure Rendering where
  input : Path
  overrides : Destinations.Overrides
  deriving DecidableEq, Repr

inductive Command where
  | version
  | render (r : Rendering)
  deriving DecidableEq, Repr

inductive Usage where
  | help
  | helpForLackOfCommand
  | version
  | unknownCommand
  | unknownArgument
  | unwantedValue
  | invalidValue
  | repeatedOption
  | missingInput
  deriving DecidableEq, Repr

inductive Key where
  | input
  | registriesConf
  | policyJson
  | certsDir
  deriving DecidableEq, Repr

namespace Key

def all : List Key := [input, registriesConf, policyJson, certsDir]

def name : Key → String
  | input => "input"
  | registriesConf => "registries-conf"
  | policyJson => "policy-json"
  | certsDir => "certs-dir"

def environmentName? : Key → Option String
  | input => none
  | registriesConf => some "SYSCONFIG_REGISTRIES_CONF"
  | policyJson => some "SYSCONFIG_POLICY_JSON"
  | certsDir => some "SYSCONFIG_CERTS_DIR"

end Key

inductive Token where
  | option (key : Key) (attached : Option String)
  /-- Help is asked for; a value that is attached is one too many. -/
  | help (isValued : Bool)
  | version (isValued : Bool)
  | unknown
  | endOfOptions
  | word (s : String)
  deriving DecidableEq, Repr

namespace Token

def ofLong (cs : List Char) : Token :=
  let name := String.ofList (cs.takeWhile (· ≠ '='))
  let attached := match cs.dropWhile (· ≠ '=') with
    | _ :: value => some (String.ofList value)
    | [] => none
  if name = "help" then .help attached.isSome
  else if name = "version" then .version attached.isSome
  else match Key.all.find? (·.name = name) with
    | some key => .option key attached
    | none => .unknown

/-- A short option, after its dash; the equals sign before an attached value may be left out. -/
def ofShort (c : Char) (rest : List Char) : Token :=
  if c = 'h' then .help false
  else if c = 'V' then .version false
  else if c = 'i' then
    .option .input (match rest with
      | [] => none
      | '=' :: value => some (String.ofList value)
      | value => some (String.ofList value))
  else .unknown

def ofChars : List Char → Token
  | ['-', '-'] => .endOfOptions
  | '-' :: '-' :: rest => ofLong rest
  | '-' :: c :: rest => ofShort c rest
  | cs => .word (String.ofList cs)

def ofText (s : String) : Token := ofChars s.toList

end Token

structure Reading where
  values : List (Key × String)
  /-- The option that was read last, with its value once there is one. -/
  last : Option (Key × Option String)
  isEnded : Bool

namespace Reading

def start : Reading := ⟨[], none, false⟩

/-- Takes in an option. That it has a value is checked first, then that it is given once, and then
that the value is not empty. -/
def take (r : Reading) (key : Key) : Option String → Except Usage Reading
  | none => .error .invalidValue
  | some value =>
    if (r.values.lookup key).isSome then .error .repeatedOption
    else if value.isEmpty then .error .invalidValue
    else .ok { r with values := (key, value) :: r.values }

def settle (r : Reading) : Except Usage Reading :=
  match r.last with
  | none => .ok r
  | some (key, value) => { r with last := none }.take key value

def step (r : Reading) (argument : String) : Except Usage Reading :=
  if r.isEnded then .error .unknownArgument
  else match Token.ofText argument with
    | .option key (some value) => do (← r.settle).take key value
    | .option key none => do return { ← r.settle with last := some (key, none) }
    | .help false => do let _ ← r.settle; throw .help
    | .help true => .error .unwantedValue
    | .version _ | .unknown => .error .unknownArgument
    | .endOfOptions => .ok { r with isEnded := true }
    | .word s =>
      match r.last with
      | some (key, none) => .ok { r with last := some (key, some s) }
      | _ => .error .unknownArgument

end Reading

def value? (environment : String → Option String) (values : List (Key × String)) (key : Key) :
    Except Usage (Option String) :=
  match values.lookup key, key.environmentName?.bind environment with
  | some value, _ => .ok (some value)
  | none, some value => if value.isEmpty then .error .invalidValue else .ok (some value)
  | none, none => .ok none

def parseRender (environment : String → Option String) (arguments : List String) :
    Except Usage Command := do
  let r ← (← arguments.foldlM Reading.step .start).settle
  let path (key : Key) : Except Usage (Option Path) := do
    return (← value? environment r.values key).map Path.ofText
  let overrides : Destinations.Overrides :=
    ⟨← path .registriesConf, ← path .policyJson, ← path .certsDir⟩
  match ← path .input with
  | some input => return .render ⟨input, overrides⟩
  | none => throw .missingInput

def parseVersion : List String → Except Usage Command
  | [] => .ok .version
  | argument :: rest =>
    match Token.ofText argument with
    | .help isValued => .error (if isValued then .unwantedValue else .help)
    | .endOfOptions => if rest.isEmpty then .ok .version else .error .unknownArgument
    | _ => .error .unknownArgument

def parseHelp : List String → Usage
  | [] => .help
  | [s] => if s = "render" ∨ s = "version" ∨ s = "help" then .help else .unknownCommand
  | _ => .unknownCommand

def parse (environment : String → Option String) : List String → Except Usage Command
  | [] => .error .helpForLackOfCommand
  | argument :: rest =>
    match Token.ofText argument with
    | .word "render" => parseRender environment rest
    | .word "version" => parseVersion rest
    | .word "help" => .error (parseHelp rest)
    | .word _ => .error .unknownCommand
    | .help isValued => .error (if isValued then .unwantedValue else .help)
    | .version isValued => .error (if isValued then .unwantedValue else .version)
    | .endOfOptions =>
      .error (if rest.isEmpty then .helpForLackOfCommand else .unknownArgument)
    | .option _ _ | .unknown => .error .unknownArgument

end RegistrySync.CommandLine
