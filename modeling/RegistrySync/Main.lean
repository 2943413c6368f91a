import RegistrySync.Rendering

/-!
The program on the files of the machine. A pass runs the same actions as on a file tree.
-/

namespace RegistrySync.Program

def failureOf (e : IO.Error) : FileTree.Failure :=
  let text := toString e
  match e with
  | .noFileOrDirectory _ _ _ => .notFound
  | .alreadyExists _ _ _ => .alreadyExists
  | .resourceBusy _ _ => .busy
  | .unsatisfiedConstraints _ _ => .notEmpty
  | .inappropriateType _ code _ => coded code text
  | .invalidArgument _ code _ => coded code text
  | _ => .other text
where
  coded (code : UInt32) (text : String) : FileTree.Failure :=
    ((FileTree.Failure.numbered.find? fun f => f.system?.any (·.1 = code.toNat)).getD (.other text))

partial def remove (e : IO.FS.DirEntry) : IO Unit := do
  if (← e.path.symlinkMetadata).type == .dir then
    for inner in ← e.path.readDir do
      remove inner
    IO.FS.removeDir e.path
  else IO.FS.removeFile e.path

def removeTree (p : Path) : IO Unit := do
  let path := System.mkFilePath [p.text]
  match (← path.symlinkMetadata.toBaseIO) with
  | .error (.noFileOrDirectory _ _ _) => return
  | .error e => throw e
  | .ok metadata =>
    if metadata.type == .dir then
      for inner in ← path.readDir do
        remove inner
      IO.FS.removeDir path
    else if metadata.type == .symlink then IO.FS.removeFile path
    else throw (.inappropriateType (some p.text) 20 "Not a directory")

def perform : Action → IO Unit
  | .makeDirectories p => if p = Path.empty then return else IO.FS.createDirAll p.text
  | .write p content => IO.FS.writeFile p.text content
  | .removeTree p => removeTree p

def runStages : List (Stage × List Action) → IO (Option Pass.Failure)
  | [] => return none
  | (stage, actions) :: rest => do
    for a in actions do
      if let .error e := ← (perform a).toBaseIO then
        return some ⟨stage, a.path, failureOf e⟩
    runStages rest

def sink : Sink (StateT Synchronizer IO) := fun change s => do
  let (submitted, s) := s.submit change
  let s := s.acceptRequest
  if s.isBusy then
    let outcome := match ← runStages (s.configuration.stages s.destinations) with
      | some failure => .error failure
      | none => .ok s.configuration.summary
    let s := s.finishPass outcome
    return (s.outcomeOf submitted, s)
  else return (s.outcomeOf submitted, s)

def read (p : Path) : IO (Except FileTree.Failure ByteArray) := do
  return (← (IO.FS.readBinFile p.text).toBaseIO).mapError failureOf

def render (r : CommandLine.Rendering) : IO (Except Rendering.Failure Unit) := do
  match Rendering.load r.input (← read r.input) with
  | .error e => return .error e
  | .ok state =>
    (Rendering.heading r.input).forM IO.println
    let (fed, s) ← state.feed sink (.start (Rendering.destinations r) .empty)
    match Rendering.conclude r.input fed s with
    | .error e => return .error e
    | .ok summary =>
      (Rendering.conclusion s.destinations summary).forM IO.println
      return .ok ()

def usage : CommandLine.Usage → String × UInt32
  | .help => ("Usage: sysconfig <render|version|help>", 0)
  | .version => ("sysconfig 0.1.0", 0)
  | .helpForLackOfCommand => ("Usage: sysconfig <render|version|help>", 2)
  | .unknownCommand => ("error: unrecognized subcommand", 2)
  | .unknownArgument => ("error: unexpected argument", 2)
  | .unwantedValue => ("error: unexpected value for a flag", 2)
  | .invalidValue => ("error: a value is required", 2)
  | .repeatedOption => ("error: an option cannot be used multiple times", 2)
  | .missingInput => ("error: --input <INPUT> is required", 2)

def environment : IO (List (String × String)) :=
  CommandLine.Key.all.filterMapM fun key => do
    let some name := key.environmentName? | return none
    return (← IO.getEnv name).map (name, ·)

def run (arguments : List String) : IO UInt32 := do
  let known ← environment
  match CommandLine.parse (known.lookup ·) arguments with
  | .error u =>
    let (text, code) := usage u
    IO.eprintln text
    return code
  | .ok .version =>
    IO.println "sysconfig 0.1.0"
    return 0
  | .ok (.render r) =>
    match ← render r with
    | .ok () => return 0
    | .error e =>
      IO.eprintln ("Error: " ++ ": ".intercalate e.chain)
      return 1

end RegistrySync.Program

def main (arguments : List String) : IO UInt32 :=
  RegistrySync.Program.run arguments
