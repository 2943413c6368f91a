import Mathlib.Data.List.Nodup
import RegistrySync.Rendering

/-!
Options that are written on the command line of `render`, in any order and each in any of its
spellings: they are read as they were meant, an option that is there twice is reported, and so is
the lack of an input.
-/

namespace RegistrySync.CommandLine

/-- An option with its value in one of the ways to write it. -/
inductive Written where
  | separate (key : Key) (value : String)
  | attached (key : Key) (value : String)
  | shortSeparate (value : String)
  | shortAttached (value : String)
  | shortEquals (value : String)
  deriving DecidableEq, Repr

namespace Written

def key : Written → Key
  | separate key _ | attached key _ => key
  | shortSeparate _ | shortAttached _ | shortEquals _ => .input

def value : Written → String
  | separate _ value | attached _ value => value
  | shortSeparate value | shortAttached value | shortEquals value => value

def arguments : Written → List String
  | separate key value => ["--" ++ key.name, value]
  | attached key value => ["--" ++ key.name ++ "=" ++ value]
  | shortSeparate value => ["-i", value]
  | shortAttached value => ["-i" ++ value]
  | shortEquals value => ["-i=" ++ value]

end Written

/-- A value that can be taken for nothing else, wherever it stands. -/
def IsValue (s : String) : Prop :=
  s ≠ "" ∧ s.toList.head? ≠ some '-' ∧ s.toList.head? ≠ some '='

instance (s : String) : Decidable (IsValue s) :=
  inferInstanceAs (Decidable (_ ∧ _ ∧ _))

/-! ### Tokens -/

namespace Token

theorem ofChars_of_head? {cs : List Char} (h : cs.head? ≠ some '-')
    : ofChars cs = .word (String.ofList cs) := by
  fun_cases ofChars cs with
  | case1 => exact absurd rfl h
  | case2 => exact absurd rfl h
  | case3 => exact absurd rfl h
  | case4 => rfl

theorem ofText_value {s : String} (hs : IsValue s) : ofText s = .word s := by
  rw [ofText, ofChars_of_head? hs.2.1, String.ofList_toList]

theorem ofLong_attached (key : Key) (value : List Char)
    : ofLong (key.name.toList ++ '=' :: value) = .option key (some (String.ofList value)) := by
  have hname : ∀ c ∈ key.name.toList, (c ≠ '=' : Bool) = true := by
    rw [← List.all_eq_true]
    cases key <;> decide +kernel
  have hfind : Key.all.find? (·.name = key.name) = some key := by
    cases key <;> decide
  have hother : key.name ≠ "help" ∧ key.name ≠ "version" := by
    cases key <;> decide
  have htake : (key.name.toList ++ '=' :: value).takeWhile (· ≠ '=') = key.name.toList := by
    rw [List.takeWhile_append_of_pos hname, List.takeWhile_cons_of_neg (by decide), List.append_nil]
  have hdrop : (key.name.toList ++ '=' :: value).dropWhile (· ≠ '=') = '=' :: value := by
    rw [List.dropWhile_append_of_pos hname, List.dropWhile_cons_of_neg (by decide)]
  rw [ofLong, htake, hdrop, String.ofList_toList]
  dsimp only
  rw [if_neg hother.1, if_neg hother.2, hfind]

theorem ofText_long (key : Key) : ofText ("--" ++ key.name) = .option key none := by
  cases key <;> decide

theorem ofText_attached (key : Key) (value : String)
    : ofText ("--" ++ key.name ++ "=" ++ value) = .option key (some value) := by
  have hchars : ("--" ++ key.name ++ "=" ++ value).toList =
      '-' :: '-' :: (key.name.toList ++ '=' :: value.toList) := by
    simp [String.toList_append]
  have hne : key.name.toList ++ '=' :: value.toList ≠ [] := by simp
  rw [ofText, hchars, ofChars, ofLong_attached, String.ofList_toList]
  exact hne

theorem ofText_short : ofText "-i" = .option .input none := by
  decide

theorem ofText_shortAttached {value : String} (hvalue : IsValue value)
    : ofText ("-i" ++ value) = .option .input (some value) := by
  obtain ⟨hne, -, hequals⟩ := hvalue
  have hchars : ("-i" ++ value).toList = '-' :: 'i' :: value.toList := by
    simp [String.toList_append]
  rw [ofText, hchars]
  obtain ⟨c, rest, hrest⟩ := List.exists_cons_of_ne_nil (mt String.toList_eq_nil_iff.mp hne)
  have hc : c ≠ '=' := by
    rintro rfl
    exact hequals (congrArg List.head? hrest)
  rw [← String.ofList_toList (s := value), hrest]
  simp [ofChars, ofShort, hc]

theorem ofText_shortEquals (value : String)
    : ofText ("-i=" ++ value) = .option .input (some value) := by
  have hchars : ("-i=" ++ value).toList = '-' :: 'i' :: '=' :: value.toList := by
    simp [String.toList_append]
  rw [ofText, hchars]
  simp [ofChars, ofShort]

end Token

/-! ### Readings -/

namespace Reading

variable {r s : Reading}

theorem of_take_eq_ok {key : Key} {value : Option String} (h : r.take key value = .ok s)
    : s.last = r.last ∧ s.isEnded = r.isEnded := by
  unfold take at h
  split at h
  . contradiction
  . split at h
    . contradiction
    . split at h
      . contradiction
      . injection h with h
        rw [← h]
        exact ⟨rfl, rfl⟩

theorem of_settle_eq_ok (h : r.settle = .ok s) : s.last = none ∧ s.isEnded = r.isEnded := by
  unfold settle at h
  split at h
  . next hlast =>
    injection h with h
    rw [← h]
    exact ⟨hlast, rfl⟩
  . exact of_take_eq_ok h

theorem settle_of_last (hlast : r.last = none) : r.settle = .ok r := by
  rw [settle, hlast]

theorem settle_pending (hlast : r.last = none) (key : Key) (value : Option String)
    : settle { r with last := some (key, value) } = r.take key value := by
  obtain ⟨values, last, isEnded⟩ := r
  subst hlast
  rfl

variable (hopen : r.isEnded = false)
include hopen

theorem step_attached {key : Key} {value argument : String}
    (htoken : Token.ofText argument = .option key (some value))
    : r.step argument = r.settle >>= fun s => s.take key (some value) := by
  rw [step, hopen, if_neg Bool.false_ne_true, htoken]

theorem steps_separate {key : Key} {value argument : String}
    (htoken : Token.ofText argument = .option key none) (hvalue : IsValue value)
    : [argument, value].foldlM step r =
        r.settle >>= fun s => .ok { s with last := some (key, some value) } := by
  rw [List.foldlM_cons, step, hopen, if_neg Bool.false_ne_true, htoken]
  cases hsettle : r.settle with
  | error e => rfl
  | ok s =>
    have hopen : s.isEnded = false := (of_settle_eq_ok hsettle).2.trans hopen
    change [value].foldlM step { s with last := some (key, none) } = _
    rw [List.foldlM_cons, step, if_neg (by simp [hopen]), Token.ofText_value hvalue]
    rfl

/-- An option is taken in when the next one is read, or at the end. -/
theorem arguments_cases {w : Written} (hvalue : IsValue w.value)
    : w.arguments.foldlM step r = (r.settle >>= fun s => s.take w.key (some w.value)) ∨
        w.arguments.foldlM step r =
          r.settle >>= fun s => .ok { s with last := some (w.key, some w.value) } := by
  have hattached {argument : String}
      (htoken : Token.ofText argument = .option w.key (some w.value)) :
      [argument].foldlM step r = r.settle >>= fun s => s.take w.key (some w.value) := by
    rw [List.foldlM_cons, step_attached hopen htoken]
    exact bind_pure _
  cases w with
  | separate key value => exact .inr (steps_separate hopen (Token.ofText_long key) hvalue)
  | attached key value => exact .inl (hattached (Token.ofText_attached key value))
  | shortSeparate value => exact .inr (steps_separate hopen Token.ofText_short hvalue)
  | shortAttached value => exact .inl (hattached (Token.ofText_shortAttached hvalue))
  | shortEquals value => exact .inl (hattached (Token.ofText_shortEquals value))

theorem settle_arguments {w : Written} (hvalue : IsValue w.value)
    : (w.arguments.foldlM step r >>= settle) =
        r.settle >>= fun s => s.take w.key (some w.value) := by
  have hlast : ∀ s, r.settle = .ok s → s.last = none := fun s h => (of_settle_eq_ok h).1
  rcases arguments_cases hopen hvalue with h | h
  . rw [h]
    cases hsettle : r.settle with
    | error e => rfl
    | ok s =>
      change (s.take w.key (some w.value) >>= settle) = s.take w.key (some w.value)
      cases htake : s.take w.key (some w.value) with
      | error e => rfl
      | ok t => exact settle_of_last ((of_take_eq_ok htake).1.trans (hlast s hsettle))
  . rw [h]
    cases hsettle : r.settle with
    | error e => rfl
    | ok s => exact settle_pending (hlast s hsettle) w.key (some w.value)

theorem isEnded_of_arguments {w : Written} (hvalue : IsValue w.value)
    (h : w.arguments.foldlM step r = .ok s) : s.isEnded = false := by
  have hcases := arguments_cases hopen hvalue
  rw [h] at hcases
  cases hsettle : r.settle with
  | error e =>
    rw [hsettle] at hcases
    rcases hcases with heq | heq <;> contradiction
  | ok t =>
    rw [hsettle] at hcases
    have hopen : t.isEnded = false := (of_settle_eq_ok hsettle).2.trans hopen
    rcases hcases with heq | heq
    . change .ok s = t.take w.key (some w.value) at heq
      exact (of_take_eq_ok heq.symm).2.trans hopen
    . injection heq with heq
      rw [heq]
      exact hopen

/-- Reading the arguments of options is taking in the options one after the other. -/
theorem settle_flatMap_arguments {written : List Written}
    (hvalues : ∀ w ∈ written, IsValue w.value)
    : ((written.flatMap Written.arguments).foldlM step r >>= settle) =
        r.settle >>= written.foldlM fun s w => s.take w.key (some w.value) := by
  induction written generalizing r with
  | nil =>
    rw [List.flatMap_nil]
    exact (bind_pure r.settle).symm
  | cons w written ih =>
    obtain ⟨hvalue, hvalues⟩ := List.forall_mem_cons.mp hvalues
    rw [List.flatMap_cons, List.foldlM_append, bind_assoc]
    have hrest : (w.arguments.foldlM step r >>= fun s =>
          (written.flatMap Written.arguments).foldlM step s >>= settle) =
        (w.arguments.foldlM step r >>= settle) >>=
          written.foldlM fun s w => s.take w.key (some w.value) := by
      cases hfirst : w.arguments.foldlM step r with
      | error e => rfl
      | ok s => exact ih (isEnded_of_arguments hopen hvalue hfirst) hvalues
    rw [hrest, settle_arguments hopen hvalue, bind_assoc]
    rfl

omit hopen

theorem isSome_lookup_iff {values : List (Key × String)} {key : Key}
    : (values.lookup key).isSome = true ↔ key ∈ values.map Prod.fst := by
  rw [← Bool.not_eq_false, Option.isSome_eq_false_iff, Option.isNone_iff_eq_none,
    List.lookup_eq_none_iff]
  simp

theorem take_of_mem {key : Key} (h : key ∈ r.values.map Prod.fst) (value : String)
    : r.take key (some value) = .error .repeatedOption := by
  rw [take, if_pos (isSome_lookup_iff.mpr h)]

theorem take_of_not_mem {key : Key} (h : key ∉ r.values.map Prod.fst) {value : String}
    (hvalue : IsValue value)
    : r.take key (some value) = .ok { r with values := (key, value) :: r.values } := by
  rw [take, if_neg (mt isSome_lookup_iff.mp h), if_neg (mt String.isEmpty_iff.mp hvalue.1)]

theorem nodup_map_key_cons (w : Written) (written : List Written) (keys : List Key)
    : ((w :: written).map Written.key ++ keys).Nodup ↔
        (written.map Written.key ++ w.key :: keys).Nodup :=
  List.perm_middle.symm.nodup_iff

theorem foldlM_take_of_not_nodup {written : List Written}
    (hvalues : ∀ w ∈ written, IsValue w.value) (hr : (r.values.map Prod.fst).Nodup)
    (h : ¬ (written.map Written.key ++ r.values.map Prod.fst).Nodup)
    : (written.foldlM (fun s w => s.take w.key (some w.value)) r) = .error .repeatedOption := by
  induction written generalizing r with
  | nil => contradiction
  | cons w written ih =>
    obtain ⟨hvalue, hvalues⟩ := List.forall_mem_cons.mp hvalues
    rw [List.foldlM_cons]
    by_cases hmem : w.key ∈ r.values.map Prod.fst
    . rw [take_of_mem hmem]
      rfl
    . rw [take_of_not_mem hmem hvalue]
      rw [nodup_map_key_cons] at h
      exact ih hvalues (List.nodup_cons.mpr ⟨hmem, hr⟩) h

theorem exists_of_foldlM_take {written : List Written} (hvalues : ∀ w ∈ written, IsValue w.value)
    (h : (written.map Written.key ++ r.values.map Prod.fst).Nodup)
    : ∃ s, written.foldlM (fun s w => s.take w.key (some w.value)) r = .ok s ∧
        (∀ w ∈ written, s.values.lookup w.key = some w.value) ∧
        ∀ key ∉ written.map Written.key, s.values.lookup key = r.values.lookup key := by
  induction written generalizing r with
  | nil => exact ⟨r, rfl, nofun, fun _ _ => rfl⟩
  | cons w written ih =>
    obtain ⟨hvalue, hvalues⟩ := List.forall_mem_cons.mp hvalues
    rw [nodup_map_key_cons] at h
    have hmem : w.key ∉ r.values.map Prod.fst :=
      (List.nodup_cons.mp (List.nodup_append.mp h).2.1).1
    have hother : w.key ∉ written.map Written.key :=
      fun hw => (List.nodup_append.mp h).2.2 _ hw _ List.mem_cons_self rfl
    obtain ⟨s, hs, hgiven, hlacking⟩ :=
      ih (r := { r with values := (w.key, w.value) :: r.values }) hvalues h
    refine ⟨s, ?_, List.forall_mem_cons.mpr ⟨?_, hgiven⟩, ?_⟩
    . rw [List.foldlM_cons, take_of_not_mem hmem hvalue]
      exact hs
    . rw [hlacking _ hother]
      exact List.lookup_cons_self
    . intro key hkey
      rw [List.map_cons, List.mem_cons, not_or] at hkey
      rw [hlacking key hkey.2]
      rw [List.lookup_cons, beq_eq_false_iff_ne.mpr hkey.1]

end Reading

/-! ### The command -/

variable {environment : String → Option String}

/-- No variable for a destination is set to nothing. -/
def Populated (environment : String → Option String) : Prop :=
  ∀ key : Key, key.environmentName?.bind environment ≠ some ""

theorem value?_eq (henvironment : Populated environment) (values : List (Key × String)) (key : Key)
    : value? environment values key =
        .ok ((values.lookup key).or (key.environmentName?.bind environment)) := by
  unfold value?
  cases values.lookup key with
  | some value => rfl
  | none =>
    have hvalue := henvironment key
    cases hset : key.environmentName?.bind environment with
    | none => rfl
    | some value =>
      rw [hset] at hvalue
      have hne : ¬ value.isEmpty = true := fun h => hvalue (congrArg some (String.isEmpty_iff.mp h))
      dsimp only
      rw [if_neg hne]
      rfl

/-- The path that the options or the environment give. -/
def chosen? (environment : String → Option String) (values : List (Key × String)) (key : Key) :
    Option Path :=
  ((values.lookup key).or (key.environmentName?.bind environment)).map Path.ofText

/-- What the values of the options amount to. -/
def command (environment : String → Option String) (values : List (Key × String)) :
    Except Usage Command :=
  match chosen? environment values .input with
  | some input => .ok (.render ⟨input, chosen? environment values .registriesConf,
      chosen? environment values .policyJson, chosen? environment values .certsDir⟩)
  | none => .error .missingInput

theorem parseRender_eq (henvironment : Populated environment) (arguments : List String)
    : parseRender environment arguments =
        (arguments.foldlM Reading.step .start >>= Reading.settle) >>=
          fun r => command environment r.values := by
  rw [parseRender, bind_assoc]
  congr 1
  funext r
  cases r.settle with
  | error e => rfl
  | ok s =>
    simp only [value?_eq henvironment]
    rfl

section

variable {written : List Written} (hvalues : ∀ w ∈ written, IsValue w.value)
  (henvironment : Populated environment)
include hvalues henvironment

theorem parse_eq
    : parse environment ("render" :: written.flatMap Written.arguments) =
        written.foldlM (fun s w => s.take w.key (some w.value)) Reading.start >>=
          fun r => command environment r.values := by
  have hread : ((written.flatMap Written.arguments).foldlM Reading.step .start >>=
      Reading.settle) = written.foldlM (fun s w => s.take w.key (some w.value)) .start :=
    Reading.settle_flatMap_arguments rfl hvalues
  rw [← hread, ← parseRender_eq henvironment]
  rfl

theorem parse_of_not_nodup (h : ¬ (written.map Written.key).Nodup)
    : parse environment ("render" :: written.flatMap Written.arguments) =
        .error .repeatedOption := by
  rw [parse_eq hvalues henvironment, Reading.foldlM_take_of_not_nodup hvalues]
  . rfl
  . exact List.nodup_nil
  . rw [Reading.start, List.map_nil, List.append_nil]
    exact h

theorem exists_parse_of_nodup (h : (written.map Written.key).Nodup)
    : ∃ values, parse environment ("render" :: written.flatMap Written.arguments) =
        command environment values ∧
      (∀ w ∈ written, values.lookup w.key = some w.value) ∧
      ∀ key ∉ written.map Written.key, values.lookup key = none := by
  have hnodup : (written.map Written.key ++ Reading.start.values.map Prod.fst).Nodup := by
    rw [Reading.start, List.map_nil, List.append_nil]
    exact h
  obtain ⟨s, hs, hgiven, hlacking⟩ := Reading.exists_of_foldlM_take hvalues hnodup
  refine ⟨s.values, ?_, hgiven, hlacking⟩
  rw [parse_eq hvalues henvironment, hs]
  rfl

end

/-- The path that a command line has for an option, its own or that of the environment. -/
def Rendering.path? (r : Rendering) : Key → Option Path
  | .input => some r.input
  | .registriesConf => r.overrides.registriesConf
  | .policyJson => r.overrides.policyJson
  | .certsDir => r.overrides.certsDir

theorem exists_command {values : List (Key × String)} {input : Path}
    (hinput : chosen? environment values .input = some input)
    : ∃ r, command environment values = .ok (.render r) ∧
        ∀ key, r.path? key = chosen? environment values key := by
  rw [command, hinput]
  refine ⟨_, rfl, ?_⟩
  intro key
  cases key with
  | input => exact hinput.symm
  | registriesConf => rfl
  | policyJson => rfl
  | certsDir => rfl

theorem destinations_eq (r : Rendering)
    : RegistrySync.Rendering.destinations r =
        ⟨(r.path? .registriesConf).getD Destinations.standard.registriesConf,
          (r.path? .policyJson).getD Destinations.standard.policyJson,
          (r.path? .certsDir).getD Destinations.standard.certsDir⟩ := rfl

theorem parse_written (henvironment : Populated environment) {written : List Written}
    (hvalues : ∀ w ∈ written, IsValue w.value)
    : (¬ (written.map Written.key).Nodup →
        parse environment ("render" :: written.flatMap Written.arguments) =
          .error .repeatedOption) ∧
      ((written.map Written.key).Nodup → .input ∉ written.map Written.key →
        parse environment ("render" :: written.flatMap Written.arguments) =
          .error .missingInput) ∧
      ((written.map Written.key).Nodup → .input ∈ written.map Written.key →
        ∃ r, parse environment ("render" :: written.flatMap Written.arguments) =
            .ok (.render r) ∧
          (∀ w ∈ written, r.path? w.key = some (.ofText w.value)) ∧
          (∀ key ∉ written.map Written.key,
            r.path? key = (key.environmentName?.bind environment).map Path.ofText) ∧
          RegistrySync.Rendering.destinations r =
            ⟨(r.path? .registriesConf).getD Destinations.standard.registriesConf,
              (r.path? .policyJson).getD Destinations.standard.policyJson,
              (r.path? .certsDir).getD Destinations.standard.certsDir⟩ ∧
          ((∀ w ∈ written, w.key = .input) →
            RegistrySync.Rendering.destinations r = .ofEnvironment environment)) := by
  refine ⟨parse_of_not_nodup hvalues henvironment, ?_, ?_⟩
  . intro h hinput
    obtain ⟨values, hparse, -, hlacking⟩ := exists_parse_of_nodup hvalues henvironment h
    have hnone : chosen? environment values .input = none := by
      rw [chosen?, hlacking _ hinput]
      rfl
    rw [hparse, command, hnone]
  . intro h hinput
    obtain ⟨values, hparse, hgiven, hlacking⟩ := exists_parse_of_nodup hvalues henvironment h
    have hwritten : ∀ w ∈ written, chosen? environment values w.key = some (.ofText w.value) := by
      intro w hw
      rw [chosen?, hgiven w hw]
      rfl
    have hother : ∀ key ∉ written.map Written.key,
        chosen? environment values key =
          (key.environmentName?.bind environment).map Path.ofText := by
      intro key hkey
      rw [chosen?, hlacking key hkey]
      rfl
    obtain ⟨w, hw, hkey⟩ := List.mem_map.mp hinput
    have hinput := hwritten w hw
    rw [hkey] at hinput
    obtain ⟨r, hcommand, hr⟩ := exists_command hinput
    refine ⟨r, hparse.trans hcommand, ?_, ?_, destinations_eq r, ?_⟩
    . intro w hw
      rw [hr, hwritten w hw]
    . intro key hkey
      rw [hr, hother key hkey]
    . intro honly
      have hpath : ∀ key, key ≠ .input →
          r.path? key = (key.environmentName?.bind environment).map Path.ofText := by
        intro key hne
        rw [hr, hother]
        rw [List.mem_map]
        rintro ⟨w, hw, rfl⟩
        exact hne (honly w hw)
      rw [destinations_eq, hpath _ (by decide), hpath _ (by decide), hpath _ (by decide)]
      rfl

/-- The second value has an equals sign of its own, and the last of the three command lines takes
all but the input. -/
theorem parse_written_in_several_spellings
    : ∃ environment r, Populated environment ∧
        environment "SYSCONFIG_REGISTRIES_CONF" = some "/etc/r" ∧
        (∀ s ∈ ["c", "p=q", "state.yaml", "b"], IsValue s) ∧
        parse environment ["render", "--certs-dir", "c", "-istate.yaml", "--policy-json=p=q"] =
          .ok (.render r) ∧
        r.input = .ofText "state.yaml" ∧
        RegistrySync.Rendering.destinations r = ⟨.ofText "/etc/r", .ofText "p=q", .ofText "c"⟩ ∧
        parse environment ["render", "-i", "b", "--certs-dir=c", "-i=state.yaml"] =
          .error .repeatedOption ∧
        parse environment ["render", "--certs-dir=c", "--policy-json", "p=q"] =
          .error .missingInput := by
  let environment (name : String) : Option String :=
    if name = "SYSCONFIG_REGISTRIES_CONF" then some "/etc/r" else none
  have henvironment : Populated environment := by
    intro key
    cases key <;> decide
  let written : List Written :=
    [.separate .certsDir "c", .shortAttached "state.yaml", .attached .policyJson "p=q"]
  let repeated : List Written :=
    [.shortSeparate "b", .attached .certsDir "c", .shortEquals "state.yaml"]
  let lacking : List Written := [.attached .certsDir "c", .separate .policyJson "p=q"]
  have hwritten : ∀ w ∈ written, IsValue w.value := by decide
  have hrepeated : ∀ w ∈ repeated, IsValue w.value := by decide
  have hlacking : ∀ w ∈ lacking, IsValue w.value := by decide
  obtain ⟨-, -, hread⟩ := parse_written henvironment hwritten
  obtain ⟨r, hparse, hgiven, hother, hdestinations, -⟩ := hread (by decide) (by decide)
  obtain ⟨hconflict, -, -⟩ := parse_written henvironment hrepeated
  obtain ⟨-, hmissing, -⟩ := parse_written henvironment hlacking
  have hinput : r.path? .input = some (.ofText "state.yaml") :=
    hgiven (.shortAttached "state.yaml") (by decide)
  have hpolicy : r.path? .policyJson = some (.ofText "p=q") :=
    hgiven (.attached .policyJson "p=q") (by decide)
  have hcerts : r.path? .certsDir = some (.ofText "c") :=
    hgiven (.separate .certsDir "c") (by decide)
  rw [hother .registriesConf (by decide), hpolicy, hcerts] at hdestinations
  exact ⟨environment, r, henvironment, rfl, by decide, hparse, Option.some.inj hinput,
    hdestinations, hconflict (by decide), hmissing (by decide) (by decide)⟩

end RegistrySync.CommandLine
