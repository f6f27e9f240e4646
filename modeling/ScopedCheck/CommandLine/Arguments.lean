import ScopedCheck.Check.Options
/-! # Arguments

The command line of the program. Options and files may be mixed; behind `--` everything is a file.
An option takes its value from behind an equals sign, from the rest of a group of short options, or
from the next argument, which must not look like an option. An option is settled, that is checked
and recorded, when the next argument shows that it is complete; this decides which of two mistakes is
reported. -/

namespace ScopedCheck

/-- What was asked for on the command line. -/
structure Arguments where
  files : List String := []
  project : Option String := none
  cwd : Option String := none
  emit : Bool := false
  skipLibCheck : Bool := false
  cacheDir : Option String := none
  useTsc : Bool := false
  useTsgo : Bool := false
  noFallback : Bool := false
  includes : Option (List String) := none
  timeoutSeconds : Nat := 30
  verbose : Bool := false
  pretty : Option Bool := none
  deriving DecidableEq, Repr, Inhabited

namespace Arguments

/-- The options of the check that was asked for. Failures come back in the result, so that every
group is reported. -/
def options (args : Arguments) : CheckOptions where
  project := args.project.map Path.mk
  cwd := args.cwd.map Path.mk
  noEmit := !args.emit
  skipLibCheck := if args.skipLibCheck then some true else none
  cacheDir := args.cacheDir.map Path.mk
  forceStandard := args.useTsc
  forcePrimary := args.useTsgo
  fallback := !args.noFallback
  includes := args.includes
  verbose := args.verbose
  stopOnFailure := false
  timeoutMs := args.timeoutSeconds * 1000

/-- Options without a value. -/
inductive Flag
  | emit
  | skipLibCheck
  | useTsc
  | useTsgo
  | noFallback
  | verbose
  | help
  | version
  deriving DecidableEq, Repr

/-- Options with a value. -/
inductive Setting
  | project
  | cwd
  | cacheDir
  | includes
  | timeout
  | pretty
  deriving DecidableEq, Repr

/-- An option. -/
inductive Switch
  | flag (flag : Flag)
  | setting (setting : Setting)
  deriving DecidableEq, Repr

/-- The option of a long name. -/
def ofLong? : String → Option Switch
  | "project" => some (.setting .project)
  | "cwd" => some (.setting .cwd)
  | "emit" => some (.flag .emit)
  | "skipLibCheck" | "skip-lib-check" => some (.flag .skipLibCheck)
  | "cache-dir" | "cacheDir" => some (.setting .cacheDir)
  | "use-tsc" => some (.flag .useTsc)
  | "use-tsgo" => some (.flag .useTsgo)
  | "no-fallback" => some (.flag .noFallback)
  | "include" => some (.setting .includes)
  | "timeout" => some (.setting .timeout)
  | "verbose" => some (.flag .verbose)
  | "pretty" => some (.setting .pretty)
  | "help" => some (.flag .help)
  | "version" => some (.flag .version)
  | _ => none

/-- The option of a short name. -/
def ofShort? : Char → Option Switch
  | 'p' => some (.setting .project)
  | 'v' => some (.flag .verbose)
  | 'h' => some (.flag .help)
  | 'V' => some (.flag .version)
  | _ => none

/-- Why no check was asked for. -/
inductive Stop
  | helpWanted
  | versionWanted
  /-- Files are missing. -/
  | missingFiles
  /-- A value is missing, or is none of those that are possible. -/
  | badValue
  /-- A value is no number in range. -/
  | badNumber
  | unknownOption
  /-- Options that exclude each other, or one that was given twice. -/
  | conflict
  /-- A value for an option that takes none. -/
  | unwantedValue
  deriving DecidableEq, Repr

/-- The exit code of a run that was stopped. -/
def Stop.exitCode : Stop → ExitCode
  | helpWanted | versionWanted => .success
  | _ => .configError

/-- Arguments that are being read. -/
structure Reading where
  args : Arguments := {}
  /-- The flags met so far. -/
  flags : List Flag := []
  /-- The settings met so far. -/
  settings : List Setting := []
  /-- A setting that waits to be settled, with its value if that is known. -/
  pending : Option (Setting × Option String) := none
  /-- Whether everything from here on is a file. -/
  onlyFiles : Bool := false

/-- The greatest timeout in seconds. -/
def maxTimeout : Nat := 0xFFFFFFFFFFFFFFFF

/-- A number of seconds in ASCII digits, perhaps behind a plus sign. -/
def seconds? (text : String) : Option Nat := do
  let digits :=
    match text.toList with
    | '+' :: digits => digits
    | digits => digits
  guard (!digits.isEmpty && digits.all Char.isDigit)
  let n := digits.foldl (fun n c => n * 10 + (c.toNat - '0'.toNat)) 0
  guard (n ≤ maxTimeout)
  return n

/-- A path; it must not be empty. -/
def pathValue (value : String) : Except Stop String :=
  if value.isEmpty then .error .badValue else .ok value

/-- A truth value. -/
def truthValue : String → Except Stop Bool
  | "true" => .ok true
  | "false" => .ok false
  | _ => .error .badValue

/-- Record the value of a setting. -/
def set (args : Arguments) (setting : Setting) (value : String) : Except Stop Arguments :=
  match setting with
  | .project => return { args with project := some (← pathValue value) }
  | .cwd => return { args with cwd := some (← pathValue value) }
  | .cacheDir => return { args with cacheDir := some (← pathValue value) }
  | .includes =>
      let pieces := (Text.splitOn ',' value.toList).map String.ofList
      return { args with includes := some (args.includes.getD [] ++ pieces) }
  | .timeout =>
      match seconds? value with
      | some n => return { args with timeoutSeconds := n }
      | none => .error .badNumber
  | .pretty => return { args with pretty := some (← truthValue value) }

/-- Raise a flag. -/
def raise (args : Arguments) : Flag → Except Stop Arguments
  | .emit => .ok { args with emit := true }
  | .skipLibCheck => .ok { args with skipLibCheck := true }
  | .useTsc => .ok { args with useTsc := true }
  | .useTsgo => .ok { args with useTsgo := true }
  | .noFallback => .ok { args with noFallback := true }
  | .verbose => .ok { args with verbose := true }
  | .help => .error .helpWanted
  | .version => .error .versionWanted

namespace Reading

/-- Record a setting. All settings but the files to include may be given only once. -/
def record (r : Reading) (setting : Setting) (value : String) : Except Stop Reading := do
  if setting ≠ .includes ∧ setting ∈ r.settings then throw .conflict
  let args ← r.args.set setting value
  return { r with args, settings := setting :: r.settings }

/-- Settle the pending setting. -/
def settle (r : Reading) : Except Stop Reading :=
  match r.pending with
  | none => .ok r
  | some (_, none) => .error .badValue
  | some (setting, some value) => { r with pending := none }.record setting value

/-- Read a flag. -/
def flag (r : Reading) (flag : Flag) : Except Stop Reading := do
  let r ← r.settle
  let args ← r.args.raise flag
  if flag ∈ r.flags then throw .conflict
  return { r with args, flags := flag :: r.flags }

/-- Read a setting, with its value if that is attached to it. -/
def setting (r : Reading) (setting : Setting) (value : Option String) : Except Stop Reading := do
  let r ← r.settle
  match value with
  | some value => r.record setting value
  | none => return { r with pending := some (setting, none) }

/-- Read an argument that starts with two dashes. -/
def long (r : Reading) (name : String) (value : Option String) : Except Stop Reading :=
  match ofLong? name, value with
  | none, _ => .error .unknownOption
  | some (.setting s), value => r.setting s value
  | some (.flag _), some _ => .error .unwantedValue
  | some (.flag f), none => r.flag f

/-- The value that is attached to a short option; an equals sign in front does not count. -/
def attached : List Char → Option String
  | [] => none
  | '=' :: cs => some (String.ofList cs)
  | cs => some (String.ofList cs)

/-- Read a group of short options. -/
def short (r : Reading) : List Char → Except Stop Reading
  | [] => .ok r
  | c :: cs =>
      match ofShort? c with
      | none => .error .unknownOption
      | some (.setting s) => r.setting s (attached cs)
      | some (.flag f) => do (← r.flag f).short cs

/-- Read a file. -/
def file (r : Reading) (text : String) : Except Stop Reading := do
  let r ← r.settle
  return { r with args.files := r.args.files ++ [text] }

/-- Read an argument that does not look like an option: the value of a pending setting that has none
yet, or a file. -/
def plain (r : Reading) (text : String) : Except Stop Reading :=
  match r.pending with
  | some (setting, none) => .ok { r with pending := some (setting, some text) }
  | _ => r.file text

/-- Read one argument. -/
def next (r : Reading) (text : String) : Except Stop Reading :=
  if r.onlyFiles then r.file text
  else
    match text.toList with
    | ['-', '-'] => .ok { r with onlyFiles := true }
    | '-' :: '-' :: cs =>
        match Text.splitOn '=' cs with
        | name :: piece :: pieces =>
            r.long (String.ofList name)
              (some (String.ofList (Text.joinWith '=' (piece :: pieces))))
        | _ => r.long (String.ofList cs) none
    | '-' :: c :: cs => r.short (c :: cs)
    | _ => r.plain text

/-- Settle what is pending and check the whole. -/
def finish (r : Reading) : Except Stop Arguments := do
  let args := (← r.settle).args
  if args.useTsc && args.useTsgo then throw .conflict
  if args.files.isEmpty then throw .missingFiles
  return args

end Reading

/-- Read the command line. -/
def parse (texts : List String) : Except Stop Arguments := do
  (← texts.foldlM Reading.next {}).finish

end Arguments

end ScopedCheck
