import ScopedCheck.Check.Grouping
import ScopedCheck.Check.Session
import ScopedCheck.Compiler.Locate
/-! # Checking a group

A group is checked in one pass: load its config, choose a compiler, find the files that the compiler
has to see, write a temporary config that lists them, run the compiler on it and remove it again. The
temporary config is written by the last step that may fail before the compiler is run, so that every
failure after it comes when the config is removed. -/

namespace ScopedCheck

/-- What the check of a group found. -/
structure GroupOutput where
  summary : GroupSummary
  success : Bool
  findings : Findings
  /-- The files of the group that were checked. -/
  checkedFiles : List Path
  setupFiles : List Path
  deriving DecidableEq, Repr, Inhabited

/-- A group that is ready to be handed to a compiler. -/
structure PreparedGroup where
  configPath : Path
  handle : TempConfig.Handle
  selection : Selection
  compilers : CompilerPaths
  roots : List Path
  closure : Closure
  deriving DecidableEq, Repr, Inhabited

namespace FileGroup

open Checking

/-- The files of a group that a compiler takes as sources. -/
def sources (group : FileGroup) (config : Config) : List Path :=
  group.files.filter (·.isSource config.allowsUntyped)

/-- What is told about a group without sources. -/
def emptyEvents (group : FileGroup) (config : Config) (verbose : Bool) : List LogEvent :=
  LogEvent.ifVerbose verbose .warn "no checkable files in group"
    [("config", config.configPath.text), ("patterns", Text.quotedList group.patterns)]

/-- What is told about the compatibility of a config. -/
def compatibilityEvents (c : Compatibility) (verbose : Bool) : List LogEvent :=
  LogEvent.ifVerbose verbose .info "compatibility analysis"
    [("compatible", toString c.compatible), ("features", Text.quotedList c.features)]

/-- What is told about the choice of a compiler. -/
def selectionEvents (s : Selection) (verbose : Bool) : List LogEvent :=
  LogEvent.ifVerbose verbose .info "selected compiler"
    [("compiler", s.kind.binaryName), ("reason", s.reason)]

/-- What is told about a finished group. -/
def finishedEvents (e : Execution) (verbose : Bool) : List LogEvent :=
  LogEvent.ifVerbose verbose .info "group checked"
    [("compiler", e.compiler.binaryName), ("reason", e.reason),
      ("errors", toString e.findings.errors.length)]

/-- Choose the compiler for a config. -/
def chooseCompiler (s : Surroundings) (options : CheckOptions) (config : Config) :
    Checking (Selection × CompilerPaths) := do
  let compatibility := Compatibility.ofConfig config
  tell (compatibilityEvents compatibility options.verbose)
  let compilers :=
    options.compilers.getD (CompilerPaths.locate (← get).tree s.searchPath config.dir)
  let selection ← orFail
    (Selection.choose options.forceStandard options.forcePrimary compatibility compilers)
  tell (selectionEvents selection options.verbose)
  return (selection, compilers)

/-- The files that the caller chose to add, if any. They are found by a task, which has a number. -/
def chosenIncludes (options : CheckOptions) (cwd : Path) (task : Nat) :
    Checking (Option (List Path)) := do
  match options.includes with
  | none => return none
  | some patterns =>
      let expansion ← orFail
        ((Expansion.ofPatterns (← get).tree cwd patterns).mapError (Halt.failure task))
      return some expansion.files

/-- Make a group ready for a compiler, if it has sources. -/
def prepare (s : Surroundings) (host : ProgramHost) (options : CheckOptions) (cwd : Path)
    (group : FileGroup) : Checking (Option PreparedGroup) := do
  let config ← loadConfig group.configPath
  let roots := group.sources config
  if roots.isEmpty then
    tell (group.emptyEvents config options.verbose)
    return none
  let (selection, compilers) ← chooseCompiler s options config
  let includes ← chosenIncludes options cwd (s.taskNumber (some group.configPath))
  let closure ← discover host {
    config, roots, projectDir := config.dir, verbose := options.verbose, includes
    limits := options.limits, heuristics := options.heuristics }
  let handle ←
    createConfig s config (closure.selection roots) closure.setupFiles options.synthesis
  return some ⟨config.configPath, handle, selection, compilers, roots, closure⟩

/-- Run the compilers on a group that is ready, and remove its temporary config. -/
def compile (options : CheckOptions) (cwd : Path) (p : PreparedGroup) : Checking Execution := do
  let execution ← runCompilers cwd p.handle.path {
    selection := p.selection, paths := p.compilers, fallback := options.fallback
    timeoutMs := options.timeoutMs, verbose := options.verbose }
  release p.handle
  return execution

/-- What a compiler found in a group. -/
def outputOf (p : PreparedGroup) (e : Execution) : GroupOutput where
  summary :=
    ⟨p.configPath, e.compiler, e.reason, p.closure.files.length, p.closure.discovered⟩
  success := e.outcome = .success
  findings := e.findings
  checkedFiles := p.roots
  setupFiles := p.handle.setupFiles

/-- Check a group, if it has sources. -/
def check (s : Surroundings) (host : ProgramHost) (options : CheckOptions) (cwd : Path)
    (group : FileGroup) : Checking (Option GroupOutput) := do
  match ← group.prepare s host options cwd with
  | none => return none
  | some p =>
      let execution ← compile options cwd p
      match execution.systemFailure? with
      | some failure => throw failure
      | none =>
          tell (finishedEvents execution options.verbose)
          return some (outputOf p execution)

end FileGroup

end ScopedCheck
