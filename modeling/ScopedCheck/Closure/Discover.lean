import ScopedCheck.Closure.Cache
import ScopedCheck.Closure.Scan
import ScopedCheck.Log
import ScopedCheck.TempConfig.Content
/-! # Discovering closures

The files that a compiler has to see to check the roots: the program that the compiler itself would
load, everything that imports of any kind lead to, the declarations of the project, the generated
files that types are imported from, and for tests the setup files. Nothing of an installed package is
among them.

Discovery never fails. After a setback the roots are left, together with the include patterns of the
config. -/

namespace ScopedCheck

/-- Something that builds the program of a compiler: the files that it would load for roots under a
config. -/
abbrev ProgramHost := FileTree → Config → List Path → Limits → Except Setback (List Path)

/-- Build the program by following the imports that a compiler follows. -/
def ProgramHost.native : ProgramHost := fun tree config roots limits => do
  let walk ← ImportWalk.ofRoots tree (.ofConfig config) roots limits
    Import.Kind.followedByCompiler
  return walk.files

namespace Closure

/-- What a temporary config lists for a closure. -/
def selection (closure : Closure) (roots : List Path) : FileSelection :=
  if closure.discovered then .exact closure.files
  else .patterns closure.includePatterns roots

/-- The generated files that types are imported from in one of some files. -/
def typeOnlyGenerated (tree : FileTree) (resolver : Import.Resolver) (files generated : List Path) :
    Except Setback (List Path) :=
  if generated.isEmpty then .ok []
  else do
    let targets ← files.mapM (ImportWalk.targetsOf tree resolver (· == .typeOnly))
    return targets.flatten.filter fun target => target.listed generated && !target.listed files

/-- The files that are added to a program: those that the caller chose, or those that following all
imports leads to; and the bound that the walk hit, with the number of files it took. -/
def added (tree : FileTree) (request : ClosureRequest) (resolver : Import.Resolver) :
    Except Setback (List Path × Option (LimitHit × Nat)) :=
  match request.includes with
  | some includes => .ok (includes.map Path.normalize, none)
  | none => do
      let walk ← ImportWalk.ofRoots tree resolver request.roots request.limits fun _ => true
      return (walk.files, walk.limit.map fun limit => (limit, walk.taken.length))

/-- The setup files of a request: only for tests, and only if the caller chose no files. -/
def setupFilesOf (tree : FileTree) (request : ClosureRequest) (r : Recognizer) :
    Except Setback (List Path) :=
  if request.includes.isNone && request.roots.any (r.isTest request.projectDir) then
    SetupFiles.find tree r request.projectDir request.config.allowsUntyped
  else .ok []

/-- A setback ends a discovery, but what was told before it stays. -/
def liftExcept {α : Type} (result : Except Setback α) : ExceptT Setback Told α :=
  ExceptT.mk (pure result)

/-- What is told about a bound that was hit. -/
def limitEvents (verbose : Bool) : Option (LimitHit × Nat) → List LogEvent
  | none => []
  | some (limit, taken) =>
      LogEvent.ifVerbose verbose .warn
        "import discovery limit reached, closure may be incomplete"
        [("limit", limit.message), ("discovered", toString taken)]

/-- What is told about setup files. -/
def setupEvents (verbose : Bool) (setupFiles : List Path) : List LogEvent :=
  if setupFiles.isEmpty then []
  else
    LogEvent.ifVerbose verbose .info "auto-included test setup files"
      [("count", toString setupFiles.length)]

/-- Find the files of a closure. Of several spellings of a root the last one is kept, and a root keeps
its spelling whatever way leads to it as well. -/
def compute (tree : FileTree) (host : ProgramHost) (request : ClosureRequest) (r : Recognizer)
    (scan : ProjectScan) : ExceptT Setback Told Closure := do
  let resolver := Import.Resolver.ofConfig request.config
  let program ← liftExcept
    ((host tree request.config request.roots request.limits).mapError Setback.baseline)
  let (more, limit) ← liftExcept (added tree request resolver)
  ExceptT.lift (Told.tell (limitEvents request.verbose limit))
  let files := Path.sortedUnique (request.roots.reverse ++ program ++ more ++ scan.ambient)
  let generated ← liftExcept (typeOnlyGenerated tree resolver files scan.generated)
  let setupFiles ← liftExcept (setupFilesOf tree request r)
  ExceptT.lift (Told.tell (setupEvents request.verbose setupFiles))
  let all := Path.sortedUnique (files ++ generated ++ setupFiles)
  return {
    files := all.filter (!·.isInPackages)
    discovered := true
    setupFiles
    includePatterns := request.config.searchPatterns
    ambientCount := scan.ambient.length }

/-- What is left after a setback. -/
def fallback (request : ClosureRequest) : Closure where
  files := request.roots
  discovered := false
  setupFiles := []
  includePatterns := request.config.searchPatterns
  ambientCount := 0

end Closure

namespace ClosureCache

/-- What is told about what is known. -/
def answerEvents (verbose : Bool) : KeptAnswer → List LogEvent
  | .hit closure =>
      LogEvent.ifVerbose verbose .info "closure cache hit"
        [("files", toString closure.files.length)]
  | .stale reason =>
      LogEvent.ifVerbose verbose .info "closure cache invalidated" [("reason", reason.message)]
  | .miss => []

/-- What is told about a new closure. -/
def foundEvents (request : ClosureRequest) (closure : Closure) : List LogEvent :=
  LogEvent.ifVerbose request.verbose .info "dependency closure discovered"
    [("roots", toString request.roots.length), ("files", toString closure.files.length),
      ("ambient", toString closure.ambientCount)]

/-- What is told about a setback. -/
def setbackEvents (request : ClosureRequest) (setback : Setback) : List LogEvent :=
  LogEvent.ifVerbose request.verbose .warn
    "dependency discovery failed, falling back to include patterns"
    [("config", request.config.configPath.text), ("error", setback.message)]

/-- The closure of a request, kept or found, with the kept closures after that. -/
def tryDiscover (cache : ClosureCache) (tree : FileTree) (host : ProgramHost)
    (request : ClosureRequest) : ExceptT Setback Told (Closure × ClosureCache) := do
  let r ← Closure.liftExcept (Recognizer.ofHeuristics request.heuristics)
  let scan ← Closure.liftExcept
    ((ProjectScan.ofConfig tree request.config r).mapError Setback.scan)
  let stamp := ConfigStamp.ofConfig tree request.config
  let known := cache.lookup tree request.key stamp scan.ambient.length
  ExceptT.lift (Told.tell (answerEvents request.verbose known))
  match known with
  | .hit closure => return (closure, cache)
  | _ =>
      let closure ← Closure.compute tree host request r scan
      ExceptT.lift (Told.tell (foundEvents request closure))
      return (closure, cache.store tree request.key stamp closure)

/-- The closure of a request. After a setback it is the fallback, and the kept closures are as they
were. -/
def discover (cache : ClosureCache) (tree : FileTree) (host : ProgramHost)
    (request : ClosureRequest) : Told (Closure × ClosureCache) := do
  match ← (cache.tryDiscover tree host request).run with
  | .ok found => return found
  | .error setback =>
      Told.tell (setbackEvents request setback)
      return (.fallback request, cache)

end ClosureCache

end ScopedCheck
