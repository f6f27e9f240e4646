import ScopedCheck.Failure
import ScopedCheck.FileTree.Fault
/-! # Setbacks of discovery

Why the files to check could not be found by following imports. A setback is never a failure of the
check: it falls back to patterns. -/

namespace ScopedCheck

/-- Why files could not be discovered. -/
inductive Setback
  /-- A glob for tests or setup files that cannot be read. -/
  | badGlob (pattern : String) (fault : GlobFault)
  /-- Globs for tests or setup files that cannot be put together. -/
  | badGlobUnion (fault : GlobUnionFault)
  /-- A project that could not be scanned. -/
  | scan (failure : Failure)
  /-- A source that could not be read. -/
  | unreadable (path : Path) (fault : FileTree.Fault)
  /-- A program that could not be built, in the words of its builder. -/
  | builder (words : String)
  /-- No program to start from. -/
  | baseline (cause : Setback)
  deriving DecidableEq, Repr

namespace Setback

/-- The setback in words. -/
def message : Setback → String
  | badGlob pattern fault =>
      "invalid heuristic glob '" ++ pattern ++ "': " ++ Glob.faultMessage pattern fault
  | badGlobUnion fault => fault.message
  | scan failure => "failed to scan project for ambient declarations: " ++ failure.message
  | unreadable path fault => "failed to read " ++ path.text ++ ": " ++ fault.message
  | builder words => words
  | baseline cause => "failed to build baseline program: " ++ cause.message

end Setback

end ScopedCheck
