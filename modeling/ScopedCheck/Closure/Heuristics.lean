import ScopedCheck.Text.Split
/-! # What guides discovery

Bounds on how far imports are followed, and the names by which tests, their setup files and
generated files are recognized. -/

namespace ScopedCheck

/-- Bounds on following imports. -/
structure Limits where
  /-- The most imports between a root and a file. -/
  maxDepth : Nat := 50
  /-- The most files. -/
  maxFiles : Nat := 5000
  deriving DecidableEq, Repr, Inhabited

/-- Names by which files are recognized; globs are relative to the project. -/
structure Heuristics where
  /-- A root that matches one of these is a test. -/
  testGlobs : List String
  /-- Where setup files are by convention. -/
  setupGlobs : List String
  /-- Configs of test runners, which may name setup files. -/
  runnerConfigs : List String
  /-- The name ends of generated files. -/
  generatedEnds : List String
  deriving DecidableEq, Repr

namespace Heuristics

/-- A glob for one of several texts. -/
def oneOf (texts : List String) : String := "\x7b" ++ Text.joinTexts "," texts ++ "\x7d"

/-- The name ends of sources that may be setup files. -/
def setupExtensions : String := oneOf ["ts", "tsx", "mts", "cts", "js", "jsx"]

/-- Globs for tests. -/
def defaultTestGlobs : List String :=
  ["**/*." ++ oneOf ["test", "spec"] ++ "."
      ++ oneOf ["ts", "tsx", "mts", "cts", "js", "jsx", "mjs", "cjs"],
    "**/__tests__/**",
    "**/" ++ oneOf ["test", "tests"] ++ "/**"]

/-- Globs for setup files. -/
def defaultSetupGlobs : List String :=
  [oneOf ["setupTests", "setup-tests", "test-setup", "testSetup", "jest.setup", "vitest.setup"]
      ++ "." ++ setupExtensions,
    "src/" ++ oneOf ["setupTests", "setup-tests", "test-setup", "testSetup"] ++ "."
      ++ setupExtensions,
    oneOf ["test", "tests", "__tests__", "spec", "src/test", "src/tests", "src/__tests__"] ++ "/"
      ++ oneOf ["setup", "setupTests", "setup-tests", "test-setup", "global-setup", "globalSetup"]
      ++ "." ++ setupExtensions]

/-- The names of the configs of test runners. -/
def defaultRunnerConfigs : List String :=
  ["jest.config.ts", "jest.config.js", "jest.config.mjs", "jest.config.cjs", "jest.config.json",
    "vitest.config.ts", "vitest.config.mts", "vitest.config.js", "vitest.config.mjs",
    "vite.config.ts", "vite.config.mts", "vite.config.js", "vite.config.mjs", "package.json"]

/-- The name ends of generated files. -/
def defaultGeneratedEnds : List String :=
  [".gen.ts", ".gen.tsx", ".generated.ts", ".generated.tsx", ".gen.d.ts", ".generated.d.ts"]

instance : Inhabited Heuristics :=
  ⟨⟨defaultTestGlobs, defaultSetupGlobs, defaultRunnerConfigs, defaultGeneratedEnds⟩⟩

end Heuristics

end ScopedCheck
