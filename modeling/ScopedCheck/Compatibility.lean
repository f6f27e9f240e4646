import ScopedCheck.Config.Resolved
/-! # Compatibility with the primary compiler

The primary compiler cannot resolve imports against a base directory or a table of patterns, unless
modules are resolved as bundlers do. -/

namespace ScopedCheck

/-- Whether the primary compiler can follow a config, and what to do if it cannot. -/
structure Compatibility where
  compatible : Bool
  features : List String
  recommendation : String
  deriving DecidableEq, Repr, Inhabited

namespace Compatibility

/-- The features of a config that the primary compiler lacks. -/
def missingFeatures (config : Config) : List String :=
  let hasPaths := config.options.paths.isSome
  let hasBaseUrl := config.options.baseUrl.any fun value => !Text.isBlankText value
  if !config.isBundler && (hasPaths || hasBaseUrl) then ["baseUrl"] else []

/-- What to do about missing features. -/
def advice (config : Config) (features : List String) : String :=
  "tsgo does not support " ++ ", ".intercalate features ++ " with moduleResolution \""
    ++ config.options.moduleResolution.getD "node10"
    ++ "\"; switch to \"moduleResolution\": \"bundler\" or pass --use-tsc"

/-- Check a config against what the primary compiler can do. -/
def ofConfig (config : Config) : Compatibility :=
  let features := missingFeatures config
  if features.isEmpty then ⟨true, [], "configuration is compatible with tsgo"⟩
  else ⟨false, features, advice config features⟩

end Compatibility

end ScopedCheck
