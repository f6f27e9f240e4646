import ScopedCheck.Compatibility
import ScopedCheck.Failure
/-! # Choosing a compiler

There are two compilers: a fast primary one, which cannot do everything, and the standard one. A
caller may force either of them; otherwise the primary one is chosen whenever it is installed and
can follow the config. -/

namespace ScopedCheck

/-- The two compilers. -/
inductive CompilerKind
  | primary
  | standard
  deriving DecidableEq, Repr, Inhabited

/-- The name of a compiler's executable. -/
def CompilerKind.binaryName : CompilerKind → String
  | .primary => "tsgo"
  | .standard => "tsc"

/-- Where the compilers are, as far as they are installed. -/
structure CompilerPaths where
  primary : Option Path := none
  standard : Option Path := none
  deriving DecidableEq, Repr, Inhabited

namespace CompilerPaths

/-- Where a compiler is. -/
def get? (paths : CompilerPaths) : CompilerKind → Option Path
  | .primary => paths.primary
  | .standard => paths.standard

/-- Where a compiler is, or the failure that it is not installed. -/
def require (paths : CompilerPaths) (kind : CompilerKind) : Except Failure Path :=
  match paths.get? kind with
  | some path => .ok path
  | none =>
      .error (.compilerFailed kind.binaryName
        (kind.binaryName ++ " not found in node_modules/.bin or on PATH") "")

end CompilerPaths

/-- The compiler chosen for a config, and why. -/
structure Selection where
  kind : CompilerKind
  reason : String
  compatibility : Option Compatibility
  deriving DecidableEq, Repr, Inhabited

namespace Selection

/-- Both compilers cannot be forced at once. -/
def conflict : Failure := .invalidOptions "--use-tsc and --use-tsgo cannot be combined"

/-- Choose a compiler. -/
def choose (forceStandard forcePrimary : Bool) (c : Compatibility) (paths : CompilerPaths) :
    Except Failure Selection :=
  match forceStandard, forcePrimary with
  | true, true => .error conflict
  | true, false => .ok ⟨.standard, "tsc forced by --use-tsc", some c⟩
  | false, true =>
      let reason :=
        if c.compatible then "tsgo forced by --use-tsgo"
        else "tsgo forced by --use-tsgo despite incompatible features: "
          ++ ", ".intercalate c.features
      .ok ⟨.primary, reason, some c⟩
  | false, false =>
      if paths.primary.isNone then .ok ⟨.standard, "tsgo not installed, using tsc", some c⟩
      else if !c.compatible then .ok ⟨.standard, "using tsc: " ++ c.recommendation, some c⟩
      else .ok ⟨.primary, "tsgo installed and configuration compatible", some c⟩

end Selection

end ScopedCheck
