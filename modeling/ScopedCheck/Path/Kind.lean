import ScopedCheck.Path.Basic
/-! # Kinds of paths

What the compiler takes a file for is decided by the end of its name alone. Installed packages are
told by the directory that they are in, and temporary configs go into a directory beside them. -/

namespace ScopedCheck.Path

/-- The name ends of type-checked sources. -/
def typedExtensions : List String := [".ts", ".tsx", ".mts", ".cts"]

/-- The name ends of sources that are loaded only where untyped sources are allowed. -/
def untypedExtensions : List String := [".js", ".jsx", ".mjs", ".cjs"]

/-- The name ends of declaration files. -/
def declarationExtensions : List String := [".d.ts", ".d.mts", ".d.cts"]

/-- Whether the name of a path ends in one of the given ways. -/
def endsInOneOf (p : Path) (ends : List String) : Bool :=
  ends.any fun ending => ending.toList.isSuffixOf p.name.toList

/-- Whether a path names a declaration file. -/
def isDeclaration (p : Path) : Bool := p.endsInOneOf declarationExtensions

/-- Whether the compiler takes a path as a source file. -/
def isSource (p : Path) (allowUntyped : Bool) : Bool :=
  p.endsInOneOf typedExtensions || (allowUntyped && p.endsInOneOf untypedExtensions)

/-- The directory that holds installed packages. -/
def packagesName : String := "node_modules"

/-- Whether a path leads through a directory of installed packages. -/
def isInPackages (p : Path) : Bool := p.hasStep packagesName

/-- The directory for the temporary configs of a project, unless another one is chosen. -/
def defaultCacheDir (projectDir : Path) : Path :=
  ((projectDir.child packagesName).child ".cache").child "tsc-files"

end ScopedCheck.Path
