import ScopedCheck.Compiler.Selection
import ScopedCheck.FileTree.Basic
/-! # Looking for compilers

A compiler that is installed with a project, or with one around it, comes before one in a directory
that is searched for programs. Only there it matters whether the file may be started. -/

namespace ScopedCheck

/-- Whether a path leads to a file that may be started. -/
def FileTree.isExecutable (tree : FileTree) (path : Path) : Bool :=
  (tree.file? path).any (·.isExecutable)

namespace CompilerPaths

/-- Where the packages of a directory put an executable. -/
def installedIn (name : String) (dir : Path) : Path :=
  ((dir.child Path.packagesName).child ".bin").child name

/-- Where a compiler is. -/
def find? (tree : FileTree) (searchPath : List Path) (projectDir : Path) (kind : CompilerKind) :
    Option Path :=
  (projectDir.ancestors.map (installedIn kind.binaryName)).find? tree.isFile
    <|> (searchPath.map (·.child kind.binaryName)).find? tree.isExecutable

/-- Where the compilers for a project are. -/
def locate (tree : FileTree) (searchPath : List Path) (projectDir : Path) : CompilerPaths :=
  ⟨find? tree searchPath projectDir .primary, find? tree searchPath projectDir .standard⟩

end CompilerPaths

end ScopedCheck
