import ScopedCheck.Main
import ScopedCheck.Text.Search.Lemmas
import ScopedCheck.Proofs.Glob.Expansion
import ScopedCheck.Proofs.Check.Handover
import ScopedCheck.Proofs.Closure.Exactness
import ScopedCheck.Proofs.Config.Flattening
import ScopedCheck.Proofs.TempConfig.Compatibility
import ScopedCheck.Proofs.Closure.Staleness
import ScopedCheck.Proofs.Check.Partition
import ScopedCheck.Proofs.Check.Verdict
import ScopedCheck.Proofs.Closure.Sharing
import ScopedCheck.Proofs.TempConfig.Anchoring
import ScopedCheck.Proofs.TempConfig.BareImports
import ScopedCheck.Proofs.Compiler.Fallback
import ScopedCheck.Proofs.TempConfig.Lifecycle
import ScopedCheck.Proofs.Config.Keeping
import ScopedCheck.Proofs.Closure.Invalidation
import ScopedCheck.Proofs.TempConfig.Relocation
import ScopedCheck.Proofs.Check.Release
import ScopedCheck.Proofs.Closure.Setbacks
import ScopedCheck.Proofs.Check.Completion
import ScopedCheck.Proofs.Import.Aliases
import ScopedCheck.Proofs.Import.Directives
import ScopedCheck.Proofs.Import.RoundTrip
import ScopedCheck.Proofs.Import.Contents
import ScopedCheck.Proofs.Closure.Generated
import ScopedCheck.Proofs.Import.Selection
import ScopedCheck.Proofs.Config.Decorated
import ScopedCheck.Proofs.Compiler.Printed
import ScopedCheck.Proofs.Closure.Elsewhere
import ScopedCheck.Proofs.Closure.Room
import ScopedCheck.Proofs.Closure.Sources
import ScopedCheck.Proofs.Glob.Pruning
import ScopedCheck.Proofs.Import.Ranges
import ScopedCheck.Proofs.Config.Lines
