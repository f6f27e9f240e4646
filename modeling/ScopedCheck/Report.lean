import ScopedCheck.Check.Result
import ScopedCheck.Text.Styled
/-! # Reports

What is printed about a result: the diagnostics in the layout of the compilers, then the failures,
the setup files, the choices made for each group if the report is verbose, and a summary in one
line. -/

namespace ScopedCheck

open Text

/-- How reports are printed. -/
structure Reporter where
  color : Bool
  verbose : Bool
  deriving DecidableEq, Repr

/-- A number of things. -/
def counted (count : Nat) (noun : String) : String :=
  if count = 1 then "1 " ++ noun else toString count ++ " " ++ noun ++ "s"

namespace Reporter

/-- A text in a style, if the report is coloured. -/
def styled (r : Reporter) (style : Style) (text : String) : String :=
  if r.color then style.apply text else text

/-- The style of a severity. -/
def severityStyle : Severity → Style
  | .error => .boldRed
  | .warning => .boldYellow

/-- Where a diagnostic points to. -/
def location (d : Diagnostic) : String :=
  d.file ++ "(" ++ toString d.line ++ "," ++ toString d.column ++ ")"

/-- A diagnostic in the layout of the compilers. -/
def diagnostic (r : Reporter) (d : Diagnostic) : String :=
  r.styled .cyan (location d) ++ ": " ++ r.styled (severityStyle d.severity) d.severity.word ++ " "
    ++ r.styled .brightBlue d.code ++ ": " ++ d.message

/-- What a compiler left behind, on lines of its own. -/
def leftover : Failure → String
  | .compilerFailed _ _ output =>
      let output := trimmed output
      if output.isEmpty then "" else "\n" ++ output
  | _ => ""

/-- A failure in words. -/
def failure (r : Reporter) (f : Failure) : String :=
  r.styled .boldRed "error" ++ ": " ++ f.message ++ leftover f

/-- What a failure concerns. -/
def scope (f : GroupFailure) : String :=
  match f.configPath with
  | some path => path.text
  | none => ", ".intercalate f.patterns

/-- A group that could not be checked. -/
def groupFailure (r : Reporter) (f : GroupFailure) : String :=
  r.failure f.failure ++ " [" ++ scope f ++ "]"

/-- How a group was checked. -/
def groupSummary (r : Reporter) (g : GroupSummary) : String :=
  let discovery :=
    if g.discovered then toString g.closureSize ++ " files" else "include patterns"
  r.styled .dimmed <|
    g.configPath.text ++ ": " ++ r.styled .bold g.compiler.binaryName ++ " (" ++ g.reason ++ "), "
      ++ discovery

/-- The time a check took. -/
def duration (result : CheckResult) : String := "(" ++ toString result.milliseconds ++ " ms)."

/-- The result in one line. -/
def summary (r : Reporter) (result : CheckResult) : String :=
  let files := counted result.checkedFiles.length "file"
  let warnings := counted result.warningCount "warning"
  if 0 < result.errorCount then
    r.styled .boldRed
      ("Found " ++ counted result.errorCount "error" ++ " in " ++ files ++ " " ++ duration result)
  else if !result.failures.isEmpty then
    r.styled .boldRed
      ("Type check did not complete: " ++ counted result.failures.length "group" ++ " failed.")
  else if !result.success then
    r.styled .boldRed
      ("Type check failed with " ++ warnings ++ " and no errors in " ++ files ++ " "
        ++ duration result)
  else
    r.styled .green
      ("No type errors in " ++ files ++ (if 0 < result.warningCount then ", " ++ warnings else "")
        ++ " " ++ duration result)

/-- The setup files that were added, under a heading. -/
def setupLines (r : Reporter) (files : List Path) : List String :=
  if files.isEmpty then []
  else r.styled .dimmed "Included setup files:" :: files.map fun file => "  " ++ file.text

/-- The choices made for each group, if the report is verbose. -/
def groupLines (r : Reporter) (groups : List GroupSummary) : List String :=
  if r.verbose then groups.map r.groupSummary else []

/-- The lines of a report. -/
def lines (r : Reporter) (result : CheckResult) : List String :=
  (result.errors ++ result.warnings).map r.diagnostic
    ++ result.failures.map r.groupFailure
    ++ r.setupLines result.setupFiles
    ++ r.groupLines result.groups
    ++ [r.summary result]

/-- The report on a result. -/
def render (r : Reporter) (result : CheckResult) : String :=
  "\n".intercalate (r.lines result) ++ "\n"

end Reporter

end ScopedCheck
