import ScopedCheck.CommandLine.Arguments
/-! # Help

What the program tells about itself. -/

namespace ScopedCheck.Arguments

/-- The name of the program. -/
def programName : String := "tsc-files"

/-- The version of the program, in a line. -/
def versionText : String := programName ++ " 0.1.0\n"

/-- How the program is called, in a line. -/
def usageText : String := "Usage: " ++ programName ++ " [OPTIONS] <FILES>...\n"

/-- The options as they are written, and what they are for. -/
def optionHelp : List (String × String) :=
  [("-p, --project <PROJECT>",
      "Path to tsconfig.json or a directory containing it. Falls back to TSC_FILES_PROJECT"),
    ("    --cwd <CWD>", "Directory that relative files and the project path are resolved from"),
    ("    --emit", "Keep the project's emit settings instead of forcing noEmit"),
    ("    --skipLibCheck", "Skip type checking of declaration files"),
    ("    --cache-dir <CACHE_DIR>", "Directory for the temporary tsconfig files"),
    ("    --use-tsc", "Always use tsc"),
    ("    --use-tsgo", "Always use tsgo"),
    ("    --no-fallback", "Do not retry with tsc when tsgo fails"),
    ("    --include <INCLUDE>",
      "Extra files to check; disables automatic import and setup-file discovery"),
    ("    --timeout <TIMEOUT>", "Compiler timeout in seconds [default: 30]"),
    ("-v, --verbose", "Log compiler selection, cache and discovery decisions"),
    ("    --pretty <PRETTY>",
      "Force colored output on or off (defaults to auto-detect) [possible values: true, false]"),
    ("-h, --help", "Print help"),
    ("-V, --version", "Print version")]

/-- Lines with two columns. -/
def columns (rows : List (String × String)) : String :=
  let width := (rows.map (·.1.length)).foldl max 0
  String.join (rows.map fun (left, right) =>
    "  " ++ left ++ String.ofList (List.replicate (width - left.length) ' ') ++ "  " ++ right
      ++ "\n")

/-- The help. -/
def helpText : String :=
  "Type-check specific TypeScript files against their project's tsconfig\n\n"
    ++ usageText
    ++ "\nArguments:\n" ++ columns [("<FILES>...", "Files or glob patterns to check")]
    ++ "\nOptions:\n" ++ columns optionHelp

/-- Why no check was asked for, in words. -/
def Stop.message : Stop → String
  | helpWanted => "help is wanted"
  | versionWanted => "the version is wanted"
  | missingFiles => "no files are given"
  | badValue => "a value is missing or impossible"
  | badNumber => "a value is not a number in range"
  | unknownOption => "an option is unknown"
  | conflict => "an option is given twice or excludes another one"
  | unwantedValue => "an option takes no value"

end ScopedCheck.Arguments
