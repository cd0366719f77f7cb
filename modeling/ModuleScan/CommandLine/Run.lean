/-
  ModuleScan/CommandLine/Run.lean
  ===============================
  **A run of the program.**

  A run either writes the whole result and ends with 0, or writes nothing but
  one error and ends with another code.
-/
import ModuleScan.CommandLine.Failure
import ModuleScan.Files.Search
import ModuleScan.Report

namespace ModuleScan

/-! ### Scanning files -/

def decodeSource (path : String) (content : ByteArray) : Except Failure String :=
  match String.fromUTF8? content with
  | some source => .ok source
  | none => .error (.invalidUtf8 path)

def scanContent (path : String) (unique : Bool) (content : Except ReadFailure ByteArray) :
    Except Failure Report :=
  match content with
  | .error cause => .error (.ofRead path cause)
  | .ok bytes =>
    match decodeSource path bytes with
    | .error failure => .error failure
    | .ok source => .ok (.ofSource path source unique)

/-- Scans files in order.  The first that cannot be read ends the scan. -/
def scanFiles (files : Files) (unique : Bool) (paths : List Path) : Except Failure (List Report) :=
  paths.mapM fun p => scanContent p.text unique (files.read p)

def discoverFiles (files : Files) (noIgnore : Bool) (paths : List Path) :
    Except Failure (List Path) :=
  match files.discover noIgnore paths with
  | .error (p, cause) => .error (.ofRead p.text cause)
  | .ok found => .ok found

/-! ### Running -/

def stdinLabel : String := "<stdin>"

def Options.reports (o : Options) (files : Files) (stdin : Except ReadFailure ByteArray) :
    Except Failure (List Report) := do
  if o.stdin then
    let report ← scanContent stdinLabel o.unique stdin
    return [report]
  else
    let found ← discoverFiles files o.noIgnore o.paths
    scanFiles files o.unique found

structure RunResult where
  code : Nat
  stdout : String
  stderr : String
deriving DecidableEq, Repr

def versionText : String := "depscan 0.1.0"

def usageText : String :=
  "Usage: depscan [options] [paths...]

List the module references (imports, re-exports, dynamic imports, and
require calls) of JavaScript and TypeScript files. Directories are searched
recursively for .js .jsx .mjs .cjs .ts .tsx .mts .cts files.

Options:
  --json          Print results as a JSON array
  --stdin         Scan standard input instead of paths
  --no-warnings   Do not print diagnostics to stderr
  --unique        Report each module once per file
  --no-parallel   Scan files one at a time
  --no-ignore     Also search hidden directories and node_modules
  -v, --verbose   Log scanner activity to stderr
  -h, --help      Print this help
  -V, --version   Print the version"

def errorLine (failure : Failure) : String := "error: " ++ failure.message ++ "\n"

def RunResult.ofFailure (failure : Failure) : RunResult where
  code := failure.exitCode
  stdout := ""
  stderr := errorLine failure

/-- The result of a scan: the reports, and the diagnostics unless they are left
    out. -/
def Options.result (o : Options) (reports : List Report) : RunResult where
  code := 0
  stdout := if o.json then Report.json reports else Report.plain reports
  stderr := if o.noWarnings then "" else Report.warnings reports

def run (files : Files) (stdin : Except ReadFailure ByteArray) (arguments : List String) :
    RunResult :=
  match Command.ofArguments arguments with
  | .error e =>
    let failure := Failure.ofUsage e
    { code := failure.exitCode, stdout := "",
      stderr := errorLine failure ++ "Run 'depscan --help' for usage\n" }
  | .ok .help => { code := 0, stdout := usageText ++ "\n", stderr := "" }
  | .ok .version => { code := 0, stdout := versionText ++ "\n", stderr := "" }
  | .ok (.scan o) =>
    match o.reports files stdin with
    | .error failure => .ofFailure failure
    | .ok reports => o.result reports

/-! ### Scanning side by side -/

/-- The results that a run may have.  Files that are scanned side by side may end in any
    order, and then the failure of any file that cannot be read may end the run. -/
inductive RunsTo (files : Files) (stdin : Except ReadFailure ByteArray) (arguments : List String) :
    RunResult → Prop
  | inOrder : RunsTo files stdin arguments (run files stdin arguments)
  | sideBySide {o : Options} {found : List Path} {p : Path} {failure : Failure} :
      Command.ofArguments arguments = .ok (.scan o) → o.stdin = false → o.parallel = true →
      discoverFiles files o.noIgnore o.paths = .ok found → p ∈ found →
      scanContent p.text o.unique (files.read p) = .error failure →
      RunsTo files stdin arguments (.ofFailure failure)

end ModuleScan
