/-
  ModuleScan/Report.lean
  ======================
  **What was found in one source, and the three ways to write it down.**

  Plain output has a line for each reference, warnings a line for each
  diagnostic, and the JSON document an object for each source.
-/
import ModuleScan.Extraction
import ModuleScan.Json.Basic

namespace ModuleScan

/-! ### Reports -/

structure Report where
  /-- Label of the source: its path as given or discovered. -/
  path : String
  modules : List String
  diagnostics : List Diagnostic
deriving DecidableEq, Repr

namespace Report

def dedup (r : Report) : Report := { r with modules := r.modules.eraseDups }

/-- The report of a source, with each module named once if `unique` is asked for. -/
def ofSource (label source : String) (unique : Bool) : Report :=
  let found := extract source label
  let report : Report :=
    { path := label, modules := found.references, diagnostics := found.diagnostics }
  if unique then report.dedup else report

/-! ### Lines -/

def moduleLine (path text : String) : String := path ++ ": " ++ text ++ "\n"

def warningLine (d : Diagnostic) : String := "warning: " ++ d.text ++ "\n"

def plain (reports : List Report) : String :=
  String.join (reports.flatMap fun r => r.modules.map (moduleLine r.path))

def warnings (reports : List Report) : String :=
  String.join (reports.flatMap fun r => r.diagnostics.map warningLine)

/-! ### Documents -/

/-- The document of a diagnostic.  The file is left out, since the report has it. -/
def diagnosticJson (d : Diagnostic) : Json :=
  .object [("kind", .text d.kind.name), ("message", .text d.kind.message), ("line", .number d.line)]

def toJson (r : Report) : Json :=
  .object [("path", .text r.path), ("modules", .array (r.modules.map .text)),
    ("diagnostics", .array (r.diagnostics.map diagnosticJson))]

def json (reports : List Report) : String := (Json.array (reports.map toJson)).pretty ++ "\n"

end Report

end ModuleScan
