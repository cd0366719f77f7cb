/-
  ModuleScan/CommandLine/Failure.lean
  ===================================
  **What ends a run without a result.**

  A malformed statement is no failure: it is reported beside the results.
-/
import ModuleScan.Files.Basic
import ModuleScan.CommandLine.Arguments

namespace ModuleScan

inductive Failure where
  | unreadable (path : String) (cause : ReadFailure)
  | invalidUtf8 (path : String)
  | usage (text : String)
  | output (cause : String)
deriving DecidableEq, Repr

namespace Failure

/-- The failure to read a path.  Data that is invalid is no UTF-8 text. -/
def ofRead (path : String) (cause : ReadFailure) : Failure :=
  if cause.kind == .invalidData then .invalidUtf8 path else .unreadable path cause

def ofUsage (e : UsageError) : Failure := .usage e.message

def message : Failure → String
  | .unreadable path ⟨.notFound, _⟩ => "cannot find '" ++ path ++ "'"
  | .unreadable path ⟨.permissionDenied, _⟩ => "permission denied reading '" ++ path ++ "'"
  | .unreadable path ⟨_, text⟩ => "error reading '" ++ path ++ "': " ++ text
  | .invalidUtf8 path => "'" ++ path ++ "' contains invalid UTF-8 data"
  | .usage text => text
  | .output cause => "failed to write output: " ++ cause

def exitCode : Failure → Nat
  | .usage _ => 2
  | _ => 1

end Failure

end ModuleScan
