/-
  ModuleScan/Diagnostic.lean
  ==========================
  **What can be wrong with a statement that names a module.**

  A diagnostic never ends a scan: the statement is skipped and the scan goes on
  after it.
-/
namespace ModuleScan

/-! ### Kinds -/

inductive Statement where
  | importing
  | exporting
deriving DecidableEq, Repr

def Statement.word : Statement → String
  | .importing => "import"
  | .exporting => "export"

inductive DiagnosticKind where
  | unterminatedSpecifier
  /-- The module specifier holds an interpolation or is part of a sum, so its
      value is known only when the program runs. -/
  | dynamicSpecifier
  | namespaceWithoutAlias
  | missingFrom
  | missingSpecifier (statement : Statement)
  | unterminatedImport
deriving DecidableEq, Repr

namespace DiagnosticKind

def message : DiagnosticKind → String
  | .unterminatedSpecifier => "unterminated module specifier string"
  | .dynamicSpecifier => "unsupported dynamic module specifier"
  | .namespaceWithoutAlias => "namespace import `*` is missing `as <name>`"
  | .missingFrom => "import has no `from` clause"
  | .missingSpecifier statement =>
    statement.word ++ " `from` is not followed by a module specifier string"
  | .unterminatedImport => "import bindings run to end of input"

/-- The name for a program.  It leaves the statement out. -/
def name : DiagnosticKind → String
  | .unterminatedSpecifier => "unterminated-specifier"
  | .dynamicSpecifier => "dynamic-specifier"
  | .namespaceWithoutAlias => "namespace-without-alias"
  | .missingFrom => "missing-from"
  | .missingSpecifier _ => "missing-specifier"
  | .unterminatedImport => "unterminated-import"

/-- The name in the log, which tells all kinds apart. -/
def logName : DiagnosticKind → String
  | .unterminatedSpecifier => "UnterminatedSpecifier"
  | .dynamicSpecifier => "DynamicSpecifier"
  | .namespaceWithoutAlias => "NamespaceWithoutAlias"
  | .missingFrom => "MissingFrom"
  | .missingSpecifier .importing => "MissingSpecifier \x7b statement: Import \x7d"
  | .missingSpecifier .exporting => "MissingSpecifier \x7b statement: Export \x7d"
  | .unterminatedImport => "UnterminatedImport"

end DiagnosticKind

/-! ### Diagnostics -/

structure Diagnostic where
  kind : DiagnosticKind
  /-- Label of the source, usually its path. -/
  file : String
  line : UInt32
deriving DecidableEq, Repr

def Diagnostic.text (d : Diagnostic) : String :=
  d.kind.message ++ " (" ++ d.file ++ ":" ++ toString d.line ++ ")"

end ModuleScan
