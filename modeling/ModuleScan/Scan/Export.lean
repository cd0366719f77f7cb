/-
  ModuleScan/Scan/Export.lean
  ===========================
  **Re-exports.**

  `export { a } from 'm'`, `export * from 'm'` and `export * as ns from 'm'`.
  An export without `from` names no module; it is not matched and nothing is
  reported.
-/
import ModuleScan.Scan.Import

namespace ModuleScan.ScanM

def exportSource : ScanM Outcome := do
  let hasFrom ← eat ['f', 'r', 'o', 'm']
  if hasFrom then
    move Cursor.skipWhitespace
    specifier .exporting
  else return .noMatch

/-- Exported names in braces.  Braces that are never closed are read as if they
    held nothing. -/
def exportBraces : ScanM Outcome := do
  let closed ← speculate (read fun c => ((c.skipUntil '}').current.isSome, c.skipUntil '}')) id
  move Cursor.advance
  if closed then
    move Cursor.skipWhitespace
    exportSource
  else return .noMatch

def exportStar : ScanM Outcome := do
  move Cursor.advance
  move Cursor.skipWhitespace
  let named ← eat ['a', 's']
  if named then
    move Cursor.skipWhitespace
    move Cursor.skipUntilWhitespace
    move Cursor.skipWhitespace
    exportSource
  else exportSource

def exportClause : ScanM Outcome := do
  let isType ← eat ['t', 'y', 'p', 'e']
  let c ← look
  if isType && c.current.any isWhitespace then return .typeOnly
  else
    match c.current with
    | some '{' => exportBraces
    | some '*' => exportStar
    | _ => return .noMatch

/-- A re-export, which only the start of a statement can hold. -/
def exportFrom : ScanM Outcome := do
  let c ← look
  if c.statementStart then
    let matched ← eat ['e', 'x', 'p', 'o', 'r', 't']
    let after ← look
    if matched && after.atWordEnd then
      move Cursor.skipWhitespace
      exportClause
    else return .noMatch
  else
    move Cursor.advance
    return .noMatch

end ModuleScan.ScanM
