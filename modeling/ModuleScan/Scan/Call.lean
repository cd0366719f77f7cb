/-
  ModuleScan/Scan/Call.lean
  =========================
  **Calls that load a module.**

  `import('m')`, `require('m')` and `require.resolve('m')`, with the opening
  parenthesis right after the name.
-/
import ModuleScan.Scan.Literal

namespace ModuleScan

inductive Callee where
  | dynamicImport
  | require
  | requireResolve
deriving DecidableEq, Repr

def Callee.word : Callee → List Char
  | .dynamicImport => ['i', 'm', 'p', 'o', 'r', 't']
  | .require => ['r', 'e', 'q', 'u', 'i', 'r', 'e']
  | .requireResolve =>
    ['r', 'e', 'q', 'u', 'i', 'r', 'e', '.', 'r', 'e', 's', 'o', 'l', 'v', 'e']

namespace ScanM

/-- What a call says after the opening parenthesis.  A literal that goes on with
    a plus sign is part of a sum; an argument that is no literal is computed,
    which is no fault of the program. -/
def callArgument : ScanM Outcome := do
  move Cursor.skipWhitespace
  let quoted ← onQuote
  if quoted then
    match ← literal with
    | none => return .rejected
    | some text =>
      move Cursor.skipWhitespace
      let after ← look
      if after.current == some '+' then
        report .dynamicSpecifier
        return .rejected
      else return .reference text
  else return .rejected

/-- A call of `callee`, which only a call boundary can precede. -/
def call (callee : Callee) : ScanM Outcome := do
  let c ← look
  if c.followsCallBoundary then
    let called ← eat (callee.word ++ ['('])
    if called then callArgument else return .noMatch
  else
    move Cursor.advance
    return .noMatch

end ScanM

end ModuleScan
