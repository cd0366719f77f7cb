/-
  ModuleScan/Scan/Literal.lean
  ============================
  **The string literal that names a module.**

  The text between the quotes is taken as it stands: escapes are not
  interpreted, and backslashes are kept.  The literal ends with the first quote
  of its kind that is not escaped.  A brace `{` or a plus sign before that means
  that the text is put together when the program runs.
-/
import ModuleScan.Scan.Basic

namespace ModuleScan

/-- Whether a literal goes on at a character: neither the closing quote, nor a
    sign that the text is computed. -/
def continuesLiteral (quote : Char) (p : Place) (c : Char) : Bool :=
  !(c == quote && !p.escaped) && c != '{' && c != '+'

namespace ScanM

/-- Reads from the opening quote up to the closing one.  The result is the text
    between them, or what is wrong with the literal. -/
def literalText (quote : Char) : ScanM (Except DiagnosticKind String) := do
  move (·.setInString true)
  move Cursor.advance
  let opening ← look
  move (·.skipWhile (continuesLiteral quote))
  let closing ← look
  match closing.current with
  | none => return .error .unterminatedSpecifier
  | some c =>
    if c == quote then
      let text ← cut opening.mark
      return .ok (String.ofList text)
    else return .error .dynamicSpecifier

/-- Reads the literal that opens at the cursor, which must stand on a quote, and
    moves past its closing quote.  A literal that names no module is reported,
    with the cursor left on the opening quote. -/
def literal : ScanM (Option String) := do
  let c ← look
  match c.current.filter isQuote with
  | none => fault .literalWithoutQuote
  | some quote =>
    match ← speculate (literalText quote) (·.isOk) with
    | .error kind =>
      report kind
      return none
    | .ok text =>
      move (·.setInString false)
      move Cursor.advance
      return some text

def onQuote : ScanM Bool := do
  let c ← look
  return c.current.any isQuote

def specifier (statement : Statement) : ScanM Outcome := do
  let quoted ← onQuote
  if quoted then
    match ← literal with
    | some text => return .reference text
    | none => return .rejected
  else
    report (.missingSpecifier statement)
    return .rejected

end ScanM

end ModuleScan
