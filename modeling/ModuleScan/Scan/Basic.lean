/-
  ModuleScan/Scan/Basic.lean
  ==========================
  **The state of a scan, and reading on trial.**

  A scan is a reader of a source together with what it has found.  Each shape of
  statement is an attempt: a program over the scan that says what it made of the
  text.  `speculate` runs a program on trial and rewinds the reader if the result
  is not worth keeping; what was found before the rewinding stays found.
-/
import ModuleScan.Reader
import ModuleScan.Diagnostic

namespace ModuleScan

/-! ### What a scan finds -/

inductive Outcome where
  | reference (text : String)
  /-- The text has another shape. -/
  | noMatch
  /-- The statement concerns types only and needs no module when it runs. -/
  | typeOnly
  /-- The shape is there, but it gives no reference: the module is computed, or
      the statement is malformed and was reported. -/
  | rejected
deriving DecidableEq, Repr

/-- What is noted during a scan, with the line it was found on. -/
inductive Finding where
  | diagnostic (kind : DiagnosticKind) (line : UInt32)
  | reference (text : String) (line : UInt32)
  | typeOnly (line : UInt32)
  | rejected (line : UInt32)
deriving DecidableEq, Repr

def Outcome.finding? (line : UInt32) : Outcome → Option Finding
  | .reference text => some (.reference text line)
  | .noMatch => none
  | .typeOnly => some (.typeOnly line)
  | .rejected => some (.rejected line)

/-! ### Scans -/

/-- A reader of a source, and what was found so far, the latest first. -/
structure Scan extends Reader where
  source : List Char
  findings : List Finding
deriving DecidableEq, Repr

def Scan.ofSource (source : List Char) : Scan where
  toReader := Reader.ofSource source
  source := source
  findings := []

abbrev ScanM := StateT Scan (Except Fault)

namespace ScanM

def look : ScanM Cursor := fun s => .ok (s.cursor, s)

def read {α : Type} (f : Cursor → α × Cursor) : ScanM α :=
  fun s => .ok ((f s.cursor).1, { s with cursor := (f s.cursor).2 })

def move (f : Cursor → Cursor) : ScanM Unit := read fun c => ((), f c)

def eat (word : List Char) : ScanM Bool := read fun c => c.eat word

def note (finding : Finding) : ScanM Unit :=
  fun s => .ok ((), { s with findings := finding :: s.findings })

def report (kind : DiagnosticKind) : ScanM Unit := do
  let c ← look
  note (.diagnostic kind c.line)

def save : ScanM Unit := fun s => .ok ((), { s with toReader := s.toReader.save })

def restore : ScanM Unit := fun s => do
  return ((), { s with toReader := ← s.toReader.restore })

def discard : ScanM Unit := fun s => do
  return ((), { s with toReader := ← s.toReader.discard })

def fault {α : Type} (f : Fault) : ScanM α := fun _ => .error f

def cut (m : Mark) : ScanM (List Char) := fun s =>
  if s.cursor.offset < m.offset then .error (.cutAhead m.offset)
  else if !isBoundary s.source m.offset then .error (.cutOffBoundary m.offset)
  else if !isBoundary s.source s.cursor.offset then .error (.cutOffBoundary s.cursor.offset)
  else .ok (s.cursor.textSince m, s)

/-- Runs `m` on trial.  A result to keep commits what `m` read; any other result
    rewinds the cursor to where it was. -/
def speculate {α : Type} (m : ScanM α) (keep : α → Bool) : ScanM α := do
  save
  let a ← m
  if keep a then discard else restore
  return a

/-- Tries `first`, and if the text has another shape, rewinds and tries `second`. -/
def firstOf (first second : ScanM Outcome) : ScanM Outcome := do
  let outcome ← speculate first (· != .noMatch)
  if outcome == .noMatch then second else return outcome

end ScanM

end ModuleScan
