/-
  ModuleScan/Log.lean
  ===================
  **The log of an extraction.**

  The log begins with the source and ends with the number of references, and in
  between it has one event for each attempt that matched and two for each
  diagnostic.  A source without a keyword is logged as such, and nothing else.

  Diagnostics go to a sink as they are found.  One sink collects them, another
  writes each to the log as a warning, and the references do not depend on the
  sink.
-/
import ModuleScan.Extraction

namespace ModuleScan

/-! ### Events -/

inductive Level where
  | warn
  | debug
  | trace
deriving DecidableEq, Repr

inductive Event where
  | entered (file : String) (bytes : Nat)
  | noKeyword
  /-- A diagnostic is about to be reported. -/
  | diagnostic (kind : DiagnosticKind) (line : UInt32)
  | warning (reported : Diagnostic)
  | reference (text : String) (line : UInt32)
  | typeOnly (line : UInt32)
  /-- An attempt found a statement without a reference. -/
  | rejected (line : UInt32)
  | extracted (count : Nat)
deriving DecidableEq, Repr

namespace Event

def level : Event → Level
  | .entered .. | .noKeyword | .extracted _ => .debug
  | .warning _ => .warn
  | .diagnostic .. | .reference .. | .typeOnly _ | .rejected _ => .trace

/-- The text of an event, none for the event that only opens a span. -/
def message? : Event → Option String
  | .entered .. => none
  | .noKeyword => some "no module keyword in source"
  | .diagnostic .. => some "diagnostic"
  | .warning reported => some reported.kind.message
  | .reference .. => some "module reference"
  | .typeOnly _ => some "type-only statement skipped"
  | .rejected _ => some "statement rejected"
  | .extracted _ => some "module references extracted"

end Event

/-! ### The log -/

def Finding.events (label : String) : Finding → List Event
  | .diagnostic kind line => [.diagnostic kind line, .warning { kind, file := label, line }]
  | .reference text line => [.reference text line]
  | .typeOnly line => [.typeOnly line]
  | .rejected line => [.rejected line]

def extractionLog (source label : String) : List Event :=
  .entered label source.utf8ByteSize ::
    if mentionsKeyword source.toList then
      (findings source.toList).flatMap (Finding.events label) ++
        [.extracted (extract source label).references.length]
    else [.noKeyword]

/-! ### Sinks -/

/-- What takes the diagnostics of an extraction.  Taking one may add to the log. -/
structure Sink (σ : Type) where
  take : Diagnostic → σ → List Event × σ

/-- An extraction under way: what it has found, what it has logged, and what its
    sink has made of the diagnostics. -/
structure Progress (σ : Type) where
  references : List String
  log : List Event
  sink : σ

namespace Sink

variable {σ : Type}

def tell (sink : Sink σ) (label : String) (p : Progress σ) : Finding → Progress σ
  | .diagnostic kind line =>
    let taken := sink.take { kind, file := label, line } p.sink
    { p with log := p.log ++ .diagnostic kind line :: taken.1, sink := taken.2 }
  | .reference text line =>
    { p with references := p.references ++ [text], log := p.log ++ [.reference text line] }
  | .typeOnly line => { p with log := p.log ++ [.typeOnly line] }
  | .rejected line => { p with log := p.log ++ [.rejected line] }

def extract (sink : Sink σ) (start : σ) (source label : String) : Progress σ :=
  let entered : Progress σ :=
    { references := [], log := [.entered label source.utf8ByteSize], sink := start }
  if mentionsKeyword source.toList then
    let told := (findings source.toList).foldl (sink.tell label) entered
    { told with log := told.log ++ [.extracted told.references.length] }
  else { entered with log := entered.log ++ [.noKeyword] }

end Sink

end ModuleScan
