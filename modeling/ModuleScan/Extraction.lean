/-
  ModuleScan/Extraction.lean
  ==========================
  **The module references of a source.**

  A source is scanned only if one of the three keywords occurs in it.  The
  references come in source order, repetitions included, and so do the
  diagnostics.
-/
import ModuleScan.Scan.Run

namespace ModuleScan

/-! ### Findings -/

namespace Finding

def reference? : Finding → Option String
  | .reference text _ => some text
  | _ => none

def diagnostic? (label : String) : Finding → Option Diagnostic
  | .diagnostic kind line => some { kind, file := label, line }
  | _ => none

end Finding

/-- What a scan of the whole source finds, in the order found. -/
def scanFindings (source : List Char) : List Finding :=
  ((Scan.ofSource source).finish (Scan.sited_ofSource source)).findings.reverse

/-! ### The keyword test -/

def occursIn (word : List Char) : List Char → Bool
  | [] => word.isEmpty
  | c :: rest => word.isPrefixOf (c :: rest) || occursIn word rest

theorem occursIn_iff {word s : List Char} : occursIn word s = true ↔ word <:+: s := by
  induction s with
  | nil => simp [occursIn]
  | cons c rest ih => simp [occursIn, ih, List.infix_cons_iff]

def keywords : List (List Char) :=
  [['i', 'm', 'p', 'o', 'r', 't'], ['e', 'x', 'p', 'o', 'r', 't'],
   ['r', 'e', 'q', 'u', 'i', 'r', 'e']]

def mentionsKeyword (source : List Char) : Bool :=
  keywords.any fun word => occursIn word source

/-- What is found in a source.  Without a keyword it is not scanned. -/
def findings (source : List Char) : List Finding :=
  if mentionsKeyword source then scanFindings source else []

/-! ### The result -/

structure Extraction where
  references : List String
  diagnostics : List Diagnostic
deriving DecidableEq, Repr

def Extraction.ofFindings (label : String) (found : List Finding) : Extraction where
  references := found.filterMap Finding.reference?
  diagnostics := found.filterMap (Finding.diagnostic? label)

/-- Extracts the module references of a source.  The label names the source in
    diagnostics and is not otherwise looked at. -/
def extract (source label : String) : Extraction :=
  .ofFindings label (findings source.toList)

end ModuleScan
