/-
  ModuleScan/Scan/Run.lean
  ========================
  **A scan from the first character to the last.**

  At a lead character (`r`, `i` or `e`) the scan attempts the statements that
  can begin with it, and notes what came of it; any other character is stepped
  over.  Each such round passes at least one character and none meets a fault,
  so every scan comes to the end of its source.
-/
import ModuleScan.Scan.Progress

namespace ModuleScan

namespace ScanM

/-! ### One round -/

def attempt? : Char → Option (ScanM Outcome)
  | 'r' => some (firstOf (call .requireResolve) (call .require))
  | 'i' => some (firstOf (call .dynamicImport) staticImport)
  | 'e' => some exportFrom
  | _ => none

def noteOutcome (line : UInt32) (outcome : Outcome) : ScanM Unit :=
  match outcome.finding? line with
  | some finding => note finding
  | none => pure ()

/-- One round at the character `lead`: an attempt, or a step over it. -/
def round (lead : Char) : ScanM Unit :=
  match attempt? lead with
  | some attempt => do
    let start ← look
    let outcome ← attempt
    noteOutcome start.line outcome
  | none => move Cursor.advance

/-- The lead characters, and the attempts at them. -/
theorem attempt?_eq_some {lead : Char} {attempt : ScanM Outcome}
    (h : attempt? lead = some attempt) :
    lead = 'r' ∧ attempt = firstOf (call .requireResolve) (call .require) ∨
      lead = 'i' ∧ attempt = firstOf (call .dynamicImport) staticImport ∨
      lead = 'e' ∧ attempt = exportFrom := by
  unfold attempt? at h
  split at h
  · exact Or.inl ⟨rfl, (Option.some.inj h).symm⟩
  · exact Or.inr (Or.inl ⟨rfl, (Option.some.inj h).symm⟩)
  · exact Or.inr (Or.inr ⟨rfl, (Option.some.inj h).symm⟩)
  · cases h

theorem attempt?_of_isWhitespace {ch : Char} (h : isWhitespace ch = true) :
    attempt? ch = none := by
  have hall : ∀ d ∈ ['\r', '\n', '\u2028', '\u2029', ' ', '\t'], (attempt? d).isNone :=
    forall_mem_of_all (by decide)
  simpa using hall ch (mem_of_isWhitespace h)

theorem round_of_attempt?_eq_none {lead : Char} (h : attempt? lead = none) (s : Scan) :
    round lead s = .ok ((), { s with cursor := s.cursor.advance }) := by
  apply Ends.eq_ok
  simp [round, h]

theorem round_of_attempt {lead : Char} {attempt : ScanM Outcome} (h : attempt? lead = some attempt)
    {s t : Scan} {outcome : Outcome} (ht : attempt s = .ok (outcome, t)) :
    round lead s = .ok ((),
      { t with findings := (outcome.finding? s.cursor.line).toList ++ t.findings }) := by
  apply Ends.eq_ok
  rw [round, h, ends_bind, ends_look, ends_bind, ends_of_eq ht, noteOutcome]
  cases outcome.finding? s.cursor.line with
  | none => exact ends_pure.mpr ⟨rfl, rfl⟩
  | some finding => exact ends_note.mpr ⟨rfl, rfl⟩

/-- An attempt that matches nothing makes the round end where the attempt does. -/
theorem round_of_noMatch {lead : Char} {attempt : ScanM Outcome}
    (h : attempt? lead = some attempt) {s t : Scan} (ht : attempt s = .ok (.noMatch, t)) :
    round lead s = .ok ((), t) :=
  round_of_attempt h ht

theorem passes_attempt {lead : Char} {attempt : ScanM Outcome}
    (h : attempt? lead = some attempt) : attempt.Passes lead := by
  rcases attempt?_eq_some h with ⟨rfl, rfl⟩ | ⟨rfl, rfl⟩ | ⟨rfl, rfl⟩
  · exact (passes_call rfl).firstOf (passes_call rfl)
  · exact (passes_call rfl).firstOf passes_staticImport
  · exact passes_exportFrom

theorem steady_noteOutcome (line : UInt32) (outcome : Outcome) :
    (noteOutcome line outcome).Steady := by
  unfold noteOutcome
  split
  · exact steady_note _
  · exact steady_pure _

theorem passes_round (lead : Char) : (round lead).Passes lead := by
  unfold round
  split
  next attempt h =>
    exact Passes.look fun start => (passes_attempt h).bind fun _ => steady_noteOutcome _ _
  · exact passes_advance lead

end ScanM

namespace Scan

/-! ### All rounds -/

/-- Rounds up to the end of the text, or to the first fault. -/
def run (s : Scan) (hs : s.Sited) : Except Fault Scan :=
  match hc : s.cursor.current with
  | none => .ok s
  | some lead =>
    match ht : ScanM.round lead s with
    | .error fault => .error fault
    | .ok (_, t) => t.run (((ScanM.passes_round lead s hs hc).of_eq ht).sited hs)
termination_by s.cursor.rest.length
decreasing_by exact ((ScanM.passes_round lead s hs hc).of_eq ht).less

/-- A run reads to the end, meets no fault, leaves the saved cursors as they
    were and keeps what was found. -/
theorem run_eq_ok (s : Scan) (hs : s.Sited) :
    ∃ t, s.run hs = .ok t ∧ s.Onward t ∧ t.cursor.current = none := by
  fun_induction run s hs with
  | case1 s hs hc => exact ⟨s, rfl, .refl s, hc⟩
  | case2 s hs lead hc fault ht =>
    obtain ⟨_, _, h, _⟩ := ScanM.passes_round lead s hs hc
    rw [ht] at h
    cases h
  | case3 s hs lead hc _ t ht ih =>
    rcases ih with ⟨u, hu, hon, hend⟩
    exact ⟨u, hu, ((ScanM.passes_round lead s hs hc).of_eq ht).toOnward.trans hon, hend⟩

def finish (s : Scan) (hs : s.Sited) : Scan :=
  match h : s.run hs with
  | .ok t => t
  | .error _ => nomatch (run_eq_ok s hs).choose_spec.1.symm.trans h

theorem run_eq_finish (s : Scan) (hs : s.Sited) : s.run hs = .ok (s.finish hs) := by
  unfold finish
  split
  · assumption
  next h => exact nomatch (run_eq_ok s hs).choose_spec.1.symm.trans h

end Scan

end ModuleScan
