/-
  ModuleScan/Proofs/Safety.lean
  =============================
  **A scan never misuses its saves or its source.**

  Closing a save that was never made, reading a literal where no quote stands and
  cutting off the boundaries of the source are faults, and a fault ends the run
  (`restore_eq_error`, `discard_eq_error`, `literal_eq_error`, `cut_eq_error`).
  No run on any source meets one.
-/
import ModuleScan.Proofs.Rounds

namespace ModuleScan

/-! ### Each misuse is a fault -/

namespace ScanM

theorem restore_eq_error {s : Scan} (hs : s.saved = []) :
    restore s = .error .restoreWithoutSave := by
  simp only [restore, Reader.restore, hs]
  rfl

theorem discard_eq_error {s : Scan} (hs : s.saved = []) :
    discard s = .error .discardWithoutSave := by
  simp only [discard, Reader.discard, hs]
  rfl

theorem literal_eq_error {s : Scan} (hs : s.cursor.current.any isQuote = false) :
    literal s = .error .literalWithoutQuote := by
  have hfilter : s.cursor.current.filter isQuote = none := by
    cases hc : s.cursor.current with
    | none => rfl
    | some c => simpa [hc] using hs
  simp only [literal, look, bind, StateT.bind, Except.bind, hfilter]
  rfl

theorem cut_eq_error {m : Mark} {s : Scan}
    (h : ¬ (m.offset ≤ s.cursor.offset ∧ isBoundary s.source m.offset = true ∧
      isBoundary s.source s.cursor.offset = true)) : ∃ fault, cut m s = .error fault := by
  unfold cut
  split
  · exact ⟨_, rfl⟩
  next hle =>
    split
    · exact ⟨_, rfl⟩
    next hm =>
      split
      · exact ⟨_, rfl⟩
      next hs =>
        simp only [Bool.not_eq_true, Bool.not_eq_false'] at hm hs
        exact absurd ⟨Nat.not_lt.mp hle, hm, hs⟩ h

end ScanM

/-! ### Rest between rounds -/

/-- No cursor is saved, and no literal is open. -/
structure Scan.AtRest (s : Scan) : Prop where
  saved : s.saved = []
  inString : s.cursor.inString = false

theorem Scan.atRest_ofSource (source : List Char) : (Scan.ofSource source).AtRest :=
  ⟨rfl, rfl⟩

theorem Scan.Onward.atRest {s t : Scan} (h : s.Onward t) (hs : s.AtRest) : t.AtRest :=
  ⟨h.saved.trans hs.saved, h.inString hs.inString⟩

/-! ### The run -/

open ScanM in
/-- **A run on any source meets no fault.**  Every misuse would be one; every
    attempt leaves the saved cursors as it found them; and between rounds the
    cursor stands in the source, with nothing saved and no literal open. -/
theorem run_meets_no_fault (source : List Char) :
    (∀ s : Scan, s.saved = [] →
      restore s = .error .restoreWithoutSave ∧ discard s = .error .discardWithoutSave) ∧
    (∀ s : Scan, s.cursor.current.any isQuote = false →
      literal s = .error .literalWithoutQuote) ∧
    (∀ (s : Scan) (m : Mark),
      ¬ (m.offset ≤ s.cursor.offset ∧ isBoundary s.source m.offset = true ∧
        isBoundary s.source s.cursor.offset = true) → ∃ fault, cut m s = .error fault) ∧
    (∀ s : Scan, s.Sited →
      (∀ callee, (call callee).Ends s fun _ t => t.saved = s.saved) ∧
      (staticImport.Ends s fun _ t => t.saved = s.saved) ∧
      (exportFrom.Ends s fun _ t => t.saved = s.saved) ∧
      (s.cursor.current.any isQuote = true → literal.Ends s fun _ t => t.saved = s.saved)) ∧
    (∀ s, (Scan.ofSource source).Reaches s → s.source = source ∧ s.Sited ∧ s.AtRest) ∧
    ∃ t, (Scan.ofSource source).run (Scan.sited_ofSource source) = .ok t ∧
      t.AtRest ∧ t.cursor.current = none := by
  have hsited := Scan.sited_ofSource source
  have hrest := Scan.atRest_ofSource source
  refine ⟨?_, ?_, ?_, ?_, ?_, ?_⟩
  · intro s hs
    exact ⟨restore_eq_error hs, discard_eq_error hs⟩
  · intro s hs
    exact literal_eq_error hs
  · intro s m h
    exact cut_eq_error h
  · intro s hs
    refine ⟨?_, ?_, ?_, ?_⟩
    · intro callee
      exact (steady_call callee s hs).mono fun _ _ ht => ht.saved
    · exact (steady_staticImport s hs).mono fun _ _ ht => ht.saved
    · exact (steady_exportFrom s hs).mono fun _ _ ht => ht.saved
    · intro hq
      exact (steady_literal hs hq).mono fun _ _ ht => ht.saved
  · intro s hs
    have hon := hs.onward hsited
    exact ⟨hon.source, hs.sited hsited, hon.atRest hrest⟩
  · obtain ⟨t, ht, hon, hc⟩ := (Scan.ofSource source).run_eq_ok hsited
    exact ⟨t, ht, hon.atRest hrest, hc⟩

end ModuleScan
