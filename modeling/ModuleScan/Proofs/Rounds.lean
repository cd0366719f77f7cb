/-
  ModuleScan/Proofs/Rounds.lean
  =============================
  **The scans between the rounds of a run.**

  `s.Reaches t` says that rounds lead from `s` to `t`.  A property that a round
  keeps holds of every scan reached, and a run goes on from any of them as if it
  had begun there.
-/
import ModuleScan.Scan.Run

namespace ModuleScan.Scan

/-- Rounds lead from `s` to the scan. -/
inductive Reaches (s : Scan) : Scan → Prop
  | start : Reaches s s
  | round {t u : Scan} {lead : Char} : Reaches s t → t.cursor.current = some lead →
      ScanM.round lead t = .ok ((), u) → Reaches s u

theorem Reaches.trans {s t u : Scan} (h : s.Reaches t) (h' : t.Reaches u) : s.Reaches u := by
  induction h' with
  | start => exact h
  | round _ hc hr ih => exact ih.round hc hr

theorem Reaches.onward {s t : Scan} (h : s.Reaches t) (hs : s.Sited) : s.Onward t := by
  induction h with
  | start => exact .refl s
  | round _ hc hr ih =>
    have hpast := (ScanM.passes_round _ _ (ih.sited hs) hc).of_eq hr
    exact ih.trans hpast.toOnward

theorem Reaches.sited {s t : Scan} (h : s.Reaches t) (hs : s.Sited) : t.Sited :=
  (h.onward hs).sited hs

/-! ### Runs -/

theorem finish_of_end {s : Scan} (hs : s.Sited) (hc : s.cursor.current = none) :
    s.finish hs = s := by
  have hrun := s.run_eq_finish hs
  rw [run] at hrun
  split at hrun
  · exact (Except.ok.inj hrun).symm
  next lead hlead =>
    rw [hc] at hlead
    cases hlead

/-- A run goes on after a round as if it had begun there. -/
theorem finish_of_round {s t : Scan} {lead : Char} (hs : s.Sited) (ht : t.Sited)
    (hc : s.cursor.current = some lead) (hr : ScanM.round lead s = .ok ((), t)) :
    s.finish hs = t.finish ht := by
  have hrun := s.run_eq_finish hs
  rw [run] at hrun
  split at hrun
  next hnone =>
    rw [hc] at hnone
    cases hnone
  next lead' hlead =>
    obtain rfl : lead' = lead := Option.some.inj (hlead.symm.trans hc)
    split at hrun
    next fault hfault =>
      rw [hr] at hfault
      cases hfault
    next u hu =>
      rw [hr] at hu
      cases hu
      exact Except.ok.inj (hrun.symm.trans (t.run_eq_finish ht))

theorem Reaches.finish_eq {s t : Scan} (h : s.Reaches t) (hs : s.Sited) :
    s.finish hs = t.finish (h.sited hs) := by
  induction h with
  | start => rfl
  | round h hc hr ih => exact ih.trans (finish_of_round _ _ hc hr)

theorem reaches_finish (s : Scan) (hs : s.Sited) : s.Reaches (s.finish hs) := by
  fun_induction run s hs with
  | case1 s hs hc =>
    rw [finish_of_end hs hc]
    exact .start
  | case2 s hs lead hc fault ht =>
    obtain ⟨_, _, h, _⟩ := ScanM.passes_round lead s hs hc
    rw [ht] at h
    cases h
  | case3 s hs lead hc _ t ht ih =>
    have hsited : t.Sited := ((ScanM.passes_round lead s hs hc).of_eq ht).sited hs
    rw [finish_of_round hs hsited hc ht]
    exact (Reaches.start.round hc ht).trans ih

/-- A relation that rounds keep between two scans holds of the scans they come to.
    The second may need more rounds for what the first does in one. -/
theorem finish_related {R : Scan → Scan → Prop}
    (hend : ∀ {s t}, R s t → s.cursor.current = none →
      ∃ t', t.Reaches t' ∧ t'.cursor.current = none ∧ R s t')
    (hround : ∀ {s t lead}, s.Sited → t.Sited → R s t → s.cursor.current = some lead →
      ∃ s' t', s.Reaches s' ∧ t.Reaches t' ∧ s.Past s' ∧ R s' t')
    {s t : Scan} (hs : s.Sited) (ht : t.Sited) (h : R s t) : R (s.finish hs) (t.finish ht) := by
  cases hcur : s.cursor.current with
  | none =>
    obtain ⟨t', hreach, hcur', h'⟩ := hend h hcur
    rw [finish_of_end hs hcur, hreach.finish_eq ht, finish_of_end _ hcur']
    exact h'
  | some lead =>
    obtain ⟨s', t', hreach, hreach', hpast, h'⟩ := hround hs ht h hcur
    have hless := hpast.less
    rw [hreach.finish_eq hs, hreach'.finish_eq ht]
    exact finish_related hend hround _ _ h'
termination_by s.cursor.rest.length

end ModuleScan.Scan
