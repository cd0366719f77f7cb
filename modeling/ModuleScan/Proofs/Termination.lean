/-
  ModuleScan/Proofs/Termination.lean
  ==================================
  **Every loop of a scan moves on.**

  A scan has four loops: its rounds, the clauses of an import, the skipping of
  visible characters, and the passing of hidden ones.  An attempt may rewind, and
  the skipping of a name may skip nothing; still each pass of a loop ends at a
  larger offset than it began at.  So a scan makes no more rounds than its source
  has characters, and each of the other loops ends as well (`scan_moves_on`).
-/
import Mathlib.Logic.Function.Iterate
import ModuleScan.Proofs.Rounds

namespace ModuleScan

/-! ### Offsets -/

theorem utf8Length_pos {text : List Char} (h : text ≠ []) : 0 < utf8Length text := by
  cases text with
  | nil => exact absurd rfl h
  | cons c text =>
    rw [utf8Length_cons]
    exact Nat.add_pos_left c.utf8Size_pos _

theorem Cursor.Onward.offset_lt {c d : Cursor} (h : c.Onward d)
    (hless : d.rest.length < c.rest.length) : c.offset < d.offset := by
  rcases h with ⟨text, hrest, hoff⟩
  have hne : text ≠ [] := by
    rintro rfl
    rw [hrest, List.nil_append] at hless
    exact Nat.lt_irrefl _ hless
  rw [hoff]
  exact Nat.lt_add_of_pos_right (utf8Length_pos hne)

theorem Cursor.advance_offset_lt {c : Cursor} {ch : Char} (h : c.current = some ch) :
    c.offset < c.advance.offset :=
  c.onward_advance.offset_lt (advance_lt h)

/-- A hidden character is passed like any other. -/
theorem Zone.hide?_offset_lt {z z' : Zone} {p p' : Place} {c : Char} {next : Option Char}
    (h : z.hide? p c next = some (z', p')) : p.offset < p'.offset := by
  obtain ⟨-, mark, rfl⟩ := Zone.hide?_eq_some h
  exact Nat.lt_add_of_pos_right c.utf8Size_pos

/-- Skipping is advancing some number of times. -/
theorem Cursor.exists_skipWhile_eq_iterate (keep : Place → Char → Bool) (c : Cursor) :
    ∃ n ≤ c.rest.length, c.skipWhile keep = advance^[n] c ∧
      ∀ i < n, (advance^[i] c).offset < (advance^[i + 1] c).offset := by
  by_cases hk : ∃ ch, c.current = some ch ∧ keep c.toPlace ch = true
  · obtain ⟨ch, hcur, hch⟩ := hk
    have hless : c.advance.rest.length < c.rest.length := advance_lt hcur
    obtain ⟨n, hn, hskip, hoff⟩ := exists_skipWhile_eq_iterate keep c.advance
    refine ⟨n + 1, Nat.succ_le_of_lt (Nat.lt_of_le_of_lt hn hless), ?_, ?_⟩
    · rw [skipWhile_eq_advance hcur hch, hskip, Function.iterate_succ_apply]
    · intro i hi
      cases i with
      | zero => exact advance_offset_lt hcur
      | succ i =>
        rw [Function.iterate_succ_apply, Function.iterate_succ_apply]
        exact hoff i (Nat.lt_of_succ_lt_succ hi)
  · refine ⟨0, Nat.zero_le _, ?_, fun i hi => absurd hi (Nat.not_lt_zero i)⟩
    apply skipWhile_eq_self
    intro ch hcur
    rw [← Bool.not_eq_true]
    intro hch
    exact hk ⟨ch, hcur, hch⟩
termination_by c.rest.length

/-! ### The clauses of an import -/

namespace Clause

theorem offset_lt_of_more {c d : Cursor} (h : read c = .more d) : c.offset < d.offset := by
  have hon := (read_leads c).onward
  rw [h] at hon
  exact hon.offset_lt (read_lt h)

/-- As many passes, none of which is the last one, lead from `c` to the cursor. -/
inductive Continues (c : Cursor) : Nat → Cursor → Prop
  | start : Continues c 0 c
  | pass {n : Nat} {d e : Cursor} : Continues c n d → read d = .more e → Continues c (n + 1) e

theorem Continues.length_le {c d : Cursor} {n : Nat} (h : Continues c n d) :
    n + d.rest.length ≤ c.rest.length := by
  induction h with
  | start => exact Nat.le_of_eq (Nat.zero_add _)
  | pass _ hread ih =>
    have hlt := read_lt hread
    omega

theorem Continues.cons {c d e : Cursor} {n : Nat} (hread : read c = .more d)
    (h : Continues d n e) : Continues c (n + 1) e := by
  induction h with
  | start => exact .pass .start hread
  | pass _ hlast ih => exact .pass ih hlast

/-- The passes over the clauses come to a last one, which is what the list comes to. -/
theorem exists_continues_last (c : Cursor) : ∃ n d, Continues c n d ∧
    read d = .last (Bindings.read c).1 (Bindings.read c).2 := by
  fun_induction Bindings.read c with
  | case1 c bindings d h => exact ⟨0, c, .start, h⟩
  | case2 c d h ih =>
    rcases ih with ⟨n, e, hcont, hlast⟩
    exact ⟨n + 1, e, .cons h hcont, hlast⟩

end Clause

/-! ### Rounds -/

namespace Scan

theorem Past.offset_lt {s t : Scan} (h : s.Past t) : s.cursor.offset < t.cursor.offset :=
  h.cursor.offset_lt h.less

/-- As many rounds lead from `s` to the scan. -/
inductive ReachesIn (s : Scan) : Nat → Scan → Prop
  | start : ReachesIn s 0 s
  | round {n : Nat} {t u : Scan} {lead : Char} : ReachesIn s n t →
      t.cursor.current = some lead → ScanM.round lead t = .ok ((), u) → ReachesIn s (n + 1) u

theorem ReachesIn.reaches {s t : Scan} {n : Nat} (h : s.ReachesIn n t) : s.Reaches t := by
  induction h with
  | start => exact .start
  | round _ hcur hround ih => exact .round ih hcur hround

theorem Reaches.exists_reachesIn {s t : Scan} (h : s.Reaches t) : ∃ n, s.ReachesIn n t := by
  induction h with
  | start => exact ⟨0, .start⟩
  | round _ hcur hround ih =>
    rcases ih with ⟨n, ih⟩
    exact ⟨n + 1, .round ih hcur hround⟩

theorem ReachesIn.length_le {s t : Scan} {n : Nat} (h : s.ReachesIn n t) (hs : s.Sited) :
    n + t.cursor.rest.length ≤ s.cursor.rest.length := by
  induction h with
  | start => exact Nat.le_of_eq (Nat.zero_add _)
  | round ht hcur hround ih =>
    have hpast := (ScanM.passes_round _ _ (ht.reaches.sited hs) hcur).of_eq hround
    have hless := hpast.less
    omega

end Scan

/-! ### The whole scan -/

/-- **Every loop of a scan moves on, and so a scan ends.**  Each round of a scan ends
    at a larger offset than it began at, so there are at most as many as the source
    has characters, and the last one leads to the end of the source.  Each pass over
    the clauses of an import that is not the last ends at a larger offset, and there
    is a last one.  Skipping advances a limited number of times, each time to a larger
    offset, and so is a hidden character passed. -/
theorem scan_moves_on (source : List Char) :
    (∀ s lead, (Scan.ofSource source).Reaches s → s.cursor.current = some lead →
      ∃ t, ScanM.round lead s = .ok ((), t) ∧ s.cursor.offset < t.cursor.offset) ∧
    (∀ n t, (Scan.ofSource source).ReachesIn n t → n ≤ source.length) ∧
    (∃ n t, (Scan.ofSource source).ReachesIn n t ∧ t.cursor.current = none ∧
      (Scan.ofSource source).run (Scan.sited_ofSource source) = .ok t) ∧
    (∀ c d, Clause.read c = .more d → c.offset < d.offset) ∧
    (∀ c, ∃ n d, n ≤ c.rest.length ∧ Clause.Continues c n d ∧
      Clause.read d = .last (Bindings.read c).1 (Bindings.read c).2) ∧
    (∀ keep c, ∃ n ≤ c.rest.length, c.skipWhile keep = Cursor.advance^[n] c ∧
      ∀ i < n, (Cursor.advance^[i] c).offset < (Cursor.advance^[i + 1] c).offset) ∧
    (∀ z p c next z' p', Zone.hide? z p c next = some (z', p') → p.offset < p'.offset) := by
  have hsited := Scan.sited_ofSource source
  refine ⟨?_, ?_, ?_, ?_, ?_, ?_, ?_⟩
  · intro s lead hs hcur
    obtain ⟨_, t, ht, hpast⟩ := ScanM.passes_round lead s (hs.sited hsited) hcur
    exact ⟨t, ht, hpast.offset_lt⟩
  · intro n t ht
    obtain ⟨before, hsource, -⟩ := Scan.sited_ofSource source
    have hlength : (Scan.ofSource source).cursor.rest.length ≤ source.length :=
      List.IsSuffix.length_le ⟨before, hsource.symm⟩
    have hle := ht.length_le hsited
    omega
  · obtain ⟨t, hrun, -, hend⟩ := (Scan.ofSource source).run_eq_ok hsited
    have hreach := (Scan.ofSource source).reaches_finish hsited
    have ht : (Scan.ofSource source).finish hsited = t :=
      Except.ok.inj ((Scan.run_eq_finish _ hsited).symm.trans hrun)
    rw [ht] at hreach
    obtain ⟨n, hn⟩ := hreach.exists_reachesIn
    exact ⟨n, t, hn, hend, hrun⟩
  · intro c d h
    exact Clause.offset_lt_of_more h
  · intro c
    obtain ⟨n, d, hcont, hlast⟩ := Clause.exists_continues_last c
    have hle := hcont.length_le
    exact ⟨n, d, by omega, hcont, hlast⟩
  · exact Cursor.exists_skipWhile_eq_iterate
  · intro z p c next z' p' h
    exact Zone.hide?_offset_lt h

end ModuleScan
