/-
  ModuleScan/Proofs/Silent.lean
  =============================
  **Visits at which nothing is found.**

  A round looks ahead no further than the visited characters go on like a word it
  tries.  So it can be told from a list of visits that rounds find nothing there: no
  statement begins at any of them, none of them opens a call, and the list does not
  end within the word of a callee (`Silent`).  Rounds then lead to the end of the
  list, whatever is visited after it (`Scan.reaches_of_silent`).
-/
import ModuleScan.Proofs.PartialKeyword
import ModuleScan.Proofs.Visits

namespace ModuleScan

/-! ### Silent visits -/

def callees : List Callee := [.dynamicImport, .require, .requireResolve]

theorem mem_callees (callee : Callee) : callee ∈ callees := by
  cases callee <;> decide

/-- Whether the visits end within the word of a callee, at the beginning of which a
    call may begin. -/
def breaksOff : List (Place × Char) → Bool
  | [] => false
  | (p, ch) :: later =>
    (p.followsCallBoundary &&
      callees.any fun callee => (ch :: later.map Prod.snd).isPrefixOf callee.word) ||
    breaksOff later

/-- No statement begins at any of the visits, none of them opens a call, and they do
    not end within the word of a callee. -/
structure Silent (visited : List (Place × Char)) : Prop where
  unbegun : ∀ v ∈ visited, v.1.statementStart = true → ScanM.attempt? v.2 = none
  unopened : ∀ v ∈ visited, v.2 ≠ '('
  unbroken : breaksOff visited = false

namespace Silent

variable {v : Place × Char} {visited : List (Place × Char)}

theorem tail (h : Silent (v :: visited)) : Silent visited where
  unbegun u hu := h.unbegun u (List.mem_cons_of_mem v hu)
  unopened u hu := h.unopened u (List.mem_cons_of_mem v hu)
  unbroken := (Bool.or_eq_false_iff.mp h.unbroken).2

theorem drop (h : Silent visited) (n : Nat) : Silent (visited.drop n) := by
  induction n generalizing visited with
  | zero => exact h
  | succ n ih =>
    cases visited with
    | nil => exact h
    | cons v visited => exact ih h.tail

theorem open_not_mem (h : Silent visited) : '(' ∉ visited.map Prod.snd := by
  intro hmem
  obtain ⟨v, hv, hopen⟩ := List.mem_map.mp hmem
  exact h.unopened v hv hopen

/-- What opens a call goes on neither up to the end of the visits nor beyond it. -/
theorem not_prefix_opening (h : Silent (v :: visited)) (hboundary : v.1.followsCallBoundary = true)
    (callee : Callee) : ¬ (v :: visited).map Prod.snd <+: callee.opening := by
  intro hprefix
  rcases List.prefix_concat_iff.mp hprefix with hall | hword
  · exact h.open_not_mem (by rw [hall]; simp)
  · have hbroken := (Bool.or_eq_false_iff.mp h.unbroken).1
    rw [hboundary, Bool.true_and, List.any_eq_false] at hbroken
    exact hbroken callee (mem_callees callee) (List.isPrefixOf_iff_prefix.mpr hword)

end Silent

/-! ### Cursors at silent visits -/

namespace Cursor

variable {c : Cursor}

theorem visits_iterate_advance (hc : c.inString = false) (n : Nat) :
    (advance^[n] c).visits = c.visits.drop n := by
  induction n with
  | zero => rfl
  | succ n ih =>
    have hin : (advance^[n] c).inString = false := (c.leads_iterate_advance n).inString.trans hc
    rw [Function.iterate_succ_apply', visits_advance hin, ih, List.tail_drop]

theorem toPlace_of_visits (hc : c.inString = false) {v : Place × Char}
    {visited : List (Place × Char)} (h : c.visits = v :: visited) :
    c.toPlace = v.1 ∧ c.current = some v.2 := by
  cases hr : c.rest with
  | nil =>
    rw [visits_of_rest_nil hr] at h
    cases h
  | cons ch rest =>
    rw [visits_of_rest_cons hc hr] at h
    cases h
    exact ⟨rfl, by rw [current, hr, List.head?_cons]⟩

/-- The characters that spell a word are visited one after the other. -/
theorem Spells.prefix_ahead {n : Nat} {word : List Char} (h : c.Spells n word)
    (hc : c.inString = false) : word.take n <+: c.ahead := by
  induction n generalizing c word with
  | zero => exact List.nil_prefix
  | succ n ih =>
    cases word with
    | nil => exact List.nil_prefix
    | cons ch word =>
      have hcur : c.current = some ch := h.current 0 (Nat.succ_pos n)
      have hspells : c.advance.Spells n word := by
        refine ⟨Nat.le_of_succ_le_succ h.le, ?_⟩
        intro i hi
        exact h.current (i + 1) (Nat.succ_lt_succ hi)
      have hrest := ih hspells (by rw [advance_inString, hc])
      rw [ahead_advance hc] at hrest
      rw [current_eq_head?_ahead hc] at hcur
      obtain ⟨later, hlater⟩ := List.head?_eq_some_iff.mp hcur
      rw [hlater, List.tail_cons] at hrest
      rw [hlater, List.take_succ_cons]
      exact List.cons_prefix_cons.mpr ⟨rfl, hrest⟩

variable {v : Place × Char} {visited later : List (Place × Char)}

/-- No call opens at silent visits, and the letters of a callee that do match do not go
    beyond them. -/
theorem misses_of_silent (hc : c.inString = false) (hvisits : c.visits = v :: visited ++ later)
    (h : Silent (v :: visited)) (hboundary : c.followsCallBoundary = true) (callee : Callee) :
    (c.eat callee.opening).1 = false ∧
      ∃ n ≤ (v :: visited).length, (c.eat callee.opening).2 = advance^[n] c := by
  have hplace := (toPlace_of_visits hc hvisits).1
  rw [hplace] at hboundary
  have hnot := h.not_prefix_opening hboundary callee
  have hahead : (v :: visited).map Prod.snd <+: c.ahead := by
    rw [ahead, hvisits, List.map_append]
    exact List.prefix_append _ _
  constructor
  · rw [← Bool.not_eq_true]
    intro heat
    have hopening : callee.opening <+: c.ahead := ⟨_, (ahead_eq_of_eat hc heat).symm⟩
    rcases List.prefix_or_prefix_of_prefix hahead hopening with hin | hin
    · exact hnot hin
    · exact h.open_not_mem (hin.subset (by simp [Callee.opening]))
  · obtain ⟨n, heat, hspells, -⟩ := c.exists_eat_spells callee.opening
    refine ⟨n, ?_, heat⟩
    rcases List.prefix_or_prefix_of_prefix hahead (hspells.prefix_ahead hc) with hin | hin
    · exact absurd (hin.trans (List.take_prefix n _)) hnot
    · have hlength := hin.length_le
      rwa [List.length_take, Nat.min_eq_left hspells.le, List.length_map] at hlength

end Cursor

/-! ### Rounds over silent visits -/

namespace ScanM

variable {s : Scan} {v : Place × Char} {visited later : List (Place × Char)}

theorem exists_call_of_silent (hc : s.cursor.inString = false)
    (hvisits : s.cursor.visits = v :: visited ++ later) (h : Silent (v :: visited))
    (callee : Callee) : ∃ d, call callee s = .ok (.noMatch, { s with cursor := d }) := by
  cases hboundary : s.cursor.followsCallBoundary with
  | false => exact ⟨_, call_idle hboundary callee⟩
  | true => exact ⟨_, call_of_uncalled (Cursor.misses_of_silent hc hvisits h hboundary callee).1
      hboundary⟩

/-- A round at silent visits passes some of them, and finds nothing. -/
theorem round_silent (hc : s.cursor.inString = false)
    (hvisits : s.cursor.visits = v :: visited ++ later) (h : Silent (v :: visited)) :
    ∃ n, 0 < n ∧ n ≤ (v :: visited).length ∧
      round v.2 s = .ok ((), { s with cursor := Cursor.advance^[n] s.cursor }) := by
  obtain ⟨hplace, hcur⟩ := Cursor.toPlace_of_visits hc hvisits
  cases hattempt : attempt? v.2 with
  | none => exact ⟨1, Nat.one_pos, Nat.succ_pos _, round_of_attempt?_eq_none hattempt s⟩
  | some attempt =>
    have hstart : s.cursor.statementStart = false := by
      rw [← Bool.not_eq_true, hplace]
      intro hstart
      rw [h.unbegun v List.mem_cons_self hstart] at hattempt
      cases hattempt
    rcases attempt?_eq_some hattempt with ⟨hlead, rfl⟩ | ⟨-, rfl⟩ | ⟨-, rfl⟩
    · obtain ⟨_, hfirst⟩ := exists_call_of_silent (s := s.trial) hc hvisits h .requireResolve
      cases hboundary : s.cursor.followsCallBoundary with
      | false =>
        exact ⟨1, Nat.one_pos, Nat.succ_pos _,
          round_of_noMatch hattempt (firstOf_eq_second hfirst (call_idle hboundary _))⟩
      | true =>
        obtain ⟨hmiss, n, hn, heat⟩ := Cursor.misses_of_silent hc hvisits h hboundary .require
        rw [hlead] at hcur
        refine ⟨n, Cursor.iterate_pos_of_eat hcur heat, hn, ?_⟩
        rw [← heat]
        exact round_of_noMatch hattempt
          (firstOf_eq_second hfirst (call_of_uncalled hmiss hboundary))
    · obtain ⟨_, hfirst⟩ := exists_call_of_silent (s := s.trial) hc hvisits h .dynamicImport
      exact ⟨1, Nat.one_pos, Nat.succ_pos _,
        round_of_noMatch hattempt (firstOf_eq_second hfirst (staticImport_idle hstart))⟩
    · exact ⟨1, Nat.one_pos, Nat.succ_pos _, round_of_noMatch hattempt (exportFrom_idle hstart)⟩

end ScanM

/-- **Nothing is found at silent visits.**  Rounds lead to the end of them, with the
    findings as they were. -/
theorem Scan.reaches_of_silent {s : Scan} (hc : s.cursor.inString = false)
    {visited later : List (Place × Char)} (hvisits : s.cursor.visits = visited ++ later)
    (h : Silent visited) :
    s.Reaches { s with cursor := Cursor.advance^[visited.length] s.cursor } := by
  -- a round may pass several characters, so the induction is on the number of visits
  induction hlength : visited.length using Nat.strongRecOn generalizing s visited with
  | ind length ih =>
    cases visited with
    | nil =>
      subst hlength
      exact .start
    | cons v visited =>
      obtain ⟨n, hpos, hle, hround⟩ := ScanM.round_silent hc hvisits h
      have hcur := (Cursor.toPlace_of_visits hc hvisits).2
      have hdropped : ((v :: visited).drop n).length = length - n := by
        rw [List.length_drop, hlength]
      have hrest := ih (length - n) (by omega)
        (s := { s with cursor := Cursor.advance^[n] s.cursor })
        ((s.cursor.leads_iterate_advance n).inString.trans hc)
        (by rw [Cursor.visits_iterate_advance hc, hvisits, List.drop_append_of_le_length hle])
        (h.drop n) hdropped
      rw [← Function.iterate_add_apply, Nat.sub_add_cancel (by omega)] at hrest
      exact (Scan.Reaches.start.round hcur hround).trans hrest

end ModuleScan
