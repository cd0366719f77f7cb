/-
  ModuleScan/Proofs/FirstOccurrences.lean
  =======================================
  **A report that names each module once.**

  Where every module is to be named once, the first occurrence of each is kept.  What is
  kept is the only list with these members in the order in which they first occur
  (`FirstOccurrences.unique`), so what a list adds to the one before it is what is new in
  it (`eraseDups_append_new`), and what has no repetition stays as it is.
-/
import Mathlib.Data.List.Sort
import ModuleScan.Report

namespace ModuleScan

section Lists

variable {α : Type} [BEq α]

/-! ### Lists without repetitions -/

/-- The members of a list, each kept where it occurs first. -/
structure FirstOccurrences (list kept : List α) : Prop where
  nodup : kept.Nodup
  mem_iff (a : α) : a ∈ kept ↔ a ∈ list
  sublist : kept.Sublist list
  /-- Members are kept in the order of their first positions in the list. -/
  ascending : kept.Pairwise fun a b => list.idxOf a < list.idxOf b

/-- The first occurrences are all that is kept, in the only order they can have. -/
theorem FirstOccurrences.unique {list kept kept' : List α} (h : FirstOccurrences list kept)
    (h' : FirstOccurrences list kept') : kept = kept' := by
  have : Std.Irrefl fun a b => list.idxOf a < list.idxOf b := ⟨fun a => Nat.lt_irrefl _⟩
  have : Std.Antisymm fun a b => list.idxOf a < list.idxOf b :=
    ⟨fun a b hab hba => absurd hba (Nat.lt_asymm hab)⟩
  apply h.ascending.eq_of_mem_iff h'.ascending
  intro a
  rw [h.mem_iff, h'.mem_iff]

/-- Repetitions are dropped from the front on: the first member is kept, and then what is
    kept of the list without it. -/
theorem eraseDups_induction {motive : List α → Prop} (nil : motive [])
    (cons : ∀ a l, motive (l.filter fun b => !b == a) → motive (a :: l)) :
    (l : List α) → motive l
  | [] => nil
  | a :: l => cons a l (eraseDups_induction nil cons (l.filter fun b => !b == a))
termination_by l => l.length
decreasing_by exact Nat.lt_succ_of_le (List.length_filter_le _ l)

variable [LawfulBEq α]

/-- What is left out changes nothing in the order in which other members first occur. -/
theorem idxOf_filter_lt_iff {p : α → Bool} {a b : α} (l : List α) (ha : p a = true)
    (hb : p b = true) :
    (l.filter p).idxOf a < (l.filter p).idxOf b ↔ l.idxOf a < l.idxOf b := by
  induction l with
  | nil => exact Iff.rfl
  | cons c l ih =>
    by_cases hc : p c = true
    · rw [List.filter_cons_of_pos hc]
      grind
    · rw [List.filter_cons_of_neg hc]
      grind

theorem firstOccurrences_eraseDups (l : List α) : FirstOccurrences l l.eraseDups := by
  induction l using eraseDups_induction with
  | nil => exact ⟨List.nodup_nil, fun a => Iff.rfl, .slnil, .nil⟩
  | cons a l ih =>
    have hother : ∀ b ∈ (l.filter fun b => !b == a).eraseDups, (!b == a) = true := by
      intro b hb
      exact (List.mem_filter.mp ((ih.mem_iff b).mp hb)).2
    have hmem : ∀ b, b ∈ (a :: l).eraseDups ↔ b ∈ a :: l := fun b => List.mem_eraseDups
    rw [List.eraseDups_cons] at hmem ⊢
    refine ⟨ih.nodup.cons ?_, hmem, (ih.sublist.trans List.filter_sublist).cons_cons a, ?_⟩
    · intro ha
      simpa using hother a ha
    -- the first member has position 0, and it stands before each of the others
    have hidx : ∀ b, (!b == a) = true → (a :: l).idxOf b = l.idxOf b + 1 := by
      intro b hb
      rw [List.idxOf_cons_ne]
      rintro rfl
      simp at hb
    refine List.Pairwise.cons ?_ (ih.ascending.imp_of_mem ?_)
    · intro b hb
      rw [List.idxOf_cons_self, hidx b (hother b hb)]
      exact Nat.succ_pos _
    · intro b c hb hc hlt
      rw [hidx b (hother b hb), hidx c (hother c hc), Nat.add_lt_add_iff_right]
      exact (idxOf_filter_lt_iff l (hother b hb) (hother c hc)).mp hlt

theorem eraseDups_of_nodup {l : List α} (h : l.Nodup) : l.eraseDups = l := by
  have hfirst := firstOccurrences_eraseDups l
  apply hfirst.sublist.eq_of_length_le
  apply h.length_le_of_subset
  intro a ha
  exact (hfirst.mem_iff a).mpr ha

theorem eraseDups_filter (p : α → Bool) (l : List α) :
    (l.filter p).eraseDups = l.eraseDups.filter p := by
  have hfirst := firstOccurrences_eraseDups l
  apply (firstOccurrences_eraseDups (l.filter p)).unique
  refine ⟨hfirst.nodup.filter p, ?_, hfirst.sublist.filter p, ?_⟩
  · intro a
    rw [List.mem_filter, List.mem_filter, hfirst.mem_iff]
  · apply (hfirst.ascending.filter p).imp_of_mem
    intro a b ha hb hlt
    exact (idxOf_filter_lt_iff l (List.mem_filter.mp ha).2 (List.mem_filter.mp hb).2).mpr hlt

/-- A list adds to the one before it what does not occur there. -/
theorem eraseDups_append_new (l l' : List α) :
    (l ++ l').eraseDups = l.eraseDups ++ l'.eraseDups.filter (· ∉ l) := by
  rw [List.eraseDups_append, List.removeAll, eraseDups_filter]
  congr 1
  apply List.filter_congr
  intro a ha
  simp

end Lists

/-! ### Reports -/

namespace Report

/-- **Each module is named once, where it is first named.**  What is kept of the modules is
    exactly their first occurrences, and the rest of a report stays as it is.  Modules
    behind others are kept if they are first in their list and not among the others; so
    what is kept is kept a second time.  Whether each module is to be named once matters
    to the report of a source in nothing else. -/
theorem dedup_keeps_first (r : Report) :
    (∀ kept, FirstOccurrences r.modules kept ↔ kept = r.dedup.modules) ∧
      r.dedup.path = r.path ∧ r.dedup.diagnostics = r.diagnostics ∧ r.dedup.dedup = r.dedup ∧
      (∀ ms ns, { r with modules := ms ++ ns }.dedup.modules =
        { r with modules := ms }.dedup.modules ++
          { r with modules := ns }.dedup.modules.filter (· ∉ ms)) ∧
      ∀ label source, ofSource label source true = (ofSource label source false).dedup := by
  have hfirst : FirstOccurrences r.modules r.dedup.modules := firstOccurrences_eraseDups _
  refine ⟨?_, rfl, rfl, ?_, fun ms ns => eraseDups_append_new ms ns, fun label source => rfl⟩
  · intro kept
    constructor
    · intro h
      exact h.unique hfirst
    · rintro rfl
      exact hfirst
  · rw [dedup, eraseDups_of_nodup hfirst.nodup]

end Report

end ModuleScan
