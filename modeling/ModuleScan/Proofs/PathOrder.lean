/-
  ModuleScan/Proofs/PathOrder.lean
  ================================
  **Sorting paths.**

  The order of components is total, and only a component itself compares as equal
  to it; so the order of paths is total, and the paths that compare as equal are
  those that are the same.  Sorting keeps of each path the spelling that came
  first, and the sorted paths stand in strictly ascending order
  (`find?_sorted`, `pairwise_sorted`): they depend on nothing but which spelling
  of each path comes first (`sorted_congr`).
-/
import Mathlib.Data.List.Sort
import ModuleScan.Path.Order

namespace ModuleScan

open Std

/-! ### Components -/

namespace Component

def orderBytes (a b : Component) : Ordering :=
  compareOfLessAndEq a.bytes b.bytes

instance : TransCmp orderBytes :=
  have h : TransCmp fun s t : List UInt8 => compareOfLessAndEq s t :=
    @TransOrd.compareOfLessAndEq_of_antisymm_of_trans_of_total_of_not_le _ _ List.instLE _ _ _
      List.le_antisymm List.le_trans List.le_total List.not_le
  { eq_swap := h.eq_swap
    isLE_trans := h.isLE_trans }

instance : TransCmp order :=
  inferInstanceAs (TransCmp (compareLex (compareOn rank) orderBytes))

theorem eq_of_rank_of_bytes {a b : Component} (hrank : a.rank = b.rank)
    (hbytes : a.bytes = b.bytes) : a = b := by
  cases a <;> cases b <;> simp_all [rank, bytes, OsString.ext_iff]

instance : LawfulEqCmp order where
  eq_of_compare {a b} h := by
    rw [order, Ordering.then_eq_eq] at h
    exact eq_of_rank_of_bytes (LawfulEqCmp.eq_of_compare h.1)
      ((@compareOfLessAndEq_eq_eq _ _ List.instLE _ _ _ List.le_refl List.not_le).mp h.2)

end Component

/-! ### Sequences of components -/

theorem orderComponents_eq_compareLex :
    orderComponents = List.compareLex Component.order := by
  funext as bs
  induction as generalizing bs with
  | nil => cases bs <;> rfl
  | cons a as ih =>
    cases bs with
    | nil => rfl
    | cons b bs => rw [orderComponents, ih, List.compareLex_cons_cons]

instance : TransCmp orderComponents := by
  rw [orderComponents_eq_compareLex]
  infer_instance

instance : LawfulEqCmp orderComponents := by
  rw [orderComponents_eq_compareLex]
  infer_instance

theorem orderComponents_self (as : List Component) : orderComponents as as = .eq :=
  ReflCmp.compare_self

theorem orderComponents_swap (as bs : List Component) :
    orderComponents as bs = (orderComponents bs as).swap :=
  OrientedCmp.eq_swap

/-- A sequence of components sorts strictly before another. -/
def Ascends (as bs : List Component) : Prop := orderComponents as bs = .lt

instance : Irrefl Ascends where
  irrefl as h := by
    rw [Ascends, orderComponents_self] at h
    cases h

instance : Antisymm Ascends where
  antisymm _ _ h h' := absurd h' (OrientedCmp.not_lt_of_lt h)

namespace Path

/-! ### Paths -/

theorem same_iff {p q : Path} : p.same q = true ↔ p.components = q.components :=
  beq_iff_eq

theorem same_self (p : Path) : p.same p = true :=
  same_iff.mpr rfl

theorem le_trans (p q r : Path) (h : p.le q = true) (h' : q.le r = true) : p.le r = true :=
  TransCmp.isLE_trans h h'

theorem le_total (p q : Path) : (p.le q || q.le p) = true := by
  rw [le, le, orderComponents_swap]
  cases orderComponents q.components p.components <;> rfl

/-- A path sorts strictly before another. -/
def Before (p q : Path) : Prop := Ascends p.components q.components

theorem before_of_le {p q : Path} (h : p.le q = true) (hne : p.same q = false) : p.Before q := by
  rw [le, Ordering.isLE_iff_eq_lt_or_eq_eq] at h
  rcases h with h | h
  · exact h
  · rw [same_iff.mpr (LawfulEqCmp.eq_of_compare h)] at hne
    cases hne

theorem Before.trans {p q r : Path} (h : p.Before q) (h' : q.Before r) : p.Before r :=
  TransCmp.lt_trans h h'

theorem Before.same_eq {p q : Path} (h : p.Before q) : p.same q = false := by
  rw [Bool.eq_false_iff, ne_eq, same_iff]
  intro heq
  rw [Before, heq] at h
  exact irrefl _ h

/-! ### Dropping what repeats -/

theorem pairwise_dropRepeatedAfter {p : Path} {rest : List Path}
    (h : (p :: rest).Pairwise fun p q => p.le q = true) :
    (p :: dropRepeatedAfter p rest).Pairwise Before := by
  induction rest generalizing p with
  | nil => exact List.pairwise_singleton _ _
  | cons q rest ih =>
    obtain ⟨hp, hrest⟩ := List.pairwise_cons.mp h
    rw [dropRepeatedAfter]
    split
    · exact ih (h.sublist (List.Sublist.cons_cons p (List.sublist_cons_self q rest)))
    next hne =>
      have hbefore : p.Before q :=
        before_of_le (hp q List.mem_cons_self) (Bool.eq_false_iff.mpr hne)
      have hq := ih hrest
      refine hq.cons fun r hr => ?_
      rcases List.mem_cons.mp hr with rfl | hr
      · exact hbefore
      · exact hbefore.trans ((List.pairwise_cons.mp hq).1 r hr)

theorem pairwise_dropRepeated {l : List Path} (h : l.Pairwise fun p q => p.le q = true) :
    (dropRepeated l).Pairwise Before := by
  cases l with
  | nil => exact List.Pairwise.nil
  | cons p rest => exact pairwise_dropRepeatedAfter h

/-- The first spelling of a path is not dropped. -/
theorem find?_dropRepeatedAfter (q p : Path) (rest : List Path) :
    (p :: dropRepeatedAfter p rest).find? (·.same q) = (p :: rest).find? (·.same q) := by
  induction rest generalizing p with
  | nil => rfl
  | cons r rest ih =>
    rw [dropRepeatedAfter]
    split
    next hsame =>
      have hr : r.same q = p.same q := by rw [same, same, same_iff.mp hsame]
      rw [ih, List.find?_cons, List.find?_cons, List.find?_cons, hr]
      cases p.same q <;> rfl
    · rw [List.find?_cons, ih, List.find?_cons (a := p)]

theorem find?_dropRepeated (q : Path) (l : List Path) :
    (dropRepeated l).find? (·.same q) = l.find? (·.same q) := by
  cases l with
  | nil => rfl
  | cons p rest => exact find?_dropRepeatedAfter q p rest

/-! ### Sorting -/

/-- Sorting leaves paths that are the same in the order they had. -/
theorem filter_mergeSort (q : Path) (l : List Path) :
    (l.mergeSort le).filter (·.same q) = l.filter (·.same q) := by
  -- Paths that are the same compare as equal, and a stable sort keeps what is in order.
  have hpairwise : (l.filter (·.same q)).Pairwise fun p r => p.le r = true := by
    apply List.Pairwise.imp_of_mem ?_ (List.pairwise_of_forall fun _ _ => trivial)
    intro p r hp hr _
    have heq := (same_iff.mp (List.mem_filter.mp hp).2).trans
      (same_iff.mp (List.mem_filter.mp hr).2).symm
    rw [le, heq, orderComponents_self]
    rfl
  have hsub := (List.sublist_mergeSort le_trans le_total hpairwise List.filter_sublist).filter
    (·.same q)
  rw [List.filter_filter] at hsub
  simp only [Bool.and_self] at hsub
  exact (hsub.eq_of_length ((List.mergeSort_perm l le).filter _).length_eq.symm).symm

theorem find?_sorted (q : Path) (l : List Path) :
    (sorted l).find? (·.same q) = l.find? (·.same q) := by
  rw [sorted, find?_dropRepeated, ← List.head?_filter, filter_mergeSort, List.head?_filter]

/-- Sorted paths ascend strictly, so no two of them are the same. -/
theorem pairwise_sorted (l : List Path) : (sorted l).Pairwise Before :=
  pairwise_dropRepeated (List.pairwise_mergeSort le_trans le_total l)

theorem mem_iff_find? {l : List Path} (h : l.Pairwise Before) {q : Path} :
    q ∈ l ↔ l.find? (·.same q) = some q := by
  constructor
  · intro hq
    obtain ⟨before, after, rfl⟩ := List.mem_iff_append.mp hq
    rw [List.find?_eq_some_iff_append]
    refine ⟨same_self q, before, after, rfl, fun p hp => ?_⟩
    rw [((List.pairwise_append.mp h).2.2 p hp q List.mem_cons_self).same_eq]
    rfl
  · exact List.mem_of_find?_eq_some

theorem mem_sorted {l : List Path} {q : Path} :
    q ∈ sorted l ↔ l.find? (·.same q) = some q := by
  rw [mem_iff_find? (pairwise_sorted l), find?_sorted]

instance : Irrefl Before where
  irrefl p := irrefl (r := Ascends) p.components

instance : Antisymm Before where
  antisymm _ _ h h' := absurd h' (OrientedCmp.not_lt_of_lt h)

/-- Sorting depends only on which spelling of each path comes first. -/
theorem sorted_congr {l l' : List Path}
    (h : ∀ q : Path, l.find? (·.same q) = l'.find? (·.same q)) : sorted l = sorted l' := by
  apply (pairwise_sorted l).eq_of_mem_iff (pairwise_sorted l')
  intro q
  rw [mem_sorted, mem_sorted, h]

/-- Whether some spelling of a path is among the paths is not changed by sorting. -/
theorem exists_same_sorted {l : List Path} {q : Path} :
    (∃ p ∈ sorted l, p.same q = true) ↔ ∃ p ∈ l, p.same q = true := by
  rw [← List.find?_isSome, ← List.find?_isSome, find?_sorted]

/-- Lists of paths that have the same paths, spelled in any way, are the same path by
    path when sorted. -/
theorem components_sorted_congr {l l' : List Path}
    (h : ∀ q : Path, (∃ p ∈ l, p.same q = true) ↔ ∃ p ∈ l', p.same q = true) :
    (sorted l).map components = (sorted l').map components := by
  have hmem : ∀ {l : List Path} {as : List Component},
      as ∈ (sorted l).map components ↔ ∃ p ∈ l, p.components = as := by
    intro l as
    rw [List.mem_map]
    constructor
    · rintro ⟨p, hp, rfl⟩
      exact ⟨p, List.mem_of_find?_eq_some (mem_sorted.mp hp), rfl⟩
    · rintro ⟨p, hp, rfl⟩
      obtain ⟨q, hq, hsame⟩ := exists_same_sorted.mpr ⟨p, hp, same_self p⟩
      exact ⟨q, hq, same_iff.mp hsame⟩
  apply ((pairwise_sorted l).map components fun _ _ h => h).eq_of_mem_iff
    ((pairwise_sorted l').map components fun _ _ h => h)
  intro as
  rw [hmem, hmem]
  constructor
  · rintro ⟨p, hp, rfl⟩
    obtain ⟨q, hq, hsame⟩ := (h p).mp ⟨p, hp, same_self p⟩
    exact ⟨q, hq, same_iff.mp hsame⟩
  · rintro ⟨p, hp, rfl⟩
    obtain ⟨q, hq, hsame⟩ := (h p).mpr ⟨p, hp, same_self p⟩
    exact ⟨q, hq, same_iff.mp hsame⟩

end Path

end ModuleScan
