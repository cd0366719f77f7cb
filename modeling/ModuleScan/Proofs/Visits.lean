/-
  ModuleScan/Proofs/Visits.lean
  =============================
  **Movements, seen on the characters a cursor visits.**

  Outside a literal a cursor visits the characters that no comment hides.  On the
  list of visits advancing drops the first, skipping drops as long as the skipped
  property holds, and a word is matched exactly when the visited characters begin
  with it.
-/
import Mathlib.Data.List.TakeWhile
import ModuleScan.Scan.Progress

namespace ModuleScan

/-! ### Sweeps and visits -/

/-- A sweep ends where the visited characters are no longer kept. -/
theorem visits_sweep (keep : Place → Char → Bool) {z : Zone} (hz : z ≠ .literal) (p : Place)
    (s : List Char) :
    visits .visible (sweep keep z p s).1 (sweep keep z p s).2 =
      (visits z p s).dropWhile fun v => keep v.1 v.2 := by
  induction s generalizing z p with
  | nil => simp [sweep, visits]
  | cons c rest ih =>
    rw [sweep, visits]
    split
    next z' p' hhide => exact ih (Zone.hide?_eq_some hhide).1 p'
    next hhide =>
      rw [Zone.afterVisible_of_ne_literal hz]
      split
      next hk => rw [ih (by simp), List.dropWhile_cons_of_pos (by simpa using hk)]
      next hk =>
        rw [List.dropWhile_cons_of_neg (by simpa using hk)]
        simp [visits, Zone.hide?, Zone.afterVisible]

namespace Cursor

variable {c : Cursor}

theorem zone_of_code (hc : c.inString = false) : c.zone = .visible := by
  simp [zone, hc]

/-- The cursor that comes to the first visible character of `s`, from a zone and a place
    on. -/
def entering (c : Cursor) (z : Zone) (p : Place) (s : List Char) : Cursor :=
  c.moveTo (sweep (fun _ _ => false) z p s)

theorem entering_of_hide? {z z' : Zone} {p p' : Place} {ch : Char} {rest : List Char}
    (h : z.hide? p ch rest.head? = some (z', p')) :
    c.entering z p (ch :: rest) = c.entering z' p' rest := by
  rw [entering, entering, sweep, h]

theorem entering_of_visible {z : Zone} {p : Place} {ch : Char} {rest : List Char}
    (h : z.hide? p ch rest.head? = none) :
    c.entering z p (ch :: rest) = c.moveTo (p, ch :: rest) := by
  rw [entering, sweep, h]
  rfl

/-- Advancing comes to the first visible character of what follows. -/
theorem advance_entering {z : Zone} {p : Place} {ch : Char} {rest : List Char}
    (hc : c.inString = false) (h : z.hide? p ch rest.head? = none) :
    (c.entering z p (ch :: rest)).advance = c.entering .code (p.pass ch rest.head?) rest := by
  have hzone : (c.moveTo (p, ch :: rest)).zone = .visible := zone_of_code hc
  rw [entering_of_visible h]
  simp only [advance, moveTo_rest, hzone]
  rfl

theorem visits_of_code (hc : c.inString = false) :
    c.visits = ModuleScan.visits .visible c.toPlace c.rest := by
  rw [visits, zone_of_code hc]

theorem visits_of_rest_cons (hc : c.inString = false) {ch : Char} {rest : List Char}
    (h : c.rest = ch :: rest) :
    c.visits = (c.toPlace, ch) :: ModuleScan.visits .code (c.toPlace.pass ch rest.head?) rest := by
  rw [visits_of_code hc, h]
  rfl

theorem visits_of_rest_nil (h : c.rest = []) : c.visits = [] := by
  rw [visits, h]
  rfl

theorem visits_ofSource (source : List Char) :
    (ofSource source).visits = ModuleScan.visits .code (Place.start source) source := by
  have hvisits := visits_sweep (fun _ _ => false) (z := .code) (by simp) (Place.start source) source
  rw [visits_of_code rfl]
  refine hvisits.trans ?_
  cases ModuleScan.visits .code (Place.start source) source <;> rfl

theorem current_eq_head?_visits (hc : c.inString = false) :
    c.current = c.visits.head?.map Prod.snd := by
  cases h : c.rest with
  | nil => simp [current, h, visits_of_rest_nil h]
  | cons ch rest => simp [current, h, visits_of_rest_cons hc h]

/-! ### Movements -/

theorem visits_advance (hc : c.inString = false) : c.advance.visits = c.visits.tail := by
  rw [visits_of_code (by rw [advance_inString, hc])]
  cases h : c.rest with
  | nil => simp [advance, h, visits_of_rest_nil h, ModuleScan.visits]
  | cons ch rest =>
    rw [visits_of_rest_cons hc h, List.tail_cons]
    simp only [advance, h, moveTo_toPlace, moveTo_rest, zone_of_code hc, Zone.afterVisible]
    rw [visits_sweep _ (by simp)]
    cases hv : ModuleScan.visits .code (c.toPlace.pass ch rest.head?) rest with
    | nil => rfl
    | cons v vs => rfl

theorem visits_skipWhile (hc : c.inString = false) (keep : Place → Char → Bool) :
    (c.skipWhile keep).visits = c.visits.dropWhile fun v => keep v.1 v.2 := by
  rw [visits_of_code (by rw [skipWhile_inString, hc]), visits_of_code hc]
  simp only [skipWhile, moveTo_toPlace, moveTo_rest, zone_of_code hc]
  exact visits_sweep keep (by simp) _ _

theorem Leads.visits_suffix {d : Cursor} (h : c.Leads d) (hc : c.inString = false) :
    d.visits <:+ c.visits := by
  induction h with
  | refl => exact List.suffix_refl _
  | advance h ih =>
    rw [visits_advance (h.inString.trans hc)]
    exact (List.tail_suffix _).trans ih
  | skipWhile keep h ih =>
    rw [visits_skipWhile (h.inString.trans hc)]
    exact (List.dropWhile_suffix _).trans ih

/-- The characters that a cursor visits from here on, to the end of the text. -/
def ahead (c : Cursor) : List Char := c.visits.map Prod.snd

theorem Leads.ahead_suffix {d : Cursor} (h : c.Leads d) (hc : c.inString = false) :
    d.ahead <:+ c.ahead := (h.visits_suffix hc).map Prod.snd

theorem current_eq_head?_ahead (hc : c.inString = false) : c.current = c.ahead.head? := by
  rw [current_eq_head?_visits hc, ahead, List.head?_map]

theorem ahead_advance (hc : c.inString = false) : c.advance.ahead = c.ahead.tail := by
  rw [ahead, visits_advance hc, List.map_tail, ahead]

theorem ahead_eq_of_eat (hc : c.inString = false) {word : List Char}
    (h : (c.eat word).1 = true) : c.ahead = word ++ (c.eat word).2.ahead := by
  induction word generalizing c with
  | nil => rfl
  | cons ch word ih =>
    rw [eat] at h ⊢
    split at h
    next hcur =>
      rw [if_pos hcur, List.cons_append, ← ih (by rw [advance_inString, hc]) h, ahead_advance hc]
      rw [beq_iff_eq, current_eq_head?_ahead hc] at hcur
      obtain ⟨rest, hrest⟩ := List.head?_eq_some_iff.mp hcur
      rw [hrest, List.tail_cons]
    · cases h

theorem ahead_skipWhitespace (hc : c.inString = false) :
    ∃ gap, c.ahead = gap ++ c.skipWhitespace.ahead ∧ ∀ ch ∈ gap, isWhitespace ch = true := by
  refine ⟨(c.visits.takeWhile fun v => isWhitespace v.2).map Prod.snd, ?_, ?_⟩
  · rw [ahead, ahead, skipWhitespace, visits_skipWhile hc, ← List.map_append,
      List.takeWhile_append_dropWhile]
  · intro ch hch
    obtain ⟨v, hv, rfl⟩ := List.mem_map.mp hch
    have hws := List.mem_takeWhile_imp hv
    exact hws

end Cursor

end ModuleScan
