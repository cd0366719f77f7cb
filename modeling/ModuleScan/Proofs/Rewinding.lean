/-
  ModuleScan/Proofs/Rewinding.lean
  ================================
  **A restored cursor is the cursor that was saved.**

  What is tried after a save may itself save, restore and discard.  If it closes its own
  saves and no others, it neither looks at the cursors saved before it nor changes them
  (`perform_above`); so the save that stands below is still there when the trial ends, and
  restoring it undoes the trial, while discarding it keeps what the trial read
  (`perform_balanced`).
-/
import ModuleScan.Proofs.Position

namespace ModuleScan

/-- The operations close the saves that they make, and no others. -/
structure Balanced (ops : List Operation) : Prop where
  /-- Each restoring and each discarding closes a save made among the operations. -/
  closes : closesPending 0 ops = true
  /-- No save is left pending. -/
  complete : ops.count .restore + ops.count .discard = ops.count .save

namespace Reader

/-! ### What lies below -/

/-- An operation that has a save to close among the cursors in `inner`, if it closes one,
    does the same whatever was saved below them. -/
theorem apply_above (c : Cursor) {inner : List Cursor} {op : Operation} {ops : List Operation}
    (h : closesPending inner.length (op :: ops) = true) :
    ∃ d inner', (∀ outer, op.apply ⟨c, inner ++ outer⟩ = .ok ⟨d, inner' ++ outer⟩) ∧
      closesPending inner'.length ops = true ∧
      inner'.length + ([op].count .restore + [op].count .discard) =
        inner.length + [op].count .save := by
  cases op with
  | move m => exact ⟨m.apply c, inner, fun outer => rfl, h, rfl⟩
  | save => exact ⟨c, c :: inner, fun outer => rfl, h, rfl⟩
  | restore =>
    cases inner with
    | nil => cases h
    | cons d inner => exact ⟨d, inner, fun outer => rfl, h, rfl⟩
  | discard =>
    cases inner with
    | nil => cases h
    | cons d inner => exact ⟨c, inner, fun outer => rfl, h, rfl⟩

/-- Operations that close no save below `inner` do the same whatever was saved there, and
    leave above it as many cursors as they make saves more than they close. -/
theorem perform_above (c : Cursor) {inner : List Cursor} {ops : List Operation}
    (h : closesPending inner.length ops = true) :
    ∃ d inner', (∀ outer, perform ops ⟨c, inner ++ outer⟩ = .ok ⟨d, inner' ++ outer⟩) ∧
      inner'.length + (ops.count .restore + ops.count .discard) =
        inner.length + ops.count .save := by
  -- the cursors in `inner` change with each operation, and `closesPending` counts them
  induction ops generalizing c inner with
  | nil => exact ⟨c, inner, fun outer => rfl, rfl⟩
  | cons op ops ih =>
    obtain ⟨d, inner', hop, hrest, hlength⟩ := apply_above c h
    obtain ⟨e, inner'', hops, hlength'⟩ := ih d hrest
    refine ⟨e, inner'', ?_, ?_⟩
    · intro outer
      rw [perform, hop]
      exact hops outer
    · have hcount : ∀ a, (op :: ops).count a = [op].count a + ops.count a := by
        intro a
        rw [← List.singleton_append, List.count_append]
      rw [hcount, hcount, hcount]
      omega

theorem perform_append (r : Reader) (ops ops' : List Operation) :
    r.perform (ops ++ ops') = r.perform ops >>= perform ops' := by
  induction ops generalizing r with
  | nil => rfl
  | cons op ops ih =>
    rw [List.cons_append, perform, perform]
    cases op.apply r with
    | error fault => rfl
    | ok r' => exact ih r'

/-! ### Trials -/

/-- Balanced operations leave the saved cursors as they were, and the cursor they lead to
    does not depend on them. -/
theorem exists_perform_balanced (c : Cursor) {ops : List Operation} (h : Balanced ops) :
    ∃ d, ∀ saved, perform ops ⟨c, saved⟩ = .ok ⟨d, saved⟩ := by
  have hcloses : closesPending ([] : List Cursor).length ops = true := h.closes
  obtain ⟨d, inner, hops, hlength⟩ := perform_above c hcloses
  have hinner : inner = [] := by
    have hcomplete := h.complete
    rw [List.length_nil] at hlength
    apply List.eq_nil_of_length_eq_zero
    omega
  subst hinner
  exact ⟨d, hops⟩

/-- **A trial that closes its own saves can be undone, and can be kept.**  Restored, the
    reader is the one before the save; discarded, it is the one to which the operations
    lead without the save.  Either way the cursors saved before are as they were. -/
theorem perform_balanced (r : Reader) {ops : List Operation} (h : Balanced ops) :
    r.perform (.save :: (ops ++ [.restore])) = .ok r ∧
      ∃ d, r.perform ops = .ok { r with cursor := d } ∧
        r.perform (.save :: (ops ++ [.discard])) = .ok { r with cursor := d } := by
  obtain ⟨d, hops⟩ := exists_perform_balanced r.cursor h
  have htrial : r.save.perform ops = .ok ⟨d, r.cursor :: r.saved⟩ := hops _
  refine ⟨?_, d, hops r.saved, ?_⟩
  · calc r.perform (.save :: (ops ++ [.restore]))
        = r.save.perform ops >>= perform [.restore] := r.save.perform_append ops _
      _ = .ok r := by rw [htrial]; rfl
  · calc r.perform (.save :: (ops ++ [.discard]))
        = r.save.perform ops >>= perform [.discard] := r.save.perform_append ops _
      _ = .ok { r with cursor := d } := by rw [htrial]; rfl

/-- Within a literal that is taken back, a save that is kept; before it, a cursor saved
    already. -/
theorem perform_balanced_nested :
    let r : Reader := (ofSource "a /*b*/ 'c\\'//d'\ne".toList).save
    let ops : List Operation := [.move .skipWhitespace, .save, .move (.setInString true),
      .move (.skipUntil '\\'), .save, .move (.eat ['\\', '\x27']), .discard, .restore,
      .move .advance]
    Balanced ops ∧ r.perform (.save :: (ops ++ [.restore])) = .ok r ∧
      ∃ d, r.perform ops = .ok { r with cursor := d } ∧
        r.perform (.save :: (ops ++ [.discard])) = .ok { r with cursor := d } := by
  intro r ops
  have hops : Balanced ops := ⟨rfl, rfl⟩
  exact ⟨hops, perform_balanced r hops⟩

end Reader

end ModuleScan
