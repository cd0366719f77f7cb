/-
  ModuleScan/Proofs/Position.lean
  ===============================
  **What a cursor says follows from where it stands.**

  A cursor may have come to its place through comments and literals, past the end
  of the text or back from a trial.  What it says there can be read off the text
  alone: the characters on either side, whether they are escaped, and the line
  (`Cursor.Tells`).  Every movement keeps this, and so does every sequence of
  movements, saves and rewindings (`Reader.perform_tells`).
-/
import ModuleScan.Proofs.Lines
import ModuleScan.Proofs.Literal

namespace ModuleScan

/-! ### Offsets -/

/-- Two beginnings of a text with the same number of bytes are the same. -/
theorem append_inj_of_utf8Length {before before' after after' : List Char}
    (h : before ++ after = before' ++ after')
    (hlength : utf8Length before = utf8Length before') : before = before' ∧ after = after' := by
  induction before generalizing before' with
  | nil =>
    cases before' with
    | nil => exact ⟨rfl, h⟩
    | cons d before' =>
      have hsize := d.utf8Size_pos
      rw [utf8Length_nil, utf8Length_cons] at hlength
      omega
  | cons c before ih =>
    cases before' with
    | nil =>
      have hsize := c.utf8Size_pos
      rw [utf8Length_nil, utf8Length_cons] at hlength
      omega
    | cons d before' =>
      obtain ⟨rfl, htail⟩ := List.cons.inj h
      obtain ⟨rfl, hafter⟩ := ih htail (Nat.add_left_cancel hlength)
      exact ⟨rfl, hafter⟩

/-! ### Places -/

/-- What the place says is true, if `before` is the text that was read and `next` the
    character after it.  An odd number of backslashes escapes what follows them. -/
structure Place.Tells (p : Place) (before : List Char) (next : Option Char) : Prop where
  offset : p.offset = utf8Length before
  line : p.line = (1 + lineBreaks none (before ++ next.toList) : Nat)
  escaped : p.escaped = true ↔ next.isSome = true ∧ Odd (trailingBackslashes before)
  prev : next.isSome = true → p.prev = before.getLast?
  prevEscaped : next.isSome = true →
    (p.prevEscaped = true ↔ before ≠ [] ∧ Odd (trailingBackslashes before.dropLast))

namespace Place

theorem not_odd_trailingBackslashes_nil : ¬ Odd (trailingBackslashes []) := by
  simp [trailingBackslashes]

theorem tells_start (source : List Char) : (Place.start source).Tells [] source.head? where
  offset := rfl
  line := Place.start_line source
  escaped := by simp [start, not_odd_trailingBackslashes_nil]
  prev _ := rfl
  prevEscaped _ := by simp [start]

variable {p : Place} {before : List Char} {next : Option Char}

theorem Tells.pass {c : Char} (h : p.Tells before (some c)) (next : Option Char) :
    (p.pass c next).Tells (before ++ [c]) next where
  offset := by
    rw [utf8Length_append, utf8Length_cons, utf8Length_nil, Nat.add_zero, ← h.offset]
    rfl
  line := by
    have hsplit := lineBreaks_divide none before c next.toList
    rw [pass_line, h.line, Option.toList_some, ← UInt32.ofNat_add, List.append_assoc,
      List.singleton_append, hsplit, Nat.add_assoc]
  escaped := by
    have hc := h.escaped
    rw [trailingBackslashes_concat]
    by_cases hslash : c = '\\'
    · cases hescaped : p.escaped <;>
        simp_all [Place.pass, Nat.odd_add_one]
    · simp [Place.pass, hslash]
  prev _ := by
    rw [List.getLast?_concat]
    rfl
  prevEscaped _ := by
    have hc : p.escaped = true ↔ Odd (trailingBackslashes before) := by simpa using h.escaped
    simpa [Place.pass] using hc

theorem Tells.mark (h : p.Tells before next) (mark : Bool) :
    ({ p with statementStart := mark } : Place).Tells before next :=
  ⟨h.offset, h.line, h.escaped, h.prev, h.prevEscaped⟩

theorem Tells.passEnd (h : p.Tells before none) : p.passEnd.Tells before none where
  offset := h.offset
  line := h.line
  escaped := by simp [Place.passEnd]
  prev := nofun
  prevEscaped := nofun

end Place

/-! ### Cursors -/

namespace Cursor

/-- The cursor stands in the source, and what it says there is true. -/
def Tells (c : Cursor) (source : List Char) : Prop :=
  ∃ before, source = before ++ c.rest ∧ c.toPlace.Tells before c.current

variable {c d : Cursor} {source : List Char}

/-- A sweep keeps true what a place says. -/
theorem tells_sweep (keep : Place → Char → Bool) (z : Zone) {p : Place} {s : List Char}
    (h : ∃ before, source = before ++ s ∧ p.Tells before s.head?) :
    ∃ before, source = before ++ (sweep keep z p s).2 ∧
      (sweep keep z p s).1.Tells before (sweep keep z p s).2.head? := by
  apply sweep_keeps (I := fun q after =>
    ∃ before, source = before ++ after ∧ q.Tells before after.head?)
  · rintro q after mark ⟨before, hs, hq⟩
    exact ⟨before, hs, hq.mark mark⟩
  · rintro q ch rest ⟨before, hs, hq⟩
    exact ⟨before ++ [ch], by rw [hs, List.append_assoc, List.singleton_append],
      Place.Tells.pass hq rest.head?⟩
  · exact h

theorem tells_ofSource (source : List Char) : (ofSource source).Tells source :=
  tells_sweep _ _ ⟨[], rfl, Place.tells_start source⟩

theorem Tells.advance (h : c.Tells source) : c.advance.Tells source := by
  rcases h with ⟨before, hs, hc⟩
  unfold Cursor.advance
  split
  next hr =>
    rw [current, hr] at hc
    exact ⟨before, hs, by rw [current, hr]; exact hc.passEnd⟩
  next ch rest hr =>
    rw [current, hr] at hc
    rw [hr] at hs
    exact tells_sweep _ _ ⟨before ++ [ch], by rw [hs, List.append_assoc, List.singleton_append],
      Place.Tells.pass hc rest.head?⟩

theorem Tells.setInString (h : c.Tells source) (b : Bool) : (c.setInString b).Tells source := h

theorem Tells.skipWhile (h : c.Tells source) (keep : Place → Char → Bool) :
    (c.skipWhile keep).Tells source :=
  skipWhile_induction (I := (·.Tells source)) (fun _ => .advance) keep c h

theorem Tells.leads (h : c.Tells source) (hd : c.Leads d) : d.Tells source := by
  induction hd with
  | refl => exact h
  | advance _ ih => exact ih.advance
  | skipWhile keep _ ih => exact ih.skipWhile keep

theorem Tells.isBoundary (h : c.Tells source) : isBoundary source c.offset = true := by
  rcases h with ⟨before, hs, hc⟩
  exact isBoundary_iff.mpr ⟨before, c.rest, hs, hc.offset.symm⟩

/-- The counter of a cursor has the number of its line, and is exact as long as the
    source has no more lines than it can count. -/
theorem Tells.line (h : c.Tells source) : c.line = c.lineNumber source := by
  rcases h with ⟨before, rfl, hc⟩
  rw [lineNumber_of_append]
  exact hc.line

theorem Tells.line_toNat (h : c.Tells source) (hfits : 1 + lineBreaks none source < 2 ^ 32) :
    c.line.toNat = c.lineNumber source := by
  rw [h.line]
  exact UInt32.toNat_ofNat_of_lt' (Nat.lt_of_le_of_lt (c.lineNumber_le source) hfits)

/-- The offset alone decides what a cursor says.  Only at the end does it matter how
    the cursor came there, since moving on at the end forgets the last character. -/
theorem Tells.eq_of_offset (hc : c.Tells source) (hd : d.Tells source)
    (hoffset : c.offset = d.offset) :
    c.rest = d.rest ∧ c.line = d.line ∧ c.escaped = d.escaped ∧
      (c.current.isSome = true → c.prev = d.prev ∧ c.prevEscaped = d.prevEscaped) := by
  rcases hc with ⟨before, hsource, hc⟩
  rcases hd with ⟨before', hsource', hd⟩
  obtain ⟨rfl, hrest⟩ : before = before' ∧ c.rest = d.rest := by
    apply append_inj_of_utf8Length (hsource.symm.trans hsource')
    rw [← hc.offset, ← hd.offset, hoffset]
  have hcurrent : c.current = d.current := by rw [current, current, hrest]
  rw [← hcurrent] at hd
  refine ⟨hrest, hc.line.trans hd.line.symm, ?_, ?_⟩
  · rw [Bool.eq_iff_iff, hc.escaped, hd.escaped]
  · intro hsome
    refine ⟨(hc.prev hsome).trans (hd.prev hsome).symm, ?_⟩
    rw [Bool.eq_iff_iff, hc.prevEscaped hsome, hd.prevEscaped hsome]

end Cursor

/-! ### Sequences of operations -/

theorem Cursor.Tells.move {c : Cursor} {source : List Char} (h : c.Tells source) (m : Move) :
    (m.apply c).Tells source := by
  cases m with
  | advance => exact h.advance
  | eat word => exact h.leads (c.leads_eat word)
  | skipWhitespace => exact h.skipWhile _
  | skipUntilWhitespace => exact h.skipWhile _
  | skipUntilWhitespaceOrComma => exact h.skipWhile _
  | skipUntil target => exact h.skipWhile _
  | setInString b => exact h.setInString b

/-- Whether every restoring and every discarding among the operations has a save to
    close, if `pending` saves were made before. -/
def closesPending : Nat → List Operation → Bool
  | _, [] => true
  | pending, .move _ :: ops => closesPending pending ops
  | pending, .save :: ops => closesPending (pending + 1) ops
  | 0, .restore :: _ => false
  | 0, .discard :: _ => false
  | pending + 1, .restore :: ops => closesPending pending ops
  | pending + 1, .discard :: ops => closesPending pending ops

namespace Reader

/-- What the cursor says is true, and so is what the saved cursors say. -/
structure Tells (r : Reader) (source : List Char) : Prop where
  cursor : r.cursor.Tells source
  saved : ∀ c ∈ r.saved, c.Tells source

theorem tells_ofSource (source : List Char) : (ofSource source).Tells source :=
  ⟨Cursor.tells_ofSource source, by simp [ofSource]⟩

/-- An operation that has the save it closes, if it closes one, meets no fault and
    keeps true what the cursors say. -/
theorem Tells.apply {r : Reader} {source : List Char} (h : r.Tells source) {op : Operation}
    {ops : List Operation} (hops : closesPending r.saved.length (op :: ops) = true) :
    ∃ r', op.apply r = .ok r' ∧ r'.Tells source ∧ closesPending r'.saved.length ops = true := by
  rcases r with ⟨c, saved⟩
  cases op with
  | move m => exact ⟨_, rfl, ⟨h.cursor.move m, h.saved⟩, hops⟩
  | save =>
    refine ⟨_, rfl, ⟨h.cursor, ?_⟩, hops⟩
    intro d hd
    rcases List.mem_cons.mp hd with rfl | hd
    · exact h.cursor
    · exact h.saved d hd
  | restore =>
    cases saved with
    | nil => cases hops
    | cons d saved =>
      exact ⟨_, rfl, ⟨h.saved d (by simp), fun e he => h.saved e (by simp [he])⟩, hops⟩
  | discard =>
    cases saved with
    | nil => cases hops
    | cons d saved =>
      exact ⟨_, rfl, ⟨h.cursor, fun e he => h.saved e (by simp [he])⟩, hops⟩

theorem Tells.perform {r : Reader} {source : List Char} (h : r.Tells source) {ops : List Operation}
    (hops : closesPending r.saved.length ops = true) :
    ∃ r', r.perform ops = .ok r' ∧ r'.Tells source := by
  induction ops generalizing r with
  | nil => exact ⟨r, rfl, h⟩
  | cons op ops ih =>
    obtain ⟨r', hr', h', hops'⟩ := h.apply hops
    rw [Reader.perform, hr']
    exact ih h' hops'

/-- **What a cursor says follows from where it stands.**  Operations on a source that
    close no more saves than were made lead to a cursor that stands between two
    characters of the source, and what it says there is true.  If the source has fewer
    lines than the counter has numbers, the line is exact. -/
theorem perform_tells (source : List Char) {ops : List Operation}
    (hops : closesPending 0 ops = true) :
    ∃ r, (ofSource source).perform ops = .ok r ∧ isBoundary source r.cursor.offset = true ∧
      r.cursor.Tells source ∧
      (1 + lineBreaks none source < 2 ^ 32 → r.cursor.line.toNat = r.cursor.lineNumber source) := by
  obtain ⟨r, hr, h⟩ := (tells_ofSource source).perform hops
  exact ⟨r, hr, h.cursor.isBoundary, h.cursor, h.cursor.line_toNat⟩

/-- Backslashes, a comment that ends with a pair of line terminators, and a literal
    begun and taken back from beyond the end. -/
theorem perform_tells_rewound :
    let ops : List Operation := [.move .advance, .save, .move (.eat ['\\', '\\', 'é']),
      .save, .move (.setInString true), .move (.skipUntil '*'), .move .advance, .restore,
      .move .advance, .move .advance, .move .advance, .discard, .move .skipWhitespace]
    let source : List Char := "/*\r\n*/x\\\\é//\\\r\n\u2028".toList
    closesPending 0 ops = true ∧
      ∃ r, (ofSource source).perform ops = .ok r ∧
        isBoundary source r.cursor.offset = true ∧ r.cursor.Tells source ∧
        (1 + lineBreaks none source < 2 ^ 32 →
          r.cursor.line.toNat = r.cursor.lineNumber source) :=
  ⟨rfl, perform_tells _ rfl⟩

end Reader

end ModuleScan
