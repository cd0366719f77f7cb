/-
  ModuleScan/Proofs/Faithful.lean
  ===============================
  **What a cursor remembers of the text before it.**

  A cursor keeps a few facts about what was read, and these are true however the
  cursor came to be where it stands: only a backslash escapes the current
  character, and a statement may begin after every line terminator and every `;`.
  Besides, the current character is part of no comment (`Cursor.Faithful`).  Passing
  characters keeps all this, and so the rounds of a scan do.
-/
import ModuleScan.Proofs.Pairing

namespace ModuleScan

/-! ### Places -/

/-- What the place says of the text before `next` is true. -/
structure Place.Faithful (p : Place) (next : Option Char) : Prop where
  escaped : p.escaped = true → p.prev = some '\\'
  statementStart : p.prev.any endsStatement = true → p.statementStart = true

theorem Place.faithful_start (source : List Char) :
    (Place.start source).Faithful source.head? where
  escaped h := by cases h
  statementStart := nofun

theorem Place.faithful_pass (p : Place) (c : Char) (next : Option Char) :
    (p.pass c next).Faithful next where
  escaped hescaped := by
    have hc : c = '\\' := by
      simp only [Place.pass, Bool.and_eq_true, beq_iff_eq] at hescaped
      exact hescaped.1.2
    rw [hc]
    rfl
  statementStart hends := by
    have hc : endsStatement c = true := hends
    simp [Place.pass, hc]

theorem Place.Faithful.mark {p : Place} {next : Option Char} (h : p.Faithful next) {b : Bool}
    (hends : p.prev.any endsStatement = false) :
    ({ p with statementStart := b } : Place).Faithful next where
  escaped := h.escaped
  statementStart hprev := by
    change p.prev.any endsStatement = true at hprev
    rw [hends] at hprev
    cases hprev

/-! ### Sweeps -/

/-- A block comment closes on a slash. -/
def Zone.Fits : Zone → List Char → Prop
  | .blockClosing _, s => s.head? = some '/'
  | _, _ => True

theorem Zone.fits_afterVisible (z : Zone) (s : List Char) : z.afterVisible.Fits s := by
  cases z <;> exact trivial

theorem Zone.fits_of_hide? {z z' : Zone} {p p' : Place} {c : Char} {rest : List Char}
    (h : z.hide? p c rest.head? = some (z', p')) : z'.Fits rest := by
  cases z with
  | visible => cases h
  | literal => cases h
  | code =>
    simp only [Zone.hide?] at h
    split at h
    · split at h
      · cases h
        trivial
      · split at h
        · cases h
          trivial
        · cases h
    · cases h
  | lineComment =>
    cases h
    split <;> trivial
  | blockOpening b =>
    cases h
    trivial
  | blockComment b =>
    cases h
    split
    next hclose => simpa [Fits] using (Bool.and_eq_true_iff.mp hclose).2
    · trivial
  | blockClosing b =>
    cases h
    trivial

theorem Place.faithful_of_hide? {z z' : Zone} {p p' : Place} {c : Char} {rest : List Char}
    (hz : z.Fits (c :: rest)) (h : z.hide? p c rest.head? = some (z', p')) :
    p'.Faithful rest.head? := by
  have hpass := p.faithful_pass c rest.head?
  cases z with
  | visible => cases h
  | literal => cases h
  | code =>
    simp only [Zone.hide?] at h
    split at h
    · split at h
      · cases h
        exact hpass
      · split at h
        · cases h
          exact hpass
        · cases h
    · cases h
  | lineComment =>
    cases h
    exact hpass
  | blockOpening b =>
    cases h
    exact hpass
  | blockComment b =>
    cases h
    exact hpass
  | blockClosing b =>
    cases h
    obtain rfl : c = '/' := Option.some.inj hz
    exact hpass.mark rfl

/-- A sweep that does not come to the end keeps what is remembered true. -/
theorem sweep_faithful (keep : Place → Char → Bool) {z : Zone} {p : Place} {s : List Char}
    (hz : z.Fits s) (hp : p.Faithful s.head?) (hne : (sweep keep z p s).2 ≠ []) :
    (sweep keep z p s).1.Faithful (sweep keep z p s).2.head? := by
  induction s generalizing z p with
  | nil => exact absurd rfl hne
  | cons c rest ih =>
    rw [sweep] at hne ⊢
    split at hne
    next z' p' hhide =>
      exact ih (Zone.fits_of_hide? hhide) (Place.faithful_of_hide? hz hhide) hne
    next hhide =>
      split at hne
      next hk =>
        rw [if_pos hk]
        exact ih (z.fits_afterVisible rest) (p.faithful_pass c rest.head?) hne
      next hk =>
        rw [if_neg hk]
        exact hp

/-- A sweep through code ends on a character that opens no comment. -/
theorem sweep_shows (keep : Place → Char → Bool) {z : Zone} (hvisible : z ≠ .visible)
    (hliteral : z ≠ .literal) {p : Place} {s : List Char} {c : Char} {rest : List Char}
    (h : (sweep keep z p s).2 = c :: rest) :
    Zone.code.hide? (sweep keep z p s).1 c rest.head? = none := by
  induction s generalizing z p with
  | nil => cases h
  | cons d s ih =>
    rw [sweep] at h ⊢
    split at h
    next z' p' hhide =>
      exact ih (Zone.ne_visible_of_hide? hhide) (Zone.hide?_eq_some hhide).1 h
    next hhide =>
      split at h
      next hk =>
        rw [if_pos hk]
        rw [Zone.afterVisible_of_ne_literal hliteral] at h ⊢
        exact ih (by simp) (by simp) h
      next hk =>
        rw [if_neg hk]
        cases h
        cases z with
        | code => exact hhide
        | visible => exact absurd rfl hvisible
        | literal => exact absurd rfl hliteral
        | lineComment => cases hhide
        | blockOpening b => cases hhide
        | blockComment b => cases hhide
        | blockClosing b => cases hhide

/-! ### Cursors -/

namespace Cursor

/-- What the cursor remembers is true, if there is anything left to read. -/
def Remembers (c : Cursor) : Prop := c.rest ≠ [] → c.toPlace.Faithful c.current

/-- The current character opens no comment. -/
def Shows (c : Cursor) : Prop :=
  ∀ ch rest, c.rest = ch :: rest → Zone.code.hide? c.toPlace ch rest.head? = none

structure Faithful (c : Cursor) : Prop where
  inString : c.inString = false
  remembers : c.Remembers
  shows : c.Shows

theorem remembers_advance (c : Cursor) : c.advance.Remembers := by
  intro hne
  unfold Cursor.advance at hne ⊢
  split at hne
  next hr => exact absurd hr hne
  next ch rest hr =>
    exact sweep_faithful _ (c.zone.fits_afterVisible rest)
      (c.toPlace.faithful_pass ch rest.head?) hne

theorem shows_advance {c : Cursor} (hc : c.inString = false) : c.advance.Shows := by
  intro ch rest hrest
  unfold Cursor.advance at hrest ⊢
  split at hrest
  next hr =>
    have hnil : c.rest = ch :: rest := hrest
    rw [hr] at hnil
    cases hnil
  next d s hr =>
    have hzone : c.zone.afterVisible = .code := by rw [zone, hc]; rfl
    rw [hzone] at hrest ⊢
    exact sweep_shows _ (by simp) (by simp) hrest

theorem Faithful.advance {c : Cursor} (h : c.Faithful) : c.advance.Faithful where
  inString := by rw [advance_inString, h.inString]
  remembers := c.remembers_advance
  shows := shows_advance h.inString

theorem faithful_afterLiteral (c : Cursor) (quote : Char) : (c.afterLiteral quote).Faithful :=
  ⟨advance_inString _, remembers_advance _, shows_advance rfl⟩

theorem faithful_ofSource (source : List Char) : (Cursor.ofSource source).Faithful where
  inString := rfl
  remembers := sweep_faithful _ trivial (Place.faithful_start source)
  shows _ _ := sweep_shows _ (by simp) (by simp)

end Cursor

/-- Between its rounds a scan remembers what is true. -/
theorem Scan.Reaches.faithful {source : List Char} {t : Scan}
    (h : (Scan.ofSource source).Reaches t) : t.cursor.Faithful :=
  h.keeps (I := Cursor.Faithful) (fun _ hc => hc.advance)
    (fun c quote _ => c.faithful_afterLiteral quote) (Scan.sited_ofSource source)
    (Cursor.faithful_ofSource source)

end ModuleScan
