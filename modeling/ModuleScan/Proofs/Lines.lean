/-
  ModuleScan/Proofs/Lines.lean
  ============================
  **The lines of a text.**

  A line terminator begins a line, and so a text begins as many lines as it has
  terminators; of a carriage return and the line feed right behind it only the
  first counts (`lineBreaks`).  A place that passes a text goes down by the lines
  that the text and the character after it begin.  The counter of a place has these
  numbers modulo `2 ^ 32`; the numbers themselves are counted in the text
  (`Cursor.lineNumber`).
-/
import ModuleScan.Proofs.Passing

namespace ModuleScan

/-! ### Texts -/

/-- The lines that begin in a text, if `prev` is the character before it. -/
def lineBreaks : Option Char → List Char → Nat
  | _, [] => 0
  | prev, c :: rest => (if beginsLine prev (some c) then 1 else 0) + lineBreaks (some c) rest

theorem lineBreaks_cons {c : Char} (hc : isNewline c = false) (prev : Option Char)
    (rest : List Char) : lineBreaks prev (c :: rest) = lineBreaks (some c) rest := by
  have hbegins : beginsLine prev (some c) = false := by
    rw [beginsLine, Option.any_some, hc, Bool.false_and]
  simp [lineBreaks, hbegins]

theorem lineBreaks_append_cons {c : Char} (hc : isNewline c = false) (prev : Option Char)
    (text rest : List Char) :
    lineBreaks prev (text ++ c :: rest) = lineBreaks prev text + lineBreaks (some c) rest := by
  induction text generalizing prev with
  | nil => rw [List.nil_append, lineBreaks_cons hc, lineBreaks, Nat.zero_add]
  | cons d text ih => rw [List.cons_append, lineBreaks, lineBreaks, ih, Nat.add_assoc]

/-- Only a carriage return before a text makes a difference to its lines. -/
theorem lineBreaks_some {c : Char} (hc : c ≠ '\r') (text : List Char) :
    lineBreaks (some c) text = lineBreaks none text := by
  have hne : (some c == some '\r') = (none == some '\r') := by
    have hfalse : (some c == some '\r') = false := by simpa using hc
    rw [hfalse]
    rfl
  cases text with
  | nil => rfl
  | cons d text => rw [lineBreaks, lineBreaks, beginsLine, beginsLine, hne]

/-- The lines of a text, divided behind one of its characters. -/
theorem lineBreaks_divide (prev : Option Char) (text : List Char) (c : Char) (rest : List Char) :
    lineBreaks prev (text ++ c :: rest) =
      lineBreaks prev (text ++ [c]) + lineBreaks (some c) rest := by
  induction text generalizing prev with
  | nil => rfl
  | cons d text ih =>
    rw [List.cons_append, lineBreaks, ih, List.cons_append, lineBreaks, Nat.add_assoc]

/-- A text without line terminators, and the line feed that ends its line. -/
theorem lineBreaks_append_newline {text : List Char} (htext : ∀ c ∈ text, isNewline c = false)
    {prev : Option Char} (hprev : prev ≠ some '\r') (rest : List Char) :
    lineBreaks prev (text ++ '\n' :: rest) = 1 + lineBreaks none rest := by
  induction text generalizing prev with
  | nil =>
    have hbegins : beginsLine prev (some '\n') = true := by
      simp [beginsLine, isNewline, hprev]
    rw [List.nil_append, lineBreaks, hbegins, lineBreaks_some (by decide), if_pos rfl]
  | cons c text ih =>
    have hc : isNewline c = false := htext c List.mem_cons_self
    rw [List.cons_append, lineBreaks_cons hc]
    apply ih (fun d hd => htext d (List.mem_cons_of_mem c hd))
    rintro ⟨⟩
    cases hc

theorem lineBreaks_le_append (prev : Option Char) (text rest : List Char) :
    lineBreaks prev text ≤ lineBreaks prev (text ++ rest) := by
  induction text generalizing prev with
  | nil => exact Nat.zero_le _
  | cons c text ih => exact Nat.add_le_add_left (ih (some c)) _

theorem lineBreaks_take_le (prev : Option Char) (text : List Char) (n : Nat) :
    lineBreaks prev (text.take n) ≤ lineBreaks prev text := by
  have hle := lineBreaks_le_append prev (text.take n) (text.drop n)
  rwa [List.take_append_drop] at hle

/-! ### Places -/

theorem Place.pass_line (p : Place) (c : Char) (next : Option Char) :
    (p.pass c next).line = p.line + lineBreaks (some c) next.toList := by
  cases next with
  | none => exact (UInt32.add_zero p.line).symm
  | some d => cases h : beginsLine (some c) (some d) <;> simp [pass, lineBreaks, h]

theorem Place.passAll_line (p : Place) (c : Char) (text after : List Char) :
    (p.passAll (c :: text) after).line =
      p.line + lineBreaks (some c) (text ++ after.head?.toList) := by
  induction text generalizing p c with
  | nil => exact p.pass_line c after.head?
  | cons d text ih =>
    rw [passAll, ih, pass_line, UInt32.add_assoc, ← UInt32.ofNat_add]
    simp [lineBreaks]

theorem Place.start_line (source : List Char) :
    (Place.start source).line = (1 + lineBreaks none source.head?.toList : Nat) := by
  cases source with
  | nil => rfl
  | cons c source => cases h : beginsLine none (some c) <;> simp [start, lineBreaks, h]

/-! ### Cursors -/

namespace Cursor

/-- The number of the line that a cursor stands on, counted in the source: the lines
    that begin up to its current character. -/
def lineNumber (c : Cursor) (source : List Char) : Nat :=
  1 + lineBreaks none (source.take (source.length + 1 - c.rest.length))

variable (c : Cursor) (source : List Char)

theorem one_le_lineNumber : 1 ≤ c.lineNumber source := Nat.le_add_right 1 _

theorem lineNumber_le : c.lineNumber source ≤ 1 + lineBreaks none source :=
  Nat.add_le_add_left (lineBreaks_take_le none source _) 1

theorem lineNumber_of_append (before : List Char) :
    c.lineNumber (before ++ c.rest) = 1 + lineBreaks none (before ++ c.current.toList) := by
  have hlength : (before ++ c.rest).length + 1 - c.rest.length = before.length + 1 := by
    rw [List.length_append]
    omega
  rw [lineNumber, hlength, List.take_length_add_append, current]
  cases c.rest <;> rfl

/-- No movement goes back to an earlier line. -/
theorem Onward.lineNumber_le {c d : Cursor} (h : c.Onward d) (source : List Char) :
    c.lineNumber source ≤ d.lineNumber source := by
  have hlength : source.length + 1 - c.rest.length ≤ source.length + 1 - d.rest.length :=
    Nat.sub_le_sub_left h.length_le _
  have hle := lineBreaks_take_le none (source.take (source.length + 1 - d.rest.length))
    (source.length + 1 - c.rest.length)
  rw [List.take_take, Nat.min_eq_left hlength] at hle
  exact Nat.add_le_add_left hle 1

end Cursor

end ModuleScan
