/-
  ModuleScan/Proofs/Shifting.lean
  ===============================
  **The same text, further down in a longer source.**

  Text put before a source moves every cursor on by as many bytes and lines, and
  no movement depends on either: it makes no difference whether a cursor is first
  shifted and then moved, or the other way round.  Nor does a movement depend on
  what came before the character it passes.  So two scans of the same text find
  the same, with the lines shifted, although the first character follows another
  one than at the start of a source (`Shift.InStep.finish`).
-/
import ModuleScan.Extraction
import ModuleScan.Proofs.Lines
import ModuleScan.Proofs.Pairing

namespace ModuleScan

/-! ### Shifted places -/

def Place.shift (size : Nat) (lines : UInt32) (p : Place) : Place :=
  { p with offset := p.offset + size, line := p.line + lines }

section

variable (size : Nat) (lines : UInt32)

@[simp] theorem Place.shift_escaped (p : Place) : (p.shift size lines).escaped = p.escaped := rfl

@[simp] theorem Place.shift_statementStart (p : Place) :
    (p.shift size lines).statementStart = p.statementStart := rfl

theorem Place.shift_pass (p : Place) (c : Char) (next : Option Char) :
    (p.shift size lines).pass c next = (p.pass c next).shift size lines := by
  have hline : p.line + lines + 1 = p.line + 1 + lines := by
    rw [UInt32.add_assoc, UInt32.add_comm lines, UInt32.add_assoc]
  simp only [shift, pass, Nat.add_right_comm, hline]
  split <;> rfl

theorem Zone.hide?_shift (z : Zone) (p : Place) (c : Char) (next : Option Char) :
    z.hide? (p.shift size lines) c next =
      (z.hide? p c next).map fun r => (r.1, r.2.shift size lines) := by
  cases z with
  | visible => rfl
  | literal => rfl
  | code =>
    simp only [Zone.hide?, Place.shift_escaped, Place.shift_statementStart, Place.shift_pass]
    split
    · split
      · rfl
      · split <;> rfl
    · rfl
  | lineComment => simp only [Zone.hide?, Place.shift_pass, Option.map_some]
  | blockOpening b => simp only [Zone.hide?, Place.shift_pass, Option.map_some]
  | blockComment b => simp only [Zone.hide?, Place.shift_pass, Option.map_some]
  | blockClosing b => simp only [Zone.hide?, Place.shift_pass, Option.map_some]; rfl

theorem Zone.atEnd_shift (z : Zone) (p : Place) :
    z.atEnd (p.shift size lines) = (z.atEnd p).shift size lines := by
  cases z <;> rfl

/-- Sweeping a shifted place is shifting what sweeping comes to. -/
theorem sweep_shift (keep : Place → Char → Bool)
    (hkeep : ∀ p c, keep (p.shift size lines) c = keep p c) (z : Zone) (p : Place)
    (s : List Char) :
    sweep keep z (p.shift size lines) s =
      ((sweep keep z p s).1.shift size lines, (sweep keep z p s).2) := by
  induction s generalizing z p with
  | nil => rw [sweep, sweep, Zone.atEnd_shift]
  | cons c rest ih =>
    rw [sweep, sweep, Zone.hide?_shift]
    cases z.hide? p c rest.head? with
    | some next => exact ih next.1 next.2
    | none =>
      simp only [Option.map_none, hkeep, Place.shift_pass]
      split
      · exact ih _ _
      · rfl

/-! ### Shifted cursors -/

namespace Cursor

def shift (c : Cursor) : Cursor := { c with toPlace := c.toPlace.shift size lines }

variable (c : Cursor)

@[simp] theorem shift_rest : (c.shift size lines).rest = c.rest := rfl

@[simp] theorem shift_inString : (c.shift size lines).inString = c.inString := rfl

@[simp] theorem shift_zone : (c.shift size lines).zone = c.zone := rfl

theorem shift_setInString (b : Bool) :
    (c.shift size lines).setInString b = (c.setInString b).shift size lines := rfl

theorem shift_advance : (c.shift size lines).advance = c.advance.shift size lines := by
  unfold advance
  cases hr : c.rest with
  | nil => simp only [shift_rest, hr]; rfl
  | cons ch rest =>
    have hplace : (c.shift size lines).toPlace = c.toPlace.shift size lines := rfl
    have hsweep := sweep_shift size lines (fun _ _ => false) (fun _ _ => rfl)
      c.zone.afterVisible (c.toPlace.pass ch rest.head?) rest
    simp only [shift_rest, hr, shift_zone, hplace, Place.shift_pass, hsweep]
    rfl

theorem shift_skipWhile {keep : Place → Char → Bool}
    (hkeep : ∀ p c, keep (p.shift size lines) c = keep p c) :
    (c.shift size lines).skipWhile keep = (c.skipWhile keep).shift size lines := by
  have hplace : (c.shift size lines).toPlace = c.toPlace.shift size lines := rfl
  simp only [skipWhile, shift_rest, shift_zone, hplace, sweep_shift size lines keep hkeep]
  rfl

theorem shift_endOfLiteral (quote : Char) :
    (c.shift size lines).endOfLiteral quote = (c.endOfLiteral quote).shift size lines := by
  have hkeep : ∀ p ch, continuesLiteral quote (Place.shift size lines p) ch =
      continuesLiteral quote p ch := fun _ _ => rfl
  rw [endOfLiteral, enterLiteral, shift_setInString, shift_advance,
    shift_skipWhile size lines _ hkeep]
  rfl

theorem shift_afterLiteral (quote : Char) :
    (c.shift size lines).afterLiteral quote = (c.afterLiteral quote).shift size lines := by
  rw [afterLiteral, shift_endOfLiteral, shift_setInString, shift_advance]
  rfl

/-- The text of a literal is cut from what is left to read, so it does not depend
    on how much was read before. -/
theorem shift_literalText (quote : Char) :
    (c.shift size lines).literalText quote = c.literalText quote := by
  have hopening : (c.shift size lines).enterLiteral = c.enterLiteral.shift size lines := by
    rw [enterLiteral, shift_setInString, shift_advance]
    rfl
  have htext : ((c.endOfLiteral quote).shift size lines).textSince
      (c.enterLiteral.shift size lines).mark =
        (c.endOfLiteral quote).textSince c.enterLiteral.mark := by
    have hoffset : (c.endOfLiteral quote).offset + size - (c.enterLiteral.offset + size) =
        (c.endOfLiteral quote).offset - c.enterLiteral.offset := Nat.add_sub_add_right _ _ _
    change takeBytes ((c.endOfLiteral quote).offset + size - (c.enterLiteral.offset + size))
      c.enterLiteral.rest = _
    rw [hoffset]
    rfl
  rw [literalText, literalText, shift_endOfLiteral, hopening, htext]
  rfl

end Cursor

end

/-! ### What came before -/

/-- The place, if the character before it were another. -/
def Place.follow (prev : Option Char) (prevEscaped : Bool) (p : Place) : Place :=
  { p with prev, prevEscaped }

theorem Zone.hide?_follow (z : Zone) (prev : Option Char) (prevEscaped : Bool) (p : Place)
    (c : Char) (next : Option Char) :
    z.hide? (p.follow prev prevEscaped) c next = z.hide? p c next := by
  cases z <;> rfl

/-- Where the first character is hidden, nothing hangs on the one before it. -/
theorem sweep_follow (keep : Place → Char → Bool) {z : Zone} (prev : Option Char)
    (prevEscaped : Bool) {p : Place} {c : Char} {rest : List Char}
    (h : z.hide? p c rest.head? ≠ none) :
    sweep keep z (p.follow prev prevEscaped) (c :: rest) = sweep keep z p (c :: rest) := by
  rw [sweep, sweep, Zone.hide?_follow]
  cases hhide : z.hide? p c rest.head? with
  | none => exact absurd hhide h
  | some next => rfl

namespace Cursor

def follow (prev : Option Char) (prevEscaped : Bool) (c : Cursor) : Cursor :=
  { c with toPlace := c.toPlace.follow prev prevEscaped }

variable (prev : Option Char) (prevEscaped : Bool) (c : Cursor)

theorem follow_advance : (c.follow prev prevEscaped).advance = c.advance := by
  cases hr : c.rest <;> simp only [advance, follow, hr] <;> rfl

theorem follow_skipWhile (keep : Char → Bool) :
    ((c.follow prev prevEscaped).skipWhile fun _ ch => keep ch) =
        (c.skipWhile fun _ ch => keep ch) ∨
      ((c.follow prev prevEscaped).skipWhile fun _ ch => keep ch) = c.follow prev prevEscaped ∧
        (c.skipWhile fun _ ch => keep ch) = c := by
  by_cases hk : c.current.any keep = true
  · obtain ⟨ch, hcur, hch⟩ := (Option.any_eq_true _ _).mp hk
    have hcur' : (c.follow prev prevEscaped).current = some ch := hcur
    left
    rw [skipWhile_eq_advance hcur' hch, skipWhile_eq_advance hcur hch, follow_advance]
  · rw [Bool.not_eq_true] at hk
    have hk' : (c.follow prev prevEscaped).current.any keep = false := hk
    exact Or.inr ⟨skipWhile_eq_self_of_any hk', skipWhile_eq_self_of_any hk⟩

theorem follow_endOfLiteral (quote : Char) :
    (c.follow prev prevEscaped).endOfLiteral quote = c.endOfLiteral quote := by
  have henter : (c.follow prev prevEscaped).enterLiteral = c.enterLiteral :=
    follow_advance prev prevEscaped (c.setInString true)
  rw [endOfLiteral, henter]
  rfl

theorem follow_literalText (quote : Char) :
    (c.follow prev prevEscaped).literalText quote = c.literalText quote := by
  have henter : (c.follow prev prevEscaped).enterLiteral = c.enterLiteral :=
    follow_advance prev prevEscaped (c.setInString true)
  rw [literalText, follow_endOfLiteral, henter]
  rfl

theorem follow_afterLiteral (quote : Char) :
    (c.follow prev prevEscaped).afterLiteral quote = c.afterLiteral quote := by
  rw [afterLiteral, follow_endOfLiteral]
  rfl

end Cursor

/-! ### A source further down -/

theorem hide?_start_of_opensComment {s : List Char} (h : opensComment s = true) :
    ∃ c rest, s = c :: rest ∧ Zone.code.hide? (Place.start s) c rest.head? ≠ none := by
  unfold opensComment at h
  split at h
  · exact ⟨_, _, rfl, by simp [Zone.hide?, Place.start]⟩
  · exact ⟨_, _, rfl, by simp [Zone.hide?, Place.start]⟩
  · cases h

/-- Behind a text a place is that at the start of the source after it, moved down, but
    for the last character of the text and the mark of a statement start. -/
theorem Place.passAll_eq_shift (p : Place) (text : List Char) {s : List Char} {d e : Char}
    {lines : UInt32} (hd : d ≠ '\\') (he : e ≠ '\\')
    (hline : (p.passAll (text ++ [d, e]) s).line = (Place.start s).line + lines) :
    ({ p.passAll (text ++ [d, e]) s with statementStart := true } : Place) =
      ((Place.start s).follow (some e) false).shift (p.offset + utf8Length (text ++ [d, e]))
        lines := by
  obtain ⟨q, hq⟩ : ∃ q : Place, p.passAll (text ++ [d, e]) s =
      (q.pass d (some e)).pass e s.head? := by
    rw [Place.passAll_append]
    exact ⟨_, rfl⟩
  have hescaped : (p.passAll (text ++ [d, e]) s).escaped = false := by
    simp [hq, Place.pass, he]
  have hprev : (p.passAll (text ++ [d, e]) s).prev = some e := by
    rw [hq]
    rfl
  have hprevEscaped : (p.passAll (text ++ [d, e]) s).prevEscaped = false := by
    simp [hq, Place.pass, hd]
  simp [Place.shift, Place.follow, Place.start, hline, hescaped, hprev, hprevEscaped]

/-- Behind the first line of a source a place is that at the start of the text after it,
    one line down. -/
theorem Place.passAll_line_eq_shift {p : Place} (hp : p.line = 1) {c d : Char} {text : List Char}
    (hnew : ∀ ch ∈ c :: text ++ [d], isNewline ch = false) (hd : d ≠ '\\') (s : List Char) :
    p.passAll (c :: text ++ [d, '\n']) s = ((Place.start s).follow (some '\n') false).shift
      (p.offset + utf8Length (c :: text ++ [d, '\n'])) 1 := by
  have hline : (p.passAll (c :: text ++ [d, '\n']) s).line = (Place.start s).line + 1 := by
    have hc : some c ≠ some '\r' := by
      rintro ⟨⟩
      exact absurd (hnew '\r' List.mem_cons_self) (by decide)
    have hbreaks : lineBreaks (some c) (text ++ [d] ++ '\n' :: s.head?.toList) =
        1 + lineBreaks none s.head?.toList :=
      lineBreaks_append_newline (fun ch hch => hnew ch (List.mem_cons_of_mem c hch)) hc _
    have hsplit : text ++ [d, '\n'] ++ s.head?.toList = text ++ [d] ++ '\n' :: s.head?.toList := by
      simp
    rw [List.cons_append, passAll_line, hsplit, hbreaks, start_line, hp, UInt32.add_comm]
  have hmark : (p.passAll (c :: text ++ [d, '\n']) s).statementStart = true := by
    rw [List.append_cons, passAll_append]
    rfl
  have hplace := p.passAll_eq_shift _ hd (by decide) hline
  rwa [← hmark] at hplace

namespace Cursor

/-- The cursor on the first visible character of a source that begins further down,
    behind the character `ch`. -/
def behind (ch : Char) (size : Nat) (lines : UInt32) (source : List Char) : Cursor :=
  (ofSource source).moveTo (sweep (fun _ _ => false) .code
    (((Place.start source).follow (some ch) false).shift size lines) source)

variable (ch : Char) (size : Nat) (lines : UInt32) {source : List Char}

theorem behind_of_code (hopens : opensComment source = false) : behind ch size lines source =
    ((ofSource source).follow (some ch) false).shift size lines := by
  have hfree : commentFree [] source = true := by simp [commentFree, hopens]
  have hstays : ∀ p : Place, sweep (fun _ _ => false) .code p source = (p, source) := by
    intro p
    exact sweep_code _ p hfree (by simp) (by simp)
  rw [behind, hstays, ofSource_eq hopens]
  rfl

/-- A comment at the start of the source hides what stands before it. -/
theorem behind_of_comment (hopens : opensComment source = true) :
    behind ch size lines source = (ofSource source).shift size lines := by
  obtain ⟨c, rest, rfl, hhide⟩ := hide?_start_of_opensComment hopens
  rw [behind, sweep_shift _ _ (fun _ _ => false) (fun _ _ => rfl), sweep_follow _ _ _ hhide]
  rfl

end Cursor

/-! ### The pairing -/

/-- A scan that begins at `first` and one that begins further down, where the
    character before it may be another. -/
structure Shift where
  size : Nat
  lines : UInt32
  first : Cursor
  prev : Option Char
  prevEscaped : Bool
  interpolates_eq : (first.follow prev prevEscaped).interpolates = first.interpolates

namespace Shift

variable (S : Shift)

/-- The cursor `d` is `c` shifted, but for the character before the first one. -/
def Shifts (c d : Cursor) : Prop :=
  c.inString = false ∧ (d = c.shift S.size S.lines ∨
    c = S.first ∧ d = (c.follow S.prev S.prevEscaped).shift S.size S.lines)

variable {S} {c d : Cursor}

theorem Shifts.current_eq (h : S.Shifts c d) : d.current = c.current := by
  rcases h with ⟨-, rfl | ⟨-, rfl⟩⟩ <;> rfl

theorem Shifts.advance (h : S.Shifts c d) : S.Shifts c.advance d.advance := by
  rcases h with ⟨hc, hd⟩
  refine ⟨by rw [Cursor.advance_inString, hc], Or.inl ?_⟩
  rcases hd with rfl | ⟨-, rfl⟩
  · rw [Cursor.shift_advance]
  · rw [Cursor.shift_advance, Cursor.follow_advance]

theorem Shifts.skipWhile (h : S.Shifts c d) (keep : Char → Bool) :
    S.Shifts (c.skipWhile fun _ ch => keep ch) (d.skipWhile fun _ ch => keep ch) := by
  rcases h with ⟨hc, rfl | ⟨hfirst, rfl⟩⟩
  · exact ⟨hc, Or.inl (Cursor.shift_skipWhile _ _ _ fun _ _ => rfl)⟩
  · rw [Cursor.shift_skipWhile S.size S.lines _ fun _ _ => rfl]
    rcases c.follow_skipWhile S.prev S.prevEscaped keep with heq | ⟨hstays, hstays'⟩
    · exact ⟨hc, Or.inl (by rw [heq])⟩
    · rw [hstays, hstays']
      exact ⟨hc, Or.inr ⟨hfirst, rfl⟩⟩

theorem Shifts.literalText_eq (h : S.Shifts c d) (quote : Char) :
    d.literalText quote = c.literalText quote := by
  rcases h with ⟨-, rfl | ⟨-, rfl⟩⟩
  · rw [Cursor.shift_literalText]
  · rw [Cursor.shift_literalText, Cursor.follow_literalText]

theorem Shifts.afterLiteral (h : S.Shifts c d) (quote : Char) :
    S.Shifts (c.afterLiteral quote) (d.afterLiteral quote) := by
  refine ⟨Cursor.advance_inString _, Or.inl ?_⟩
  rcases h with ⟨-, rfl | ⟨-, rfl⟩⟩
  · rw [Cursor.shift_afterLiteral]
  · rw [Cursor.shift_afterLiteral, Cursor.follow_afterLiteral]

def pairing (S : Shift) : Pairing where
  text := id
  line := (· + S.lines)
  together := S.Shifts
  near := S.Shifts
  similar h := Or.inl h.current_eq.symm
  line_eq := by
    rintro c _ ⟨-, rfl | ⟨-, rfl⟩⟩ <;> rfl
  interpolates_eq := by
    rintro c _ ⟨-, rfl | ⟨rfl, rfl⟩⟩
    · rfl
    · exact S.interpolates_eq
  advance h _ := h.advance
  skipWhile h _ := h.skipWhile _
  literal_error h _ _ hr := (h.literalText_eq _).trans hr
  literal_ok h _ _ hr := ⟨(h.literalText_eq _).trans hr, h.afterLiteral _⟩
  near_of_together h := h
  near_advance h := h.advance
  near_skipWhitespace h := by
    have hskip := h.skipWhile isWhitespace
    refine ⟨hskip, Or.inl hskip.current_eq.symm, ?_⟩
    rcases hskip with ⟨-, hd | ⟨-, hd⟩⟩ <;> exact congrArg (fun c => c.line) hd

/-! ### Shifted scans -/

/-- The scan from a source's first character on, and one that begins further down,
    behind the character `ch`. -/
def behind (ch : Char) (hch : ch ≠ '$') (prevEscaped : Bool) (size : Nat)
    (lines : UInt32) (source : List Char) : Shift where
  size := size
  lines := lines
  first := { toPlace := Place.start source, rest := source, inString := false }
  prev := some ch
  prevEscaped := prevEscaped
  interpolates_eq := by
    simp [Cursor.interpolates, Cursor.follow, Place.follow, Place.start, hch]

theorem shifts_behind (ch : Char) (hch : ch ≠ '$') (size : Nat) (lines : UInt32)
    (source : List Char) :
    (behind ch hch false size lines source).Shifts (Cursor.ofSource source)
      (Cursor.behind ch size lines source) := by
  cases hopens : opensComment source with
  | true => exact ⟨rfl, Or.inl (Cursor.behind_of_comment ch size lines hopens)⟩
  | false =>
    exact ⟨rfl, Or.inr ⟨Cursor.ofSource_eq hopens, Cursor.behind_of_code ch size lines hopens⟩⟩

/-- A call may begin at the first character on both sides. -/
def KeepsCalls (S : Shift) : Prop :=
  (S.first.follow S.prev S.prevEscaped).followsCallBoundary = S.first.followsCallBoundary

/-- Where nothing hangs on the character before the first one, the cursors go
    together at the beginning of a round. -/
theorem Shifts.begins (h : S.Shifts c d)
    (hfirst : S.KeepsCalls ∨ c.rest.length < S.first.rest.length) : S.pairing.Begins c d := by
  refine ⟨h, ?_, ?_⟩
  · rcases h with ⟨-, rfl | ⟨-, rfl⟩⟩ <;> rfl
  · rcases h with ⟨-, rfl | ⟨rfl, rfl⟩⟩
    · rfl
    · exact hfirst.resolve_right (Nat.lt_irrefl _)

/-- Between rounds the second scan stands where the first does, and has found the
    same, besides what it had `before`. -/
structure InStep (S : Shift) (before : List Finding) (s t : Scan) : Prop where
  shifts : S.Shifts s.cursor t.cursor
  first : S.KeepsCalls ∨ s.cursor.rest.length < S.first.rest.length
  found : S.pairing.Found before s t

theorem InStep.finish {s t : Scan} {before : List Finding} (h : S.InStep before s t)
    (hs : s.Sited) (ht : t.Sited) : S.InStep before (s.finish hs) (t.finish ht) := by
  apply Scan.finish_related (R := S.InStep before) _ _ hs ht h
  · intro s t h hcur
    exact ⟨t, .start, h.shifts.current_eq.trans hcur, h⟩
  · intro s t lead hs ht h hcur
    obtain ⟨s', t', hreach, hreach', hpast, hnear, hfound⟩ :=
      (h.shifts.begins h.first).reaches hs ht h.found hcur
    have hfirst := h.first.imp_right fun hlt => Nat.lt_trans hpast.less hlt
    exact ⟨s', t', hreach, hreach', hpast, hnear, hfirst, hfound⟩

end Shift

namespace Scan

variable {source rest : List Char} {t : Scan}

/-- A scan that stands where one of another text begins finds what that one finds, with
    the lines shifted, after what it has found. -/
theorem Reaches.scanFindings_of_inStep {S : Shift} (h : (ofSource source).Reaches t)
    (hstep : S.InStep t.findings (ofSource rest) t) :
    scanFindings source =
      t.findings.reverse ++ (scanFindings rest).map (Finding.map id (· + S.lines)) := by
  have hs := sited_ofSource source
  have hfound := (hstep.finish (sited_ofSource rest) (h.sited hs)).found
  rw [scanFindings, scanFindings, h.finish_eq hs, hfound, List.reverse_append, List.map_reverse]
  rfl

/-- Behind a line feed it makes no difference what the lines before say. -/
theorem Reaches.scanFindings_behind {size : Nat} {lines : UInt32} (h : (ofSource source).Reaches t)
    (hcur : t.cursor = Cursor.behind '\n' size lines rest) :
    scanFindings source =
      t.findings.reverse ++ (scanFindings rest).map (Finding.map id (· + lines)) := by
  have hnewline : '\n' ≠ '$' := by decide
  apply h.scanFindings_of_inStep (S := Shift.behind '\n' hnewline false size lines rest)
  refine ⟨?_, Or.inl rfl, rfl⟩
  rw [hcur]
  exact Shift.shifts_behind _ hnewline size lines rest

end Scan

end ModuleScan
