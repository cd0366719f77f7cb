/-
  ModuleScan/Proofs/Literal.lean
  ==============================
  **What a literal is taken for.**

  From the opening quote a literal goes on up to the first brace, plus sign or
  quote of its kind that is not escaped.  Any text splits there in one way
  (`exists_staysInLiteral_append`), and what stands there decides what the literal
  comes to (`literalText_of_stays`).  A literal that is accepted is therefore the
  source text between two quotes, as it stands (`literalText_eq_ok`).
-/
import Mathlib.Algebra.Ring.Parity
import Mathlib.Data.List.Induction
import ModuleScan.Proofs.Passing

namespace ModuleScan

/-! ### Escapes -/

/-- The number of backslashes at the end of a text. -/
def trailingBackslashes (text : List Char) : Nat :=
  (text.reverse.takeWhile (· == '\\')).length

theorem escapedAfter_append (escaped : Bool) (text text' : List Char) :
    escapedAfter escaped (text ++ text') = escapedAfter (escapedAfter escaped text) text' := by
  induction text generalizing escaped with
  | nil => rfl
  | cons c text ih => rw [List.cons_append, escapedAfter, escapedAfter, ih]

theorem trailingBackslashes_concat (text : List Char) (c : Char) :
    trailingBackslashes (text ++ [c]) = if c == '\\' then trailingBackslashes text + 1 else 0 := by
  simp only [trailingBackslashes, List.reverse_append, List.reverse_singleton,
    List.singleton_append, List.takeWhile_cons]
  split <;> simp

theorem escapedAfter_false_iff (text : List Char) :
    escapedAfter false text = true ↔ Odd (trailingBackslashes text) := by
  induction text using List.reverseRecOn with
  | nil => simp [escapedAfter, trailingBackslashes]
  | append_singleton text c ih =>
    rw [escapedAfter_append, trailingBackslashes_concat]
    by_cases hc : c = '\\'
    · simp [escapedAfter, hc, Nat.odd_add_one, ← ih]
    · simp [escapedAfter, hc]

/-! ### Where a literal goes on -/

def goesOn (quote : Char) (escaped : Bool) (c : Char) : Bool :=
  !(c == quote && !escaped) && c != '{' && c != '+'

theorem continuesLiteral_eq (quote : Char) (p : Place) (c : Char) :
    continuesLiteral quote p c = goesOn quote p.escaped c := rfl

def staysInLiteral (quote : Char) : Bool → List Char → Bool
  | _, [] => true
  | escaped, c :: text =>
    goesOn quote escaped c && staysInLiteral quote (c == '\\' && !escaped) text

theorem staysInLiteral_append (quote : Char) (escaped : Bool) (text text' : List Char) :
    staysInLiteral quote escaped (text ++ text') = true ↔
      staysInLiteral quote escaped text = true ∧
        staysInLiteral quote (escapedAfter escaped text) text' = true := by
  induction text generalizing escaped with
  | nil => simp [staysInLiteral, escapedAfter]
  | cons c text ih =>
    simp only [List.cons_append, staysInLiteral, escapedAfter, Bool.and_eq_true, ih, and_assoc]

/-- No literal goes on at the first character of `after`, if there is one. -/
def LiteralStops (quote : Char) (escaped : Bool) (after : List Char) : Prop :=
  ∀ c, after.head? = some c → goesOn quote escaped c = false

theorem exists_staysInLiteral_append (quote : Char) (escaped : Bool) (s : List Char) :
    ∃ text after, s = text ++ after ∧ staysInLiteral quote escaped text = true ∧
      LiteralStops quote (escapedAfter escaped text) after := by
  induction s generalizing escaped with
  | nil => exact ⟨[], [], rfl, rfl, by simp [LiteralStops]⟩
  | cons c s ih =>
    cases hc : goesOn quote escaped c with
    | false => exact ⟨[], c :: s, rfl, rfl, by simpa [LiteralStops, escapedAfter] using hc⟩
    | true =>
      obtain ⟨text, after, rfl, hstays, hstops⟩ := ih (c == '\\' && !escaped)
      exact ⟨c :: text, after, rfl, by simp [staysInLiteral, hc, hstays], hstops⟩

theorem staysInLiteral_iff {quote : Char} {text : List Char} :
    staysInLiteral quote false text = true ↔
      '{' ∉ text ∧ '+' ∉ text ∧
        ∀ before after, text = before ++ quote :: after → Odd (trailingBackslashes before) := by
  induction text using List.reverseRecOn with
  | nil => simp [staysInLiteral]
  | append_singleton text c ih =>
    rw [staysInLiteral_append, ih]
    simp only [staysInLiteral, goesOn, Bool.and_true, Bool.and_eq_true, Bool.not_eq_true',
      Bool.and_eq_false_iff, bne_iff_ne, beq_eq_false_iff_ne, Bool.not_eq_false',
      escapedAfter_false_iff, List.mem_append, List.mem_singleton, not_or]
    constructor
    · rintro ⟨⟨hbrace, hplus, hodd⟩, ⟨hquote, hcb⟩, hcp⟩
      refine ⟨⟨hbrace, Ne.symm hcb⟩, ⟨hplus, Ne.symm hcp⟩, ?_⟩
      intro before after heq
      rcases List.eq_nil_or_concat after with rfl | ⟨after', d, rfl⟩
      · obtain ⟨rfl, hc⟩ := List.append_inj' heq rfl
        obtain rfl : c = quote := by simpa using hc
        exact hquote.resolve_left (by simp)
      · have hsplit : text ++ [c] = (before ++ quote :: after') ++ [d] := by simpa using heq
        obtain ⟨htext, -⟩ := List.append_inj' hsplit rfl
        exact hodd before after' htext
    · rintro ⟨⟨hbrace, hcb⟩, ⟨hplus, hcp⟩, hodd⟩
      refine ⟨⟨hbrace, hplus, ?_⟩, ⟨?_, Ne.symm hcb⟩, Ne.symm hcp⟩
      · intro before after heq
        exact hodd before (after ++ [c]) (by rw [heq, List.append_assoc, List.cons_append])
      · by_cases hq : c = quote
        · exact Or.inr (hodd text [] (by rw [hq]))
        · exact Or.inl hq

/-! ### Reading a literal -/

theorem sweep_literal {quote : Char} (p : Place) {text after : List Char}
    (hstays : staysInLiteral quote p.escaped text = true)
    (hstops : LiteralStops quote (escapedAfter p.escaped text) after) :
    sweep (continuesLiteral quote) .literal p (text ++ after) = (p.passAll text after, after) := by
  induction text generalizing p with
  | nil =>
    cases after with
    | nil => rfl
    | cons c after =>
      have hc : continuesLiteral quote p c = false := by
        rw [continuesLiteral_eq]
        exact hstops c rfl
      simp [sweep, Zone.hide?, hc, Place.passAll]
  | cons c text ih =>
    rw [staysInLiteral, Bool.and_eq_true, ← continuesLiteral_eq] at hstays
    rcases hstays with ⟨hkeep, hstays⟩
    rw [List.cons_append, sweep_cons_of_keep rfl hkeep, Place.passAll]
    cases hnext : text ++ after with
    | nil =>
      obtain ⟨rfl, rfl⟩ := List.append_eq_nil_iff.mp hnext
      rfl
    | cons d rest =>
      have hescaped : (p.pass c (d :: rest).head?).escaped = (c == '\\' && !p.escaped) := rfl
      rw [← hnext] at hescaped ⊢
      apply ih
      · rw [hescaped]
        exact hstays
      · rw [hescaped]
        exact hstops

theorem takeBytes_append (text after : List Char) :
    takeBytes (utf8Length text) (text ++ after) = text := by
  induction text with
  | nil =>
    cases after with
    | nil => rfl
    | cons c after => simp [takeBytes, Nat.not_le.mpr c.utf8Size_pos]
  | cons c text ih =>
    rw [List.cons_append, utf8Length_cons, takeBytes, if_pos (Nat.le_add_right _ _),
      Nat.add_sub_cancel_left, ih]

namespace Cursor

variable {c : Cursor} {quote : Char} {text after : List Char}

theorem enterLiteral_eq_past (hr : c.rest = quote :: after) :
    c.enterLiteral = (c.setInString true).past [quote] after := by
  have hzone : (c.setInString true).zone.afterVisible = .literal := rfl
  simp only [enterLiteral, advance, setInString_rest, hr, hzone]
  cases after with
  | nil => rfl
  | cons d after => simp [sweep, Zone.hide?, moveTo, past, Place.passAll]

theorem enterLiteral_escaped (hr : c.rest = quote :: after) (hq : isQuote quote = true) :
    c.enterLiteral.escaped = false := by
  have hne : (quote == '\\') = false := by
    rw [beq_eq_false_iff_ne]
    rintro rfl
    exact absurd hq (by decide)
  rw [enterLiteral_eq_past hr]
  simp [past, Place.passAll, Place.pass, hne]

theorem endOfLiteral_eq_past (hr : c.rest = quote :: (text ++ after)) (hq : isQuote quote = true)
    (hstays : staysInLiteral quote false text = true)
    (hstops : LiteralStops quote (escapedAfter false text) after) :
    c.endOfLiteral quote = (c.setInString true).past (quote :: text) after := by
  have hescaped := enterLiteral_escaped hr hq
  have hsweep : sweep (continuesLiteral quote) .literal c.enterLiteral.toPlace (text ++ after) =
      _ := sweep_literal _ (by rw [hescaped]; exact hstays) (by rw [hescaped]; exact hstops)
  have henter := enterLiteral_eq_past hr
  have hzone : c.enterLiteral.zone = .literal := by rw [henter]; rfl
  have hrest : c.enterLiteral.rest = text ++ after := by rw [henter]; rfl
  simp only [endOfLiteral, skipWhile, hzone, hrest, hsweep]
  rw [henter]
  rfl

/-- What stands where a literal no longer goes on decides what it comes to. -/
theorem literalText_of_stays (hr : c.rest = quote :: (text ++ after)) (hq : isQuote quote = true)
    (hstays : staysInLiteral quote false text = true)
    (hstops : LiteralStops quote (escapedAfter false text) after) :
    c.literalText quote = match after.head? with
      | none => .error .unterminatedSpecifier
      | some ch => if ch == quote then .ok (String.ofList text) else .error .dynamicSpecifier := by
  have hend := endOfLiteral_eq_past hr hq hstays hstops
  have hcur : (c.endOfLiteral quote).current = after.head? := by rw [hend, past_current]
  have htext : (c.endOfLiteral quote).textSince c.enterLiteral.mark = text := by
    rw [hend, enterLiteral_eq_past hr]
    simp only [textSince, mark, past_offset, past_rest, utf8Length_cons, utf8Length_nil,
      ← Nat.add_assoc, Nat.add_zero, Nat.add_sub_cancel_left]
    exact takeBytes_append text after
  cases after with
  | nil => simp only [literalText, hcur, List.head?_nil]
  | cons ch after => simp only [literalText, htext, hcur, List.head?_cons]

/-- A literal that is accepted is the text between two quotes of its kind, the
    second of which is the first that is not escaped. -/
theorem literalText_eq_ok {result : String} (hc : c.current = some quote)
    (hq : isQuote quote = true) (h : c.literalText quote = .ok result) :
    ∃ after, c.rest = quote :: (result.toList ++ quote :: after) ∧
      staysInLiteral quote false result.toList = true ∧
      escapedAfter false result.toList = false ∧
      c.endOfLiteral quote =
        (c.setInString true).past (quote :: result.toList) (quote :: after) := by
  obtain ⟨rest, hr⟩ := current_eq_some hc
  obtain ⟨text, after, rfl, hstays, hstops⟩ := exists_staysInLiteral_append quote false rest
  rw [literalText_of_stays hr hq hstays hstops] at h
  cases after with
  | nil => cases h
  | cons ch after =>
    simp only [List.head?_cons] at h
    split at h
    next hch =>
      obtain rfl : ch = quote := by simpa using hch
      cases h
      rw [String.toList_ofList]
      refine ⟨after, hr, hstays, ?_, endOfLiteral_eq_past hr hq hstays hstops⟩
      have hgoes := hstops ch rfl
      -- the character is no brace and no plus sign, so it stops the literal unescaped
      have hne : ch ≠ '{' ∧ ch ≠ '+' := by
        constructor
        · rintro rfl
          exact absurd hq (by decide)
        · rintro rfl
          exact absurd hq (by decide)
      simpa [goesOn, hne] using hgoes
    · cases h

end Cursor

end ModuleScan
