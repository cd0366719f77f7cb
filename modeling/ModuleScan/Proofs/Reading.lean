/-
  ModuleScan/Proofs/Reading.lean
  ==============================
  **Reading text that stands as expected.**

  `m.Reads c text a after` says that `text` and then `after` stand at the cursor
  `c`, and that `m`, started there, passes `text` and gives `a`.  Programs that
  read one piece each read the pieces one after the other (`Reads.bind`), so what
  reads a statement follows from what reads its parts, in the order in which the
  program reads them.
-/
import ModuleScan.Proofs.Sentence

namespace ModuleScan

/-! ### Programs that read a text -/

theorem Cursor.In.past {c : Cursor} {source text after : List Char} (h : c.In source)
    (hr : c.rest = text ++ after) : (c.past text after).In source := by
  rcases h with ⟨before, hs, hoff⟩
  refine ⟨before ++ text, by rw [hs, hr, List.append_assoc]; rfl, ?_⟩
  rw [Cursor.past_offset, hoff, utf8Length_append]

namespace ScanM

variable {α β : Type}

/-- From the cursor `c` the program passes `text`, which stands there before
    `after`, and gives `a`. -/
structure Reads (m : ScanM α) (c : Cursor) (text : List Char) (a : α) (after : List Char) :
    Prop where
  rest : c.rest = text ++ after
  run : ∀ s : Scan, s.Sited → s.cursor = c → m s = .ok (a, { s with cursor := c.past text after })

variable {c : Cursor} {text text' after after' : List Char} {a : α} {b : β}

theorem Reads.bind {m : ScanM α} {f : α → ScanM β} (h : m.Reads c text a after')
    (h' : (f a).Reads (c.past text after') text' b after) :
    (m >>= f).Reads c (text ++ text') b after := by
  have hafter : after' = text' ++ after := h'.rest
  subst hafter
  refine ⟨by rw [h.rest, List.append_assoc], ?_⟩
  intro s hs hcur
  apply Ends.eq_ok
  have hin : c.In s.source := hcur ▸ hs
  have hsited : ({ s with cursor := c.past text (text' ++ after) } : Scan).Sited := hin.past h.rest
  rw [ends_bind, ends_of_eq (h.run s hs hcur), ends_of_eq (h'.run _ hsited rfl), Cursor.past_past]
  exact ⟨rfl, rfl⟩

theorem reads_pure (hr : c.rest = after) : (pure a : ScanM α).Reads c [] a after := by
  subst hr
  refine ⟨rfl, ?_⟩
  intro s _ hcur
  rw [Cursor.past_nil, ← hcur]
  rfl

theorem Reads.first {m : ScanM α} {f : α → ScanM β} (h : m.Reads c [] a c.rest)
    (h' : (f a).Reads c text b after) : (m >>= f).Reads c text b after :=
  h.bind (by rwa [Cursor.past_nil])

theorem Reads.last {m : ScanM α} {f : α → ScanM β} (h : m.Reads c text a after)
    (h' : (f a).Reads (c.past text after) [] b after) : (m >>= f).Reads c text b after := by
  have hbind := h.bind h'
  rwa [List.append_nil] at hbind

theorem Reads.then_pure {m : ScanM α} {f : α → ScanM β} (h : m.Reads c text a after)
    (hf : f a = pure b) : (m >>= f).Reads c text b after := by
  refine h.last ?_
  rw [hf]
  exact reads_pure rfl

theorem Reads.look {f : Cursor → ScanM β} (h : (f c).Reads c text b after) :
    (look >>= f).Reads c text b after := by
  refine ⟨h.rest, ?_⟩
  intro s hs hcur
  apply Ends.eq_ok
  rw [ends_bind, ends_look, hcur, ends_of_eq (h.run s hs hcur)]
  exact ⟨rfl, rfl⟩

theorem reads_read {f : Cursor → α × Cursor} (hr : c.rest = text ++ after)
    (h : f c = (a, c.past text after)) : (read f).Reads c text a after := by
  refine ⟨hr, ?_⟩
  intro s _ hcur
  rw [read, hcur, h]

theorem reads_move {f : Cursor → Cursor} (hr : c.rest = text ++ after)
    (h : f c = c.past text after) : (move f).Reads c text () after :=
  reads_read hr (by rw [h])

theorem Reads.speculate {m : ScanM α} {keep : α → Bool} (h : m.Reads c text a after)
    (hk : keep a = true) : (speculate m keep).Reads c text a after := by
  refine ⟨h.rest, ?_⟩
  intro s hs hcur
  apply Ends.eq_ok
  rw [ends_speculate, ends_of_eq (h.run s.trial hs hcur), hk]
  exact ⟨rfl, rfl⟩

theorem Reads.firstOf {first second : ScanM Outcome} {outcome : Outcome}
    (h : first.Reads c text outcome after) (hne : outcome ≠ .noMatch) :
    (firstOf first second).Reads c text outcome after :=
  ⟨h.rest, fun s hs hcur => firstOf_eq_first (h.run s.trial hs hcur) hne⟩

/-- The attempt matches nothing from the cursor `c`, and finds nothing. -/
def Misses (m : ScanM Outcome) (c : Cursor) : Prop :=
  ∀ s : Scan, s.cursor = c → ∃ d, m s = .ok (.noMatch, { s with cursor := d })

theorem Reads.firstOf_second {first second : ScanM Outcome} {outcome : Outcome}
    (hmiss : first.Misses c) (h : second.Reads c text outcome after) :
    (ScanM.firstOf first second).Reads c text outcome after := by
  refine ⟨h.rest, ?_⟩
  intro s hs hcur
  obtain ⟨d, hfirst⟩ := hmiss s.trial hcur
  exact firstOf_eq_second hfirst (h.run s hs hcur)

end ScanM

/-! ### Words and layout -/

/-- The text opens no comment and begins with no whitespace. -/
structure Solid (text : List Char) : Prop where
  stops : ∀ ch, text.head? = some ch → isWhitespace ch = false
  plain : opensComment text = false

theorem solid_cons {ch : Char} (hw : isWhitespace ch = false) (hne : ch ≠ '/') (text : List Char) :
    Solid (ch :: text) :=
  ⟨fun _ hd => Option.some.inj hd ▸ hw, opensComment_of_ne_slash hne text⟩

theorem not_mem_of_isWhitespace {gap : List Char} (hgap : ∀ ch ∈ gap, isWhitespace ch = true)
    {ch : Char} (hch : isWhitespace ch = false) : ch ∉ gap := by
  intro hmem
  rw [hgap ch hmem] at hch
  cases hch

theorem plain_append {gap after : List Char} (hgap : ∀ ch ∈ gap, isWhitespace ch = true)
    (hafter : opensComment after = false) : opensComment (gap ++ after) = false :=
  opensComment_of_commentFree
    (commentFree_of_not_mem (not_mem_of_isWhitespace hgap (by decide)) hafter)

/-- A name that stands before the text has come to its end. -/
structure NameEnds (after : List Char) : Prop where
  apart : ∀ ch, after.head? = some ch → isIdentContinue ch = false
  plain : opensComment after = false

theorem NameEnds.ne {after : List Char} (h : NameEnds after) {ch : Char}
    (hch : isIdentContinue ch = true) : after.head? ≠ some ch := by
  intro hhead
  rw [h.apart ch hhead] at hch
  cases hch

theorem not_mem_of_isIdentContinue {name : List Char}
    (hname : ∀ ch ∈ name, isIdentContinue ch = true) {ch : Char}
    (hch : isIdentContinue ch = false) : ch ∉ name := by
  intro hmem
  rw [hname ch hmem] at hch
  cases hch

namespace Cursor

variable {c : Cursor} {gap name after : List Char}

theorem skipWhitespace_eq_past (hc : c.inString = false) (hr : c.rest = gap ++ after)
    (hgap : ∀ ch ∈ gap, isWhitespace ch = true) (hafter : Solid after) :
    c.skipWhitespace = c.past gap after :=
  skipWhile_eq_past hc _ hr
    (commentFree_of_not_mem (not_mem_of_isWhitespace hgap (by decide)) hafter.plain) hgap
    hafter.stops

theorem skipUntilWhitespaceOrComma_eq_past (hc : c.inString = false) (hr : c.rest = name ++ after)
    (hname : ∀ ch ∈ name, isIdentContinue ch = true) (hplain : opensComment after = false)
    (hafter : ∀ ch, after.head? = some ch → isWhitespace ch = true ∨ ch = ',') :
    c.skipUntilWhitespaceOrComma = c.past name after := by
  have hfree : commentFree name after = true :=
    commentFree_of_not_mem (not_mem_of_isIdentContinue hname (by decide)) hplain
  refine skipWhile_eq_past hc (fun ch => !isWhitespace ch && ch != ',') hr hfree ?_ ?_
  · intro ch hch
    have hcomma : ch ≠ ',' := by
      rintro rfl
      exact not_mem_of_isIdentContinue hname (by decide) hch
    simp [hcomma, isWhitespace_of_isIdentContinue (hname ch hch)]
  · intro ch hch
    rcases hafter ch hch with hw | rfl
    · simp [hw]
    · simp

theorem skipUntilWhitespace_eq_past (hc : c.inString = false) (hr : c.rest = name ++ after)
    (hname : ∀ ch ∈ name, isIdentContinue ch = true) (hplain : opensComment after = false)
    (hafter : ∀ ch, after.head? = some ch → isWhitespace ch = true) :
    c.skipUntilWhitespace = c.past name after := by
  have hfree : commentFree name after = true :=
    commentFree_of_not_mem (not_mem_of_isIdentContinue hname (by decide)) hplain
  refine skipWhile_eq_past hc (!isWhitespace ·) hr hfree ?_ ?_
  · intro ch hch
    simp [isWhitespace_of_isIdentContinue (hname ch hch)]
  · intro ch hch
    simp [hafter ch hch]

theorem exists_current (hr : c.rest = name ++ after) (hne : name ≠ []) :
    ∃ ch ∈ name, c.current = some ch := by
  obtain ⟨ch, name, rfl⟩ := List.exists_cons_of_ne_nil hne
  exact ⟨ch, by simp, by simp [current, hr]⟩

/-! Movements from where a text was passed. -/

variable {text : List Char}

theorem past_advance (hc : c.inString = false) {ch : Char} (hplain : opensComment after = false) :
    (c.past text ([ch] ++ after)).advance = c.past (text ++ [ch]) after := by
  rw [← past_past]
  exact advance_eq_past (c := c.past text ([ch] ++ after)) hc rfl hplain

theorem past_skipWhitespace (hc : c.inString = false) (hgap : ∀ ch ∈ gap, isWhitespace ch = true)
    (hafter : Solid after) :
    (c.past text (gap ++ after)).skipWhitespace = c.past (text ++ gap) after := by
  rw [← past_past]
  exact skipWhitespace_eq_past (c := c.past text (gap ++ after)) hc rfl hgap hafter

theorem past_eat (hc : c.inString = false) {word : List Char}
    (hfree : commentFree word after = true) :
    (c.past text (word ++ after)).eat word = (true, c.past (text ++ word) after) := by
  rw [← past_past]
  exact eat_eq_past (c := c.past text (word ++ after)) hc rfl hfree

end Cursor

namespace ScanM

variable {α β : Type} {c : Cursor} {text text' after after' : List Char}

theorem reads_skipWhitespace (hc : c.inString = false) (hr : c.rest = text ++ after)
    (hgap : ∀ ch ∈ text, isWhitespace ch = true) (hafter : Solid after) :
    (move Cursor.skipWhitespace).Reads c text () after :=
  reads_move hr (Cursor.skipWhitespace_eq_past hc hr hgap hafter)

theorem reads_skipUntilWhitespace (hc : c.inString = false) (hr : c.rest = text ++ after)
    (hname : ∀ ch ∈ text, isIdentContinue ch = true) (hplain : opensComment after = false)
    (hafter : ∀ ch, after.head? = some ch → isWhitespace ch = true) :
    (move Cursor.skipUntilWhitespace).Reads c text () after :=
  reads_move hr (Cursor.skipUntilWhitespace_eq_past hc hr hname hplain hafter)

theorem reads_advance (hc : c.inString = false) {ch : Char} (hr : c.rest = [ch] ++ after)
    (hplain : opensComment after = false) : (move Cursor.advance).Reads c [ch] () after :=
  reads_move hr (Cursor.advance_eq_past hc hr hplain)

theorem reads_eat (hc : c.inString = false) {word : List Char} (hr : c.rest = word ++ after)
    (hfree : commentFree word after = true) : (eat word).Reads c word true after :=
  reads_read hr (Cursor.eat_eq_past hc hr hfree)

theorem reads_eat_nothing {ch : Char} (word : List Char) (hcur : c.current ≠ some ch) :
    (eat (ch :: word)).Reads c [] false c.rest := by
  refine reads_read rfl ?_
  rw [Cursor.eat_of_current_ne hcur, Cursor.past_nil]

theorem Reads.onQuote {f : Bool → ScanM β} {b : β}
    (h : (f (c.current.any isQuote)).Reads c text b after) :
    (ScanM.onQuote >>= f).Reads c text b after := by
  refine ⟨h.rest, ?_⟩
  intro s hs hcur
  apply Ends.eq_ok
  rw [ends_bind, ends_onQuote, hcur, ends_of_eq (h.run s hs hcur)]
  exact ⟨rfl, rfl⟩

end ScanM

end ModuleScan
