/-
  ModuleScan/Proofs/Restart.lean
  ==============================
  **A scan starts afresh after every statement.**

  Behind a line terminator or a `;` nothing of the text before matters any more: a
  scan goes on from there as one of the remaining text alone, but for the lines
  (`Scan.Reaches.restarts`).  What was read before could only show in what the
  cursor remembers, and this is, shifted, what it remembers at the start of the
  remaining text (`Cursor.Faithful.eq_restarted`).
-/
import ModuleScan.Extraction
import ModuleScan.Proofs.Faithful
import ModuleScan.Proofs.Passing
import ModuleScan.Proofs.Shifting

namespace ModuleScan

/-! ### The cursor behind a statement -/

theorem opensComment_of_hide?_code {p : Place} {c : Char} {rest : List Char}
    (hescaped : p.escaped = false) (h : Zone.code.hide? p c rest.head? = none) :
    opensComment (c :: rest) = false := by
  rw [← Bool.not_eq_true]
  intro hopens
  unfold opensComment at hopens
  split at hopens
  next heq =>
    cases heq
    simp [Zone.hide?, hescaped] at h
  next heq =>
    cases heq
    simp [Zone.hide?, hescaped] at h
  · cases hopens

namespace Cursor

variable {c : Cursor} {ch lead : Char}

/-- A statement may begin behind `ch`, and nothing is escaped there. -/
theorem Faithful.after_statement (h : c.Faithful) (hprev : c.prev = some ch)
    (hends : endsStatement ch = true) (hcur : c.current = some lead) :
    c.escaped = false ∧ c.statementStart = true ∧ opensComment c.rest = false := by
  obtain ⟨rest, hr⟩ := current_eq_some hcur
  have hplace := h.remembers (by rw [hr]; exact List.cons_ne_nil _ _)
  have hescaped : c.escaped = false := by
    rw [← Bool.not_eq_true]
    intro hescaped
    have hslash := hplace.escaped hescaped
    rw [hprev] at hslash
    obtain rfl : ch = '\\' := Option.some.inj hslash
    exact absurd hends (by decide)
  have hany : c.prev.any endsStatement = true := by rw [hprev]; exact hends
  refine ⟨hescaped, hplace.statementStart hany, ?_⟩
  have hshows := h.shows lead rest hr
  rw [hr]
  exact opensComment_of_hide?_code hescaped hshows

/-- Behind a statement the cursor is that at the start of the remaining text,
    shifted, but for the character before it. -/
theorem Faithful.eq_restarted (h : c.Faithful) (hprev : c.prev = some ch)
    (hends : endsStatement ch = true) (hcur : c.current = some lead) :
    ∃ lines, c.line = (Cursor.ofSource c.rest).line + lines ∧
      c = ((Cursor.ofSource c.rest).follow (some ch) c.prevEscaped).shift c.offset lines := by
  obtain ⟨hescaped, hstart, hopens⟩ := h.after_statement hprev hends hcur
  obtain ⟨lines, hlines⟩ : ∃ lines, c.line = (Place.start c.rest).line + lines :=
    ⟨c.line - (Place.start c.rest).line, by rw [UInt32.add_comm, UInt32.sub_add_cancel]⟩
  refine ⟨lines, ?_, ?_⟩
  · rw [Cursor.ofSource_eq hopens]
    exact hlines
  · have hcode := h.inString
    rw [Cursor.ofSource_eq hopens]
    rcases c with ⟨⟨offset, line, escaped, prev, prevEscaped, statementStart⟩, rest, inString⟩
    simp only at hescaped hstart hprev hlines hcode
    subst hescaped hstart hprev hlines hcode
    simp [Cursor.shift, Place.shift, Cursor.follow, Place.follow, Place.start]

end Cursor

/-! ### The scan behind a statement -/

namespace Scan

/-- **A scan starts afresh behind every statement.**  When a round begins at the
    rest of a source and the character before it is a line terminator or a `;`,
    the scan finds from there on what a scan of that rest alone finds, with the
    lines shifted by the difference between the line here and the line at the
    start of the rest. -/
theorem Reaches.restarts {source : List Char} {t : Scan} (h : (Scan.ofSource source).Reaches t)
    {ch lead : Char} (hprev : t.cursor.prev = some ch) (hends : endsStatement ch = true)
    (hcur : t.cursor.current = some lead) :
    t.cursor.In source ∧ ∃ lines,
      t.cursor.line = (Cursor.ofSource t.cursor.rest).line + lines ∧
      scanFindings source =
        t.findings.reverse ++ (scanFindings t.cursor.rest).map (Finding.map id (· + lines)) := by
  have hs := Scan.sited_ofSource source
  have hin : t.cursor.In source := by
    have hin : t.cursor.In t.source := h.sited hs
    rwa [(h.onward hs).source] at hin
  obtain ⟨lines, hlines, heq⟩ := h.faithful.eq_restarted hprev hends hcur
  refine ⟨hin, lines, hlines, ?_⟩
  obtain ⟨-, -, hopens⟩ := h.faithful.after_statement hprev hends hcur
  have hdollar : ch ≠ '$' := by
    rintro rfl
    exact absurd hends (by decide)
  have hcalls : (isWhitespace ch || ch == ';' || ch == '=' || ch == '(') = true := by
    rw [endsStatement, Bool.or_eq_true] at hends
    rcases hends with hnew | hsemicolon
    · rw [isWhitespace, hnew]
      rfl
    · rw [hsemicolon, Bool.or_true]
      rfl
  have hstep : (Shift.behind ch hdollar t.cursor.prevEscaped t.cursor.offset lines
      t.cursor.rest).InStep t.findings (Scan.ofSource t.cursor.rest) t := by
    rw [Cursor.ofSource_eq hopens] at heq
    refine ⟨⟨rfl, Or.inr ⟨?_, ?_⟩⟩, Or.inl ?_, rfl⟩
    · exact Cursor.ofSource_eq hopens
    · change t.cursor = ((Cursor.ofSource t.cursor.rest).follow _ _).shift _ _
      rw [Cursor.ofSource_eq hopens]
      exact heq
    · exact hcalls
  exact h.scanFindings_of_inStep hstep

/-- The diagnostic on the second line is found on the first line of the text behind
    the `;`. -/
theorem restarts_after_semicolon :
    ∃ t, (Scan.ofSource "x\n;import a".toList).Reaches t ∧ t.cursor.prev = some ';' ∧
      t.cursor.current = some 'i' ∧ t.cursor.In "x\n;import a".toList ∧ ∃ lines,
      t.cursor.line = (Cursor.ofSource t.cursor.rest).line + lines ∧
      scanFindings "x\n;import a".toList =
        t.findings.reverse ++ (scanFindings t.cursor.rest).map (Finding.map id (· + lines)) := by
  have hreach : (Scan.ofSource "x\n;import a".toList).Reaches
      { Scan.ofSource "x\n;import a".toList with
        cursor := (Cursor.ofSource "x\n;import a".toList).advance.advance.advance } :=
    ((Reaches.start.round rfl rfl).round rfl rfl).round rfl rfl
  exact ⟨_, hreach, rfl, rfl, hreach.restarts rfl (by decide) rfl⟩

end Scan

end ModuleScan
