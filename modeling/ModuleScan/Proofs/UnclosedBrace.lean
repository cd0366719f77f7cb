/-
  ModuleScan/Proofs/UnclosedBrace.lean
  ====================================
  **An unclosed brace costs only itself.**

  The names behind a brace that nothing closes are read up to the end of the source,
  through all that stands there, and then the scan goes back.  Nothing of this is left
  but one diagnostic, and that only for an import: the scan goes on behind the brace as
  if it had just come there (`scanFindings_unclosedBrace`).
-/
import ModuleScan.Proofs.ImportVerdict
import ModuleScan.Proofs.Shifting

namespace ModuleScan

/-! ### The clause -/

/-- A brace that opens the names of a clause, and that nothing closes. -/
structure Cursor.OnUnclosedBrace (c : Cursor) : Prop where
  current : c.current = some '{'
  undollared : c.Undollared
  unclosed : '}' ∉ c.rest

/-- Skipping to a character that does not come leads to the end. -/
theorem Cursor.skipUntil_current_eq_none {c : Cursor} {target : Char} (h : target ∉ c.rest) :
    (c.skipUntil target).current = none := by
  by_contra hne
  obtain ⟨ch, hch⟩ := Option.ne_none_iff_exists'.mp hne
  obtain rfl := skipUntil_current hch
  obtain ⟨rest, hr⟩ := current_eq_some hch
  have hsuffix : (c.skipUntil ch).rest <:+ c.rest := (c.onward_skipWhile _).suffix
  exact h (hsuffix.subset (by rw [hr]; exact List.mem_cons_self))

theorem Bindings.read_of_unclosed {c : Cursor} (h : c.OnUnclosedBrace) :
    Bindings.read c = (.unterminated, c.skipUntil '}') := by
  apply Bindings.read_eq_last
  rw [Clause.read_of_brace h.current h.undollared, Cursor.skipUntil_current_eq_none h.unclosed]
  rfl

namespace ScanM

variable {s : Scan}

/-- The names of an import go back to the brace, are reported there, and pass it. -/
theorem importClause_of_unclosed (h : s.cursor.OnUnclosedBrace) :
    importClause s = .ok (.rejected, { s with
      cursor := s.cursor.advance
      findings := .diagnostic .unterminatedImport s.cursor.line :: s.findings }) := by
  apply Ends.eq_ok
  have htype : s.cursor.eat ['t', 'y', 'p', 'e'] = (false, s.cursor) :=
    Cursor.eat_of_current_ne (by rw [h.current]; decide) _
  simp [importClause, importsTypes, importBindings, htype, ends_speculate,
    Bindings.read_of_unclosed h, Scan.trial, Scan.rewind]

/-- The names of an export go back to the brace and pass it. -/
theorem exportClause_of_unclosed (h : s.cursor.OnUnclosedBrace) :
    exportClause s = .ok (.noMatch, { s with cursor := s.cursor.advance }) := by
  apply Ends.eq_ok
  have htype : s.cursor.eat ['t', 'y', 'p', 'e'] = (false, s.cursor) :=
    Cursor.eat_of_current_ne (by rw [h.current]; decide) _
  simp [exportClause, exportBraces, htype, h.current, ends_speculate,
    Cursor.skipUntil_current_eq_none h.unclosed, Scan.trial, Scan.rewind]

end ScanM

/-! ### The source -/

/-- What stands before the line feed: the word of a statement and a brace. -/
def Statement.opening (statement : Statement) : List Char := statement.letters ++ [' ', '{']

/-- A source whose first line opens a brace, and a text that begins on the next line. -/
def unclosedBrace (statement : Statement) (text : List Char) : List Char :=
  statement.opening ++ '\n' :: text

section

variable (statement : Statement) (text : List Char)

/-- The cursor on the brace. -/
def braceCursor : Cursor :=
  (Cursor.ofSource (unclosedBrace statement text)).past (statement.letters ++ [' '])
    ('{' :: '\n' :: text)

theorem begins_unclosedBrace : statement.letters <+: unclosedBrace statement text := by
  rw [unclosedBrace, Statement.opening, List.append_assoc]
  exact List.prefix_append _ _

theorem rest_ofSource_unclosedBrace : (Cursor.ofSource (unclosedBrace statement text)).rest =
    statement.letters ++ [' '] ++ '{' :: '\n' :: text := by
  obtain ⟨-, hrest, -⟩ := Cursor.ofSource_of_begins (begins_unclosedBrace statement text)
  simpa [unclosedBrace, Statement.opening] using hrest

theorem walks_braceCursor : (Cursor.ofSource (unclosedBrace statement text)).Walks
    (statement.letters ++ [' ']) (braceCursor statement text) := by
  have hslash : '/' ∉ statement.letters ++ [' '] := by cases statement <;> decide
  have hfree : commentFree (statement.letters ++ [' ']) ('{' :: '\n' :: text) = true :=
    commentFree_of_not_mem hslash (opensComment_of_ne_slash (by decide) _)
  exact Cursor.eat_eq_true_iff.mp
    (Cursor.eat_eq_past rfl (rest_ofSource_unclosedBrace statement text) hfree)

theorem beginsClause_unclosedBrace :
    (Cursor.ofSource (unclosedBrace statement text)).BeginsClause statement
      (braceCursor statement text) where
  statementStart :=
    (Cursor.ofSource_of_begins (begins_unclosedBrace statement text)).1.statementStart
  walks := ⟨[' '], walks_braceCursor statement text, isGap_blank, by simp⟩
  visible := rfl
  unquoted := rfl

variable {text} in
theorem onUnclosedBrace_braceCursor (ht : '}' ∉ text) :
    (braceCursor statement text).OnUnclosedBrace where
  current := rfl
  undollared := (beginsClause_unclosedBrace statement text).undollared
  unclosed := by simpa [braceCursor] using ht

/-- Behind its first line the source is the text, one line further down. -/
theorem passAll_opening_eq_shift :
    (Cursor.ofSource (unclosedBrace statement text)).toPlace.passAll
        (statement.opening ++ ['\n']) text =
      ((Place.start text).follow (some '\n') false).shift
        (utf8Length (statement.opening ++ ['\n'])) 1 := by
  obtain ⟨-, -, hoffset, hline⟩ :=
    Cursor.ofSource_of_begins (begins_unclosedBrace statement text)
  obtain ⟨c, front, hfront⟩ : ∃ c front, statement.opening = c :: front ++ ['{'] := by
    cases statement with
    | importing => exact ⟨'i', ['m', 'p', 'o', 'r', 't', ' '], rfl⟩
    | exporting => exact ⟨'e', ['x', 'p', 'o', 'r', 't', ' '], rfl⟩
  have hnew : ∀ ch ∈ c :: front ++ ['{'], isNewline ch = false := by
    rw [← hfront]
    cases statement <;> exact forall_mem_of_all (by decide)
  have hplace := Place.passAll_line_eq_shift hline hnew (by decide) text
  rw [hoffset, Nat.zero_add] at hplace
  rw [hfront, List.append_assoc]
  exact hplace

theorem advance_braceCursor : (braceCursor statement text).advance =
    (Cursor.ofSource (unclosedBrace statement text)).past statement.opening ('\n' :: text) := by
  have hplain : opensComment ('\n' :: text) = false := opensComment_of_ne_slash (by decide) _
  have hadvance : (braceCursor statement text).advance =
      (Cursor.ofSource (unclosedBrace statement text)).past (statement.letters ++ [' '] ++ ['{'])
        ('\n' :: text) := Cursor.past_advance rfl hplain
  rwa [List.append_assoc] at hadvance

theorem advance_advance_braceCursor : (braceCursor statement text).advance.advance =
    Cursor.behind '\n' (utf8Length (statement.opening ++ ['\n'])) 1 text := by
  have hplace := passAll_opening_eq_shift statement text
  have hpass := Cursor.past_append_singleton (Cursor.ofSource (unclosedBrace statement text))
    statement.opening text '\n'
  rw [advance_braceCursor, Cursor.behind, ← hplace]
  simp only [Cursor.advance, Cursor.past_rest, ← hpass]
  rfl

end

/-- A round leads behind the brace, and the next one behind the line feed. -/
theorem scanFindings_of_unclosed (statement : Statement) {text : List Char} {outcome : Outcome}
    {found : List Finding}
    (hrun : ScanM.clause statement { Scan.ofSource (unclosedBrace statement text) with
        cursor := braceCursor statement text } =
      .ok (outcome, { Scan.ofSource (unclosedBrace statement text) with
        cursor := (braceCursor statement text).advance
        findings := found })) :
    scanFindings (unclosedBrace statement text) =
      ((outcome.finding? 1).toList ++ found).reverse ++
        (scanFindings text).map (Finding.map id (· + 1)) := by
  have hreach := ScanM.reaches_of_clause (s := Scan.ofSource (unclosedBrace statement text))
    (beginsClause_unclosedBrace statement text) hrun
  have hline : (Scan.ofSource (unclosedBrace statement text)).cursor.line = 1 :=
    (Cursor.ofSource_of_begins (begins_unclosedBrace statement text)).2.2.2
  have hnewline : (braceCursor statement text).advance.current = some '\n' := by
    rw [advance_braceCursor]
    rfl
  have hround := hreach.round hnewline (ScanM.round_of_attempt?_eq_none rfl _)
  rw [hround.scanFindings_behind (advance_advance_braceCursor statement text), hline]

/-- **An unclosed brace costs only itself.**  Behind a line that opens a brace, which the
    text does not close, the scan finds what it finds in the text alone, one line further
    down.  Besides, an import is reported on its line, and an export is not. -/
theorem scanFindings_unclosedBrace {text : List Char} (ht : '}' ∉ text) :
    scanFindings (unclosedBrace .importing text) =
        .diagnostic .unterminatedImport 1 :: .rejected 1 ::
          (scanFindings text).map (Finding.map id (· + 1)) ∧
      scanFindings (unclosedBrace .exporting text) =
        (scanFindings text).map (Finding.map id (· + 1)) := by
  have hbrace := fun statement => onUnclosedBrace_braceCursor statement ht
  constructor
  · exact scanFindings_of_unclosed .importing
      (ScanM.importClause_of_unclosed (s := { Scan.ofSource (unclosedBrace .importing text) with
        cursor := braceCursor .importing text }) (hbrace .importing))
  · exact scanFindings_of_unclosed .exporting
      (ScanM.exportClause_of_unclosed (s := { Scan.ofSource (unclosedBrace .exporting text) with
        cursor := braceCursor .exporting text }) (hbrace .exporting))

/-- A comment, a second brace that nothing closes, and an import behind it. -/
theorem scanFindings_unclosedBrace_twice :
    '}' ∉ "/**/import \x7b\nimport 'a'".toList ∧
      scanFindings (unclosedBrace .importing "/**/import \x7b\nimport 'a'".toList) =
        .diagnostic .unterminatedImport 1 :: .rejected 1 ::
          (scanFindings "/**/import \x7b\nimport 'a'".toList).map (Finding.map id (· + 1)) ∧
      scanFindings (unclosedBrace .exporting "/**/import \x7b\nimport 'a'".toList) =
        (scanFindings "/**/import \x7b\nimport 'a'".toList).map (Finding.map id (· + 1)) :=
  ⟨by decide, scanFindings_unclosedBrace (by decide)⟩

end ModuleScan
