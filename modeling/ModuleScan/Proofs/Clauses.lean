/-
  ModuleScan/Proofs/Clauses.lean
  ==============================
  **A statement is its word and a clause.**

  Where the word of a statement stands at the start of a statement, with whitespace
  behind it and then neither whitespace nor a quote, the attempt at its first letter
  does what the clause does there: no call is matched, and the word is complete
  (`attempt_of_clause`).  So what a statement gives follows from what its clause
  gives.
-/
import ModuleScan.Proofs.Printing
import ModuleScan.Proofs.Walking

namespace ModuleScan

/-! ### Words and clauses -/

def Statement.lead : Statement → Char
  | .importing => 'i'
  | .exporting => 'e'

/-- Behind the word of the statement and whitespace a clause stands at the cursor `d`. -/
structure Cursor.BeginsClause (c : Cursor) (statement : Statement) (d : Cursor) : Prop where
  statementStart : c.statementStart = true
  walks : ∃ gap, c.Walks (statement.letters ++ gap) d ∧ IsGap gap ∧ gap ≠ []
  visible : d.current.any isWhitespace = false
  unquoted : d.current.any isQuote = false

/-- A source that begins with the word is read from its first line on. -/
theorem Cursor.ofSource_of_begins {statement : Statement} {source : List Char}
    (h : statement.letters <+: source) :
    (ofSource source).AtStart ∧ (ofSource source).rest = source ∧
      (ofSource source).offset = 0 ∧ (ofSource source).line = 1 := by
  obtain ⟨text, rfl⟩ := h
  have hplain : opensComment (statement.letters ++ text) = false := by
    cases statement <;> exact opensComment_of_ne_slash (by decide) _
  obtain ⟨hstart, hrest⟩ := atStart_ofSource hplain
  refine ⟨hstart, hrest, ?_, ?_⟩
  · rw [ofSource_eq hplain]
    rfl
  · rw [ofSource_eq hplain]
    cases statement <;> rfl

/-- The word is complete, and no parenthesis makes it a call. -/
theorem Cursor.BeginsClause.word {c d : Cursor} {statement : Statement}
    (h : c.BeginsClause statement d) :
    ∃ e, c.Walks statement.letters e ∧ e.atWordEnd = true ∧ e.current ≠ some '(' ∧
      e.skipWhitespace = d := by
  obtain ⟨gap, hwalks, hgap, hne⟩ := h.walks
  obtain ⟨e, hword, hskip⟩ := hwalks.exists_split
  obtain ⟨g, gap, rfl⟩ := List.exists_cons_of_ne_nil hne
  have hcur := hskip.current_eq
  have hg : isWhitespace g = true := hgap g List.mem_cons_self
  refine ⟨e, hword, ?_, ?_, hskip.skipWhitespace_eq hgap h.visible⟩
  · have hdot : g ≠ '.' := by
      rintro rfl
      exact absurd hg (by decide)
    simp [atWordEnd, hcur, isIdentContinue_of_isWhitespace hg, hdot]
  · rw [hcur]
    rintro ⟨⟩
    exact absurd hg (by decide)

namespace ScanM

variable {s : Scan} {d : Cursor} {post : Outcome → Scan → Prop}

/-- Behind the whole word `import` the statement names a module, or lists names first. -/
theorem ends_staticImport_of_word (hstart : s.cursor.statementStart = true)
    (hword : s.cursor.eat ['i', 'm', 'p', 'o', 'r', 't'] = (true, d)) (hend : d.atWordEnd = true) :
    staticImport.Ends s post ↔
      (if d.skipWhitespace.current.any isQuote then specifier .importing else importClause).Ends
        { s with cursor := d.skipWhitespace } post := by
  simp only [staticImport, ends_bind, ends_look, hstart, if_true, ends_eat, hword, hend,
    Bool.and_self, ends_move, ends_onQuote]

theorem ends_exportFrom_of_word (hstart : s.cursor.statementStart = true)
    (hword : s.cursor.eat ['e', 'x', 'p', 'o', 'r', 't'] = (true, d)) (hend : d.atWordEnd = true) :
    exportFrom.Ends s post ↔ exportClause.Ends { s with cursor := d.skipWhitespace } post := by
  simp only [exportFrom, ends_bind, ends_look, hstart, if_true, ends_eat, hword, hend,
    Bool.and_self, ends_move]

def clause : Statement → ScanM Outcome
  | .importing => importClause
  | .exporting => exportClause

/-- **The attempt at a statement does what its clause does.** -/
theorem attempt_of_clause {statement : Statement} {t : Scan} {outcome : Outcome}
    (h : s.cursor.BeginsClause statement d)
    (hrun : clause statement { s with cursor := d } = .ok (outcome, t)) :
    ∃ attempt, attempt? statement.lead = some attempt ∧ attempt s = .ok (outcome, t) := by
  obtain ⟨e, hword, hend, hcall, hskip⟩ := h.word
  have heat := Cursor.eat_eq_true_iff.mpr hword
  cases statement with
  | importing =>
    have hcallee : s.trial.cursor.eat Callee.dynamicImport.opening = (false, e) :=
      hword.eat_eq_false hcall
    obtain ⟨f, hmisses⟩ := call_misses (congrArg Prod.fst hcallee) s.trial rfl
    refine ⟨_, rfl, firstOf_eq_second hmisses (Ends.eq_ok ?_)⟩
    rw [ends_staticImport_of_word h.statementStart heat hend, hskip, h.unquoted,
      if_neg Bool.false_ne_true]
    exact (ends_of_eq hrun).mpr ⟨rfl, rfl⟩
  | exporting =>
    refine ⟨_, rfl, Ends.eq_ok ?_⟩
    rw [ends_exportFrom_of_word h.statementStart heat hend, hskip]
    exact (ends_of_eq hrun).mpr ⟨rfl, rfl⟩

/-- A round leads to where the clause does, and notes its outcome. -/
theorem reaches_of_clause {statement : Statement} {t : Scan} {outcome : Outcome}
    (h : s.cursor.BeginsClause statement d)
    (hrun : clause statement { s with cursor := d } = .ok (outcome, t)) :
    s.Reaches { t with findings := (outcome.finding? s.cursor.line).toList ++ t.findings } := by
  obtain ⟨attempt, hattempt, hresult⟩ := attempt_of_clause h hrun
  obtain ⟨e, hword, -⟩ := h.word
  have hcur : s.cursor.current = some statement.lead := by
    cases statement with
    | importing => exact hword.current_eq
    | exporting => exact hword.current_eq
  exact Scan.Reaches.start.round hcur (round_of_attempt hattempt hresult)

end ScanM

end ModuleScan
