/-
  ModuleScan/Proofs/SkippedNames.lean
  ===================================
  **A clause skips its names and comes to the literal.**

  Names in braces are skipped up to the first closing brace that no comment hides, and a
  name behind `* as` up to whitespace; then `from` and the literal follow
  (`ends_clause_of_braces`, `ends_clause_of_star`).  So a source that is one statement
  with such a clause gives the module of its literal and nothing else, whatever the
  names are (`scanFindings_of_clause`).
-/
import ModuleScan.Proofs.Clauses
import ModuleScan.Proofs.ImportVerdict
import ModuleScan.Proofs.ReexportGrammar
import ModuleScan.Proofs.TypeWords

namespace ModuleScan

/-! ### Names in braces -/

section

variable {c e f q : Cursor} {ofType names gap : List Char}

theorem Bindings.read_of_braces (h : c.Undollared)
    (hwalks : c.Walks ('{' :: (names ++ '}' :: gap)) q) (hnone : '}' ∉ names) (hgap : IsGap gap)
    (hvisible : q.current.any isWhitespace = false) (hcomma : q.current ≠ some ',') :
    Bindings.read c = (.complete, q) := by
  have hbrace := hwalks.current_eq
  rw [← List.cons_append] at hwalks
  obtain ⟨e, hnames, hrest⟩ := hwalks.exists_split
  have hskip : c.skipUntil '}' = e :=
    hnames.skipUntil_eq (by simpa using hnone) hrest.current_eq
  have hafter := hrest.of_cons.skipWhitespace_eq hgap hvisible
  apply Bindings.read_eq_last
  simp only [Clause.read_of_brace hbrace h, hskip, hrest.current_eq, Option.isNone_some,
    Bool.false_eq_true, if_false, Clause.afterNames, hafter, beq_eq_false_iff_ne.mpr hcomma]

namespace ScanM

variable {s : Scan} {post : Bool → Scan → Prop}

/-- The letters of `type` are passed, and before a brace they say nothing. -/
theorem ends_importsTypes_of_brace (hbegins : ofType <+: ['t', 'y', 'p', 'e'])
    (htype : s.cursor.Walks ofType e) (hbrace : e.current = some '{') :
    importsTypes.Ends s post ↔ post false { s with cursor := e } := by
  have hletters : ∀ ch ∈ ['t', 'y', 'p', 'e'], e.current ≠ some ch := by
    rw [hbrace]
    simp
  have heat : (s.cursor.eat ['t', 'y', 'p', 'e']).2 = e := htype.eat_snd hbegins hletters
  have hof : e.eat ['o', 'f'] = (false, e) :=
    Cursor.eat_of_current_ne (by rw [hbrace]; decide) _
  have hblank : isWhitespace '{' = false := by decide
  simp only [importsTypes, ends_bind, ends_eat, heat]
  split
  · simp only [ends_bind, ends_eat, hof, ends_look, ends_pure, hbrace, Option.any_some, hblank]
  · exact ends_pure

theorem ends_importBindings_of_complete (h : Bindings.read s.cursor = (.complete, q)) :
    importBindings.Ends s post ↔ post true { s with cursor := q } := by
  simp only [importBindings, ends_bind, ends_speculate, ends_read, Scan.trial, h, ends_pure,
    Scan.commit]
  exact Iff.rfl

end ScanM

end

/-! ### Clauses -/

namespace ScanM

variable {s : Scan} {q : Cursor} {ofType names gap gap' : List Char}
  {post : Outcome → Scan → Prop}

/-- The names of a clause in braces are skipped, whichever statement it belongs to. -/
theorem ends_clause_of_braces (statement : Statement) (h : s.cursor.Undollared)
    (hbegins : ofType <+: ['t', 'y', 'p', 'e']) (hnone : '}' ∉ names) (hgap : IsGap gap)
    (hgap' : IsGap gap') (hvisible : q.current.any isWhitespace = false)
    (hwalks : s.cursor.Walks
      (ofType ++ ('{' :: (names ++ '}' :: gap) ++ (['f', 'r', 'o', 'm'] ++ gap'))) q) :
    (clause statement).Ends s post ↔ (specifier statement).Ends { s with cursor := q } post := by
  obtain ⟨e, htype, hrest⟩ := hwalks.exists_split
  obtain ⟨f, hnames, hsource⟩ := hrest.exists_split
  have hbrace : e.current = some '{' := hnames.current_eq
  have hfrom : f.current = some 'f' := hsource.current_eq
  have hletter : f.current.any isWhitespace = false := by
    rw [hfrom]
    rfl
  cases statement with
  | importing =>
    have hletters : ∀ ch ∈ ['t', 'y', 'p', 'e'], e.current ≠ some ch := by
      rw [hbrace]
      simp
    have he : e.Undollared := by
      rw [← htype.eat_snd hbegins hletters]
      exact h.eat (by decide)
    have hread : Bindings.read e = (.complete, f) :=
      Bindings.read_of_braces he hnames hnone hgap hletter (by rw [hfrom]; decide)
    obtain ⟨d, hword, hskip⟩ := hsource.exists_split
    simp only [clause, importClause, ends_bind, ends_importsTypes_of_brace hbegins htype hbrace,
      Bool.false_eq_true, if_false]
    rw [ends_importBindings_of_complete (s := { s with cursor := e }) hread]
    simp only [if_true, ends_bind, ends_eat, Cursor.eat_eq_true_iff.mpr hword, ends_move,
      hskip.skipWhitespace_eq hgap' hvisible]
  | exporting =>
    rw [clause, ends_exportClause_of_current hbegins htype hbrace (Or.inl ⟨rfl, rfl⟩),
      ends_exportBraces_of_walks hnames hnone hgap hletter,
      ends_exportSource_of_walks hsource hgap' hvisible]

/-- The name for all that a module exports is skipped. -/
theorem ends_clause_of_star {name : List Char} (hgap : IsGap gap) (hname : IsSpacedName name)
    (hgap' : IsGap gap') (hvisible : q.current.any isWhitespace = false)
    (hwalks : s.cursor.Walks
      ('*' :: (gap ++ ['a', 's'] ++ name) ++ (['f', 'r', 'o', 'm'] ++ gap')) q) :
    (clause .exporting).Ends s post ↔ (specifier .exporting).Ends { s with cursor := q } post := by
  obtain ⟨f, hnames, hsource⟩ := hwalks.exists_split
  have hletter : f.current.any isWhitespace = false := by
    rw [hsource.current_eq]
    rfl
  rw [clause, ends_exportClause_of_current List.nil_prefix .stay hnames.current_eq
      (Or.inr ⟨rfl, rfl⟩), ends_exportStar_of_named hnames hgap hname hletter,
    ends_exportSource_of_walks hsource hgap' hvisible]

end ScanM

/-! ### Sources -/

/-- A source that is one statement, of which the clause comes to a literal at its end,
    gives the module of that literal and nothing else. -/
theorem scanFindings_of_clause {source text : List Char} {statement : Statement} {ch : Char}
    {q : Cursor} {l : Literal} (hbegins : statement.letters <+: source)
    (hwalks : (Cursor.ofSource source).Walks (statement.letters ++ [' '] ++ ch :: text) q)
    (hsolid : isWhitespace ch = false ∧ isQuote ch = false)
    (hclause : ∀ s post, s.cursor.Undollared → s.cursor.Walks (ch :: text) q →
      ((ScanM.clause statement).Ends s post ↔
        (ScanM.specifier statement).Ends { s with cursor := q } post))
    (hrest : q.rest = l.print) :
    scanFindings source = [.reference l.reference 1] := by
  obtain ⟨hstart, -, -, hline⟩ := Cursor.ofSource_of_begins hbegins
  have hsited : ({ Scan.ofSource source with cursor := q } : Scan).Sited :=
    (Scan.sited_ofSource source).of_leads hwalks.leads
  have hreads := ScanM.reads_specifier statement l hwalks.leads.inString
    (hrest.trans (List.append_nil _).symm) rfl
  obtain ⟨d, hword, htext⟩ := hwalks.exists_split
  have hfront : (Cursor.ofSource source).BeginsClause statement d := by
    refine ⟨hstart.statementStart, ⟨[' '], hword, isGap_blank, by simp⟩, ?_, ?_⟩
    · rw [htext.current_eq]
      exact hsolid.1
    · rw [htext.current_eq]
      exact hsolid.2
  have hrun : ScanM.clause statement { Scan.ofSource source with cursor := d } =
      .ok (.reference l.reference,
        { Scan.ofSource source with cursor := q.past l.print [] }) := by
    apply ScanM.Ends.eq_ok
    rw [hclause _ _ hfront.undollared htext, ScanM.ends_of_eq (hreads.run _ hsited rfl)]
    exact ⟨rfl, rfl⟩
  have hreach := ScanM.reaches_of_clause (s := Scan.ofSource source) hfront hrun
  rw [hreach.scanFindings_eq rfl, ← hline]
  rfl

end ModuleScan
