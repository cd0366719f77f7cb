/-
  ModuleScan/Proofs/Printing.lean
  ===============================
  **Printing and scanning recovers the references.**

  At the start of a statement the attempt at its first letter reads a printed
  sentence, and notes what it refers to (`Sentence.reaches`).  What is left of it,
  the layout and the separators are passed without a finding, and leave the cursor
  at the start of the next statement.  So a scan of printed sentences gives their
  references in order, and no diagnostic (`scanFindings_printLines`).
-/
import ModuleScan.Extraction
import ModuleScan.Proofs.Accepted

namespace ModuleScan

/-! ### Rounds over printed text -/

namespace ScanM

theorem call_misses {callee : Callee} {c : Cursor} (h : (c.eat callee.opening).1 = false) :
    (call callee).Misses c := by
  intro s hcur
  subst hcur
  simp only [Callee.opening] at h
  cases hb : s.cursor.followsCallBoundary with
  | true => exact ⟨(s.cursor.eat (callee.word ++ ['('])).2, Ends.eq_ok (by simp [call, hb, h])⟩
  | false => exact ⟨s.cursor.advance, Ends.eq_ok (by simp [call, hb])⟩

end ScanM

namespace Scan

variable {s : Scan} {text after : List Char}

/-- A scan that has come to the end of its source has found what there is to find. -/
theorem Reaches.scanFindings_eq {source : List Char} {t : Scan} (h : (ofSource source).Reaches t)
    (hend : t.cursor.current = none) : scanFindings source = t.findings.reverse := by
  rw [scanFindings, h.finish_eq (sited_ofSource source), finish_of_end _ hend]

/-- An attempt that reads its text makes a round, and its outcome is noted. -/
theorem reaches_of_reads (hs : s.Sited) {lead : Char} {attempt : ScanM Outcome}
    {outcome : Outcome} {finding : Finding} (hcur : s.cursor.current = some lead)
    (hattempt : ScanM.attempt? lead = some attempt)
    (h : attempt.Reads s.cursor text outcome after)
    (hfinding : outcome.finding? s.cursor.line = some finding) :
    s.Reaches { s with cursor := s.cursor.past text after, findings := finding :: s.findings } := by
  refine Reaches.start.round hcur (ScanM.Ends.eq_ok ?_)
  simp [ScanM.round, hattempt, ScanM.ends_of_eq (h.run s hs rfl), ScanM.noteOutcome, hfinding]

theorem reaches_past (hc : s.cursor.inString = false) (hr : s.cursor.rest = text ++ after)
    (hfree : commentFree text after = true) (hlead : ∀ ch ∈ text, ScanM.attempt? ch = none) :
    s.Reaches { s with cursor := s.cursor.past text after } := by
  induction text generalizing s with
  | nil =>
    obtain rfl : s.cursor.rest = after := hr
    exact .start
  | cons ch text ih =>
    have hcur : s.cursor.current = some ch := by simp [Cursor.current, hr]
    have hadvance := Cursor.advance_eq_past_cons hc hr hfree
    have hround : ScanM.round ch s =
        .ok ((), { s with cursor := s.cursor.past [ch] (text ++ after) }) :=
      ScanM.Ends.eq_ok (by simp [ScanM.round, hlead ch (by simp), hadvance])
    have hrest := ih (s := { s with cursor := s.cursor.past [ch] (text ++ after) }) hc rfl
      (Bool.and_eq_true_iff.mp hfree).2 fun d hd => hlead d (by simp [hd])
    simp only [Cursor.past_past, List.singleton_append] at hrest
    exact (Reaches.start.round hcur hround).trans hrest

theorem reaches_past_gap (hc : s.cursor.inString = false) (hr : s.cursor.rest = text ++ after)
    (hgap : ∀ ch ∈ text, isWhitespace ch = true) (hplain : opensComment after = false) :
    s.Reaches { s with cursor := s.cursor.past text after } :=
  reaches_past hc hr (commentFree_of_not_mem (not_mem_of_isWhitespace hgap (by decide)) hplain)
    fun ch hch => ScanM.attempt?_of_isWhitespace (hgap ch hch)

end Scan

/-! ### The start of a statement -/

/-- Any statement may begin at the cursor. -/
structure Cursor.AtStart (c : Cursor) : Prop where
  inString : c.inString = false
  statementStart : c.statementStart = true
  boundary : c.followsCallBoundary = true

namespace Cursor

theorem atStart_past_concat {c : Cursor} (hc : c.inString = false) (text after : List Char)
    {ch : Char} (hch : endsStatement ch = true) : (c.past (text ++ [ch]) after).AtStart := by
  refine ⟨hc, statementStart_past_of_endsStatement _ _ _ hch, ?_⟩
  simp only [endsStatement, Bool.or_eq_true] at hch
  rw [Place.followsCallBoundary, prev_past]
  rcases hch with hnewline | hsemi
  · simp [isWhitespace, hnewline]
  · simp [hsemi]

theorem AtStart.past_gap {c : Cursor} (h : c.AtStart) {gap : List Char}
    (hgap : ∀ ch ∈ gap, isWhitespace ch = true) (after : List Char) :
    (c.past gap after).AtStart := by
  induction gap generalizing c with
  | nil => exact ⟨h.inString, h.statementStart, h.boundary⟩
  | cons ch gap ih =>
    have hw : isWhitespace ch = true := hgap ch (by simp)
    have hstep : (c.past [ch] (gap ++ after)).AtStart := by
      refine ⟨h.inString, ?_, ?_⟩
      · have hclass : endsStatement ch = true ∨ isBlank ch = true := by
          simp only [isWhitespace, Bool.or_eq_true] at hw
          exact hw.imp (fun hnewline => by simp [endsStatement, hnewline]) id
        rcases hclass with hclass | hclass <;>
          simp [past, Place.passAll, Place.pass, hclass, h.statementStart]
      · simp [past, Place.passAll, Place.pass, Place.followsCallBoundary, hw]
    have hrest := ih hstep fun d hd => hgap d (by simp [hd])
    rwa [past_past] at hrest

end Cursor

/-! ### The rest of a statement about types -/

/-- Letters, blanks and asterisks, with which nothing begins or ends. -/
def Quiet (text : List Char) : Prop :=
  ∀ ch ∈ text, isIdentContinue ch = true ∨ isBlank ch = true ∨ ch = '*'

namespace Quiet

variable {text text' : List Char}

theorem append (h : Quiet text) (h' : Quiet text') : Quiet (text ++ text') :=
  List.forall_mem_append.mpr ⟨h, h'⟩

theorem of_ident (h : ∀ ch ∈ text, isIdentContinue ch = true) : Quiet text :=
  fun ch hch => Or.inl (h ch hch)

theorem of_blank (h : ∀ ch ∈ text, isBlank ch = true) : Quiet text :=
  fun ch hch => Or.inr (Or.inl (h ch hch))

theorem inert (h : Quiet text) : Inert text := by
  have hnot : ∀ ch, ch ∈ ['/', '(', '\r', '\n', '\u2028', '\u2029', ';'] → ch ∉ text := by
    intro ch hch hmem
    have hall : ∀ d ∈ ['/', '(', '\r', '\n', '\u2028', '\u2029', ';'],
        isIdentContinue d = false ∧ isBlank d = false ∧ d ≠ '*' :=
      forall_mem_of_all (by decide +kernel)
    obtain ⟨hident, hblank, hstar⟩ := hall ch hch
    rcases h ch hmem with h | h | h
    · rw [hident] at h
      cases h
    · rw [hblank] at h
      cases h
    · exact hstar h
  apply Inert.of_not_mem (hnot '/' (by simp)) (hnot '(' (by simp))
  intro ch hch
  rw [← Bool.not_eq_true]
  intro hend
  exact hnot ch (List.mem_append_right ['/', '('] (mem_of_endsStatement hend)) hch

end Quiet

theorem Literal.quote_mem (l : Literal) : l.quote ∈ ['{', '}', '\x27', '\x22', '\x60'] :=
  List.mem_append_right ['{', '}'] (mem_of_isQuote l.quoted)

theorem Literal.inert_append (l : Literal) (hl : Inert l.text) {text : List Char}
    (h : Inert text) : Inert (text ++ l.print) :=
  h.append_cons (hl.append_cons (Quiet.of_blank (by simp)).inert l.quote_mem) l.quote_mem

theorem TypeClause.inert (clause : TypeClause) (before : BlankBreak) (gap : Blanks) (l : Literal)
    (hl : Inert l.text) : Inert (before.text ++ (clause.print ++ printSource gap l)) := by
  have hbefore : Quiet before.text := .of_blank before.allowed
  -- what stands between a clause and the literal
  have hfrom : Quiet (['f', 'r', 'o', 'm'] ++ gap.text) :=
    (Quiet.of_ident (forall_mem_of_all (by decide))).append (.of_blank gap.allowed)
  cases clause with
  | name own after =>
    have hquiet := hbefore.append ((Quiet.of_ident own.ident).append
      ((Quiet.of_blank after.allowed).append hfrom))
    have hall := l.inert_append hl hquiet.inert
    simpa [print, printSource] using hall
  | braces names inert after =>
    have hquiet := (Quiet.of_blank after.allowed).append hfrom
    have hrest := l.inert_append hl hquiet.inert
    have hall := hbefore.inert.append_cons (inert.append_cons hrest (show '}' ∈ _ by simp))
      (show '{' ∈ _ by simp)
    simpa [print, printSource] using hall
  | all after =>
    have hstar : Quiet ['*'] := by simp [Quiet]
    have hquiet := hbefore.append (hstar.append ((Quiet.of_blank after.allowed).append hfrom))
    have hall := l.inert_append hl hquiet.inert
    simpa [print, printSource] using hall

/-! ### Sentences -/

theorem Ended.gap_append {gap after : List Char} (hgap : ∀ ch ∈ gap, isWhitespace ch = true)
    (h : Ended after) : Ended (gap ++ after) := by
  cases gap with
  | nil => exact h
  | cons d gap =>
    intro ch hch
    obtain rfl : d = ch := by simpa using hch
    exact Or.inl (hgap d (by simp))

structure Finding.Notes (finding : Finding) (reference? : Option String) : Prop where
  reference : finding.reference? = reference?
  undiagnosed : ∀ label, finding.diagnostic? label = none

namespace ImportClause

variable (clause : ImportClause)

theorem before_allowed : ∀ ch ∈ clause.before, isWhitespace ch = true := by
  cases clause with
  | name before => exact before.allowed
  | names before => exact before.allowed
  | both before => exact before.allowed

theorem exists_head : ∃ ch text, clause.print = ch :: text ∧
    (isIdentContinue ch = true ∨ ch ∈ ['{', '*']) := by
  cases clause with
  | name before own after =>
    obtain ⟨ch, text, htext⟩ := List.exists_cons_of_ne_nil own.ne_nil
    exact ⟨ch, text ++ after.text, by simp [print, htext], Or.inl (own.ident ch (by simp [htext]))⟩
  | names before bound =>
    obtain ⟨ch, text, hprint, hmem⟩ := bound.exists_head
    exact ⟨ch, text, hprint, Or.inr hmem⟩
  | both before own beforeComma afterComma bound =>
    obtain ⟨ch, text, htext⟩ := List.exists_cons_of_ne_nil own.ne_nil
    exact ⟨ch, _, by rw [print, htext, List.cons_append], Or.inl (own.ident ch (by simp [htext]))⟩

theorem solid (after : List Char) : Solid (clause.print ++ after) := by
  rcases clause.exists_head with ⟨ch, text, hprint, hch⟩
  rw [hprint]
  have hall : ∀ ch ∈ ['{', '*'], isWhitespace ch = false ∧ ch ≠ '/' :=
    forall_mem_of_all (by decide)
  rcases hch with hident | hmem
  · refine solid_cons (isWhitespace_of_isIdentContinue hident) ?_ _
    rintro rfl
    exact absurd hident (by decide)
  · exact solid_cons (hall ch hmem).1 (hall ch hmem).2 _

theorem isQuote_head {ch : Char} (hch : isIdentContinue ch = true ∨ ch ∈ ['{', '*']) :
    isQuote ch = false := by
  rw [← Bool.not_eq_true]
  intro hq
  rcases hch with hident | hmem
  · rw [isIdentContinue_of_isQuote hq] at hident
    cases hident
  · have hall : ∀ ch ∈ ['{', '*'], isQuote ch = false := forall_mem_of_all (by decide)
    rw [hall ch hmem] at hq
    cases hq

theorem wordEnds (after : List Char) : WordEnds (clause.before ++ (clause.print ++ after)) := by
  cases clause with
  | name before => exact wordEnds_gap_append before.allowed fun hnil => absurd hnil before.ne_nil
  | names before bound => exact wordEnds_gap_append before.allowed fun _ => bound.wordEnds after
  | both before => exact wordEnds_gap_append before.allowed fun hnil => absurd hnil before.ne_nil

end ImportClause

namespace ExportClause

variable (clause : ExportClause)

theorem solid (after : List Char) : Solid (clause.print ++ after) := by
  cases clause with
  | names bound => exact bound.solid after
  | all afterStar => exact solid_cons (by decide) (by decide) _

theorem wordEnds (after : List Char) : WordEnds (clause.print ++ after) := by
  cases clause with
  | names bound => exact bound.wordEnds after
  | all afterStar =>
    intro ch hch
    obtain rfl : '*' = ch := Option.some.inj hch
    decide

end ExportClause

namespace Sentence

open ScanM

variable {c : Cursor} {after : List Char}

/-- After the word `import` no call is matched where none opens, and the static import is read. -/
theorem reads_importing (hc : c.AtStart) {gap rest text : List Char} {outcome : Outcome}
    (hr : c.rest = Statement.importing.letters ++ (gap ++ rest))
    (hgap : ∀ ch ∈ gap, isWhitespace ch = true) (hsolid : Solid rest)
    (hend : WordEnds (gap ++ rest))
    (h : (if rest.head?.any isQuote then specifier .importing else importClause).Reads
      (c.past (Statement.importing.letters ++ gap) rest) text outcome after) :
    (firstOf (call .dynamicImport) staticImport).Reads c
      (Statement.importing.letters ++ (gap ++ text)) outcome after := by
  have hplain := plain_append hgap hsolid.plain
  have hne : (gap ++ rest).head? ≠ some '(' := fun hhead => (hend _ hhead).2.2 rfl
  have heat : c.eat Callee.dynamicImport.opening =
      (false, c.past Statement.importing.letters (gap ++ rest)) :=
    Cursor.eat_eq_false_past hc.inString hr (commentFree_letters .importing hplain) hne
  exact Reads.firstOf_second (call_misses (congrArg Prod.fst heat))
    (reads_staticImport hc.inString hc.statementStart hr hgap hsolid hend h)

theorem bare_reads (before : Gap) (l : Literal) (hc : c.AtStart)
    (hr : c.rest = (bare before l).print ++ after) (hplain : opensComment after = false) :
    (firstOf (call .dynamicImport) staticImport).Reads c (bare before l).print
      (.reference l.reference) after := by
  have hr' : c.rest = Statement.importing.letters ++ (before.text ++ (l.print ++ after)) := by
    simpa [print] using hr
  refine reads_importing hc hr' before.allowed (solid_literal l after)
    (wordEnds_gap_append before.allowed fun _ => l.wordEnds after) (Reads.if_true ?_ ?_)
  · simp [Literal.print, l.quoted]
  · exact reads_specifier .importing l hc.inString rfl hplain

theorem imports_reads (clause : ImportClause) (gap : Gap) (l : Literal) (hc : c.AtStart)
    (hr : c.rest = (imports clause gap l).print ++ after) (hplain : opensComment after = false) :
    (firstOf (call .dynamicImport) staticImport).Reads c (imports clause gap l).print
      (.reference l.reference) after := by
  have hr' : c.rest = Statement.importing.letters ++
      (clause.before ++ (clause.print ++ (printSource gap l ++ after))) := by
    simpa [print] using hr
  have hquote : (clause.print ++ (printSource gap l ++ after)).head?.any isQuote = false := by
    rcases clause.exists_head with ⟨ch, text, hprint, hch⟩
    simp [hprint, ImportClause.isQuote_head hch]
  have hprev : (c.past (Statement.importing.letters ++ clause.before)
      (clause.print ++ (printSource gap l ++ after))).prev ≠ some '$' := by
    refine Cursor.prev_past_of_not_mem _ _ _ (by simp [Statement.letters]) ?_
    rw [List.mem_append, not_or]
    exact ⟨by decide, not_mem_of_isWhitespace clause.before_allowed (by decide)⟩
  exact reads_importing hc hr' clause.before_allowed (clause.solid _) (clause.wordEnds _)
    (Reads.if_false hquote (reads_importClause clause gap l hc.inString hprev rfl hplain))

theorem exports_reads (before : Gap) (clause : ExportClause) (gap : Gap) (l : Literal)
    (hc : c.AtStart) (hr : c.rest = (exports before clause gap l).print ++ after)
    (hplain : opensComment after = false) :
    exportFrom.Reads c (exports before clause gap l).print (.reference l.reference) after := by
  have hr' : c.rest = Statement.exporting.letters ++
      (before.text ++ (clause.print ++ (printSource gap l ++ after))) := by
    simpa [print] using hr
  exact reads_exportFrom hc.inString hc.statementStart hr' before.allowed (clause.solid _)
    (wordEnds_gap_append before.allowed fun _ => clause.wordEnds _)
    (reads_exportClause clause gap l hc.inString rfl hplain)

theorem calls_reads (callee : Callee) (before afterLiteral : Gap) (l : Literal) (hc : c.AtStart)
    (hr : c.rest = (calls callee before l afterLiteral).print ++ after) :
    ∃ lead attempt, c.current = some lead ∧ attempt? lead = some attempt ∧
      attempt.Reads c (callee.opening ++ (before.text ++ (l.print ++ afterLiteral.text)))
        (.reference l.reference) ([')'] ++ after) := by
  have hr' : c.rest = callee.opening ++ (before.text ++
      (l.print ++ (afterLiteral.text ++ ([')'] ++ after)))) := by
    simpa [print] using hr
  have hreads := reads_call callee before afterLiteral l hc.inString hc.boundary hr'
  cases callee with
  | dynamicImport =>
    exact ⟨'i', _, by simp [Cursor.current, hr', Callee.opening, Callee.word], rfl,
      hreads.firstOf (by simp)⟩
  | require =>
    -- the longer callee is tried first, and fails at the parenthesis
    have hplain := plain_append before.allowed
      (solid_literal l (afterLiteral.text ++ ([')'] ++ after))).plain
    have hword : c.rest = Callee.require.word ++ (['('] ++
        (before.text ++ (l.print ++ (afterLiteral.text ++ ([')'] ++ after))))) := by
      simpa [Callee.opening] using hr'
    have heat : c.eat (Callee.require.word ++ '.' :: ['r', 'e', 's', 'o', 'l', 'v', 'e', '(']) =
        (false, _) :=
      Cursor.eat_eq_false_past hc.inString hword (commentFree_of_not_mem (by decide) rfl) (by simp)
    have hmisses : (call .requireResolve).Misses c := call_misses (congrArg Prod.fst heat)
    exact ⟨'r', _, by simp [Cursor.current, hr', Callee.opening, Callee.word], rfl,
      hreads.firstOf_second hmisses⟩
  | requireResolve =>
    exact ⟨'r', _, by simp [Cursor.current, hr', Callee.opening, Callee.word], rfl,
      hreads.firstOf (by simp)⟩

/-- Of a statement about types the attempt reads no more than the word `type`. -/
theorem types_reads (statement : Statement) (before : Break) (afterType : BlankBreak)
    {rest : List Char} (hc : c.AtStart)
    (hr : c.rest = statement.letters ++ (before.text ++ (['t', 'y', 'p', 'e'] ++
      (afterType.text ++ rest)))) (hplain : opensComment (afterType.text ++ rest) = false) :
    ∃ lead attempt, c.current = some lead ∧ attempt? lead = some attempt ∧
      attempt.Reads c (statement.letters ++ (before.text ++ ['t', 'y', 'p', 'e'])) .typeOnly
        (afterType.text ++ rest) := by
  obtain ⟨ch, text, htext⟩ := List.exists_cons_of_ne_nil afterType.ne_nil
  have hcur : (afterType.text ++ rest).head? = some ch := by simp [htext]
  have hw : isWhitespace ch = true :=
    isWhitespace_of_isBlank (afterType.allowed ch (by simp [htext]))
  have hsolid : Solid (['t', 'y', 'p', 'e'] ++ (afterType.text ++ rest)) :=
    solid_cons (by decide) (by decide) _
  have hends : WordEnds (before.text ++ (['t', 'y', 'p', 'e'] ++ (afterType.text ++ rest))) :=
    wordEnds_gap_append before.allowed fun hnil => absurd hnil before.ne_nil
  cases statement with
  | importing =>
    refine ⟨'i', _, by simp [Cursor.current, hr, Statement.letters], rfl, ?_⟩
    exact reads_importing hc hr before.allowed hsolid hends
      (Reads.if_false rfl (reads_importClause_typeWord (by simp [typeWords]) hc.inString rfl hplain
        (by rw [hcur, Option.any_some, hw])))
  | exporting =>
    refine ⟨'e', _, by simp [Cursor.current, hr, Statement.letters], rfl, ?_⟩
    exact reads_exportFrom hc.inString hc.statementStart hr before.allowed hsolid hends
      (reads_exportClause_types hc.inString rfl hplain hcur hw)

/-! ### Rounds over sentences -/

variable {s : Scan}

theorem reaches_of_reference (hs : s.Sited) {x : Sentence} {lead : Char} {attempt : ScanM Outcome}
    {l : Literal} {text : List Char} (hcur : s.cursor.current = some lead)
    (hattempt : attempt? lead = some attempt) (hx : x.reference? = some l.reference)
    (h : attempt.Reads s.cursor text (.reference l.reference) after) :
    ∃ finding : Finding, finding.Notes x.reference? ∧
      s.Reaches { s with cursor := s.cursor.past text after, findings := finding :: s.findings } :=
  ⟨.reference l.reference s.cursor.line, ⟨hx.symm, fun _ => rfl⟩,
    Scan.reaches_of_reads hs hcur hattempt h rfl⟩

/-- Rounds pass a sentence that stands at the start of a statement, and note what it
    refers to. -/
theorem reaches (x : Sentence) (hs : s.Sited) (hc : s.cursor.AtStart)
    (hr : s.cursor.rest = x.print ++ after) (hafter : Ended after) :
    ∃ finding : Finding, finding.Notes x.reference? ∧
      s.Reaches
        { s with cursor := s.cursor.past x.print after, findings := finding :: s.findings } := by
  have hplain := hafter.opensComment
  cases x with
  | bare before l =>
    have hcur : s.cursor.current = some 'i' := by
      simp [Cursor.current, hr, print, Statement.letters]
    exact reaches_of_reference hs hcur rfl rfl (bare_reads before l hc hr hplain)
  | imports clause gap l =>
    have hcur : s.cursor.current = some 'i' := by
      simp [Cursor.current, hr, print, Statement.letters]
    exact reaches_of_reference hs hcur rfl rfl (imports_reads clause gap l hc hr hplain)
  | exports before clause gap l =>
    have hcur : s.cursor.current = some 'e' := by
      simp [Cursor.current, hr, print, Statement.letters]
    exact reaches_of_reference hs hcur rfl rfl (exports_reads before clause gap l hc hr hplain)
  | calls callee before l afterLiteral =>
    obtain ⟨lead, attempt, hcur, hattempt, hreads⟩ :=
      calls_reads callee before afterLiteral l hc hr
    obtain ⟨finding, hnotes, hreach⟩ := reaches_of_reference
      (x := calls callee before l afterLiteral) hs hcur hattempt rfl hreads
    refine ⟨finding, hnotes, hreach.trans ?_⟩
    -- the closing parenthesis is stepped over
    have hclose := Scan.reaches_past (s := { s with
        cursor := s.cursor.past (callee.opening ++ (before.text ++ (l.print ++ afterLiteral.text)))
          ([')'] ++ after)
        findings := finding :: s.findings }) hc.inString rfl
      (commentFree_of_not_mem (show '/' ∉ [')'] by decide) hplain) (forall_mem_of_all (by decide))
    rw [Cursor.past_past] at hclose
    simpa [print] using hclose
  | types statement before afterType clause gap l inert =>
    have htail := clause.inert afterType gap l inert
    have hfree := opensComment_of_commentFree (htail.commentFree hafter)
    rw [List.append_assoc] at hfree
    have hr' : s.cursor.rest = statement.letters ++ (before.text ++ (['t', 'y', 'p', 'e'] ++
        (afterType.text ++ (clause.print ++ printSource gap l ++ after)))) := by
      simpa [print] using hr
    obtain ⟨lead, attempt, hcur, hattempt, hreads⟩ :=
      types_reads statement before afterType hc hr' hfree
    refine ⟨.typeOnly s.cursor.line, ⟨rfl, fun _ => rfl⟩,
      (Scan.reaches_of_reads hs hcur hattempt hreads rfl).trans ?_⟩
    -- the rest of the statement is read as plain text
    have hlast : statement.letters ++ (before.text ++ ['t', 'y', 'p', 'e']) =
        (statement.letters ++ (before.text ++ ['t', 'y', 'p'])) ++ ['e'] := by simp
    have hstart : (s.cursor.past (statement.letters ++ (before.text ++ ['t', 'y', 'p', 'e']))
        (afterType.text ++ (clause.print ++ printSource gap l ++ after))).statementStart =
        false := by
      rw [hlast]
      exact Cursor.statementStart_past_eq_false _ _ _ (by decide) (by decide)
    have hrest := Scan.reaches_past_inert (s := { s with
        cursor := s.cursor.past (statement.letters ++ (before.text ++ ['t', 'y', 'p', 'e']))
          (afterType.text ++ (clause.print ++ printSource gap l ++ after))
        findings := .typeOnly s.cursor.line :: s.findings }) hc.inString hstart
      (List.append_assoc _ _ _).symm htail hafter
    rw [Cursor.past_past_of_eq _ _ _ _ (List.append_assoc _ _ _).symm] at hrest
    simpa [print] using hrest

end Sentence

/-! ### Lines -/

theorem Sentence.plain (x : Sentence) (after : List Char) :
    opensComment (x.print ++ after) = false := by
  cases x with
  | bare => exact opensComment_of_ne_slash (by decide) _
  | imports => exact opensComment_of_ne_slash (by decide) _
  | exports => exact opensComment_of_ne_slash (by decide) _
  | calls callee => cases callee <;> exact opensComment_of_ne_slash (by decide) _
  | types statement => cases statement <;> exact opensComment_of_ne_slash (by decide) _

theorem mentionsKeyword_of_begins {keyword source : List Char} (hk : keyword ∈ keywords)
    (h : keyword <+: source) : mentionsKeyword source = true := by
  rw [mentionsKeyword, List.any_eq_true]
  exact ⟨keyword, hk, occursIn_iff.mpr h.isInfix⟩

theorem Statement.letters_mem_keywords (statement : Statement) :
    statement.letters ∈ keywords := by
  cases statement <;> simp [letters, keywords]

theorem Sentence.mentionsKeyword_print (x : Sentence) : mentionsKeyword x.print = true := by
  have hopening : ∀ callee : Callee, ∃ keyword ∈ keywords, keyword <+: callee.opening := by
    intro callee
    cases callee with
    | dynamicImport => exact ⟨['i', 'm', 'p', 'o', 'r', 't'], by simp [keywords], by decide⟩
    | require => exact ⟨['r', 'e', 'q', 'u', 'i', 'r', 'e'], by simp [keywords], by decide⟩
    | requireResolve => exact ⟨['r', 'e', 'q', 'u', 'i', 'r', 'e'], by simp [keywords], by decide⟩
  cases x with
  | bare =>
    exact mentionsKeyword_of_begins (Statement.letters_mem_keywords _) (List.prefix_append _ _)
  | imports =>
    exact mentionsKeyword_of_begins (Statement.letters_mem_keywords _) (List.prefix_append _ _)
  | exports =>
    exact mentionsKeyword_of_begins (Statement.letters_mem_keywords _) (List.prefix_append _ _)
  | calls callee =>
    obtain ⟨keyword, hmem, hbegin⟩ := hopening callee
    exact mentionsKeyword_of_begins hmem (hbegin.trans (List.prefix_append _ _))
  | types statement =>
    exact mentionsKeyword_of_begins statement.letters_mem_keywords (List.prefix_append _ _)

/-- A scan begins at the start of a statement, if no comment opens its source. -/
theorem Cursor.atStart_ofSource {source : List Char} (hplain : opensComment source = false) :
    (ofSource source).AtStart ∧ (ofSource source).rest = source := by
  rw [ofSource_eq hplain]
  exact ⟨⟨rfl, rfl, rfl⟩, rfl⟩

/-- A source that is one sentence gives what the sentence refers to. -/
theorem Sentence.extract_print (x : Sentence) (label : String) :
    extract (String.ofList x.print) label = ⟨x.reference?.toList, []⟩ := by
  have hs := Scan.sited_ofSource x.print
  have hplain := x.plain []
  rw [List.append_nil] at hplain
  obtain ⟨hstart, hrest⟩ := Cursor.atStart_ofSource hplain
  have hprint : (Scan.ofSource x.print).cursor.rest = x.print ++ [] :=
    hrest.trans (List.append_nil _).symm
  obtain ⟨finding, hnotes, hreach⟩ := x.reaches hs hstart hprint (by simp [Ended])
  have hfound : scanFindings x.print = [finding] := hreach.scanFindings_eq rfl
  rw [extract, Extraction.ofFindings, findings, String.toList_ofList,
    if_pos x.mentionsKeyword_print, hfound]
  cases hreference : x.reference? <;>
    simp [hnotes.reference, hnotes.undiagnosed, hreference]

theorem Line.reaches (line : Line) {s : Scan} {after : List Char} (hs : s.Sited)
    (hc : s.cursor.AtStart) (hr : s.cursor.rest = line.print ++ after) (hafter : Ended after) :
    ∃ finding : Finding, finding.Notes line.sentence.reference? ∧
      s.Reaches
        { s with cursor := s.cursor.past line.print after, findings := finding :: s.findings } := by
  have hr' : s.cursor.rest =
      line.before.text ++ (line.sentence.print ++ (line.after.text ++ after)) := by
    simpa [print] using hr
  have hbefore := Scan.reaches_past_gap hc.inString hr' line.before.allowed (line.sentence.plain _)
  obtain ⟨finding, hnotes, hsentence⟩ := line.sentence.reaches (hbefore.sited hs)
    (hc.past_gap line.before.allowed _) rfl (hafter.gap_append line.after.allowed)
  rw [Cursor.past_past] at hsentence
  have hlast := Scan.reaches_past_gap (s := { s with
      cursor := s.cursor.past (line.before.text ++ line.sentence.print) (line.after.text ++ after)
      findings := finding :: s.findings }) hc.inString rfl line.after.allowed hafter.opensComment
  rw [Cursor.past_past, List.append_assoc] at hlast
  exact ⟨finding, hnotes, (hbefore.trans hsentence).trans hlast⟩

namespace Separator

variable (separator : Separator) (after : List Char)

theorem ended : Ended (separator.print ++ after) := by
  intro ch hch
  cases separator <;>
  · obtain rfl := Option.some.inj hch
    decide

theorem exists_concat : ∃ init ch, separator.print = init ++ [ch] ∧ endsStatement ch = true := by
  cases separator with
  | newline => exact ⟨[], '\n', rfl, by decide⟩
  | returnNewline => exact ⟨['\r'], '\n', rfl, by decide⟩
  | semicolon => exact ⟨[], ';', rfl, by decide⟩
  | semicolonNewline => exact ⟨[';'], '\n', rfl, by decide⟩

theorem reaches {s : Scan} {after : List Char} (hc : s.cursor.inString = false)
    (hr : s.cursor.rest = separator.print ++ after) (hplain : opensComment after = false) :
    s.Reaches { s with cursor := s.cursor.past separator.print after } ∧
      (s.cursor.past separator.print after).AtStart := by
  rcases separator.exists_concat with ⟨init, ch, hprint, hch⟩
  refine ⟨Scan.reaches_past hc hr (commentFree_of_not_mem ?_ hplain) ?_, ?_⟩
  · cases separator <;> decide
  · cases separator <;> exact forall_mem_of_all (by decide)
  · rw [hprint]
    exact Cursor.atStart_past_concat hc init after hch

end Separator

/-! ### Texts -/

theorem plain_printLines (lines : List (Line × Separator)) :
    opensComment (printLines lines) = false := by
  fun_cases printLines lines with
  | case1 => rfl
  | case2 line =>
    have hplain := plain_append line.before.allowed (line.sentence.plain line.after.text)
    exact hplain
  | case3 line separator next rest =>
    have hplain := plain_append line.before.allowed
      (line.sentence.plain (line.after.text ++ (separator.print ++ printLines (next :: rest))))
    simpa [Line.print] using hplain

/-- Rounds pass printed lines to the end, and note what their sentences refer to. -/
theorem Scan.reaches_printLines (lines : List (Line × Separator)) {s : Scan} (hs : s.Sited)
    (hc : s.cursor.AtStart) (hr : s.cursor.rest = printLines lines) :
    ∃ found c, s.Reaches { s with cursor := c, findings := found ++ s.findings } ∧
      c.current = none ∧
      found.reverse.filterMap Finding.reference? =
        lines.filterMap (fun x => x.1.sentence.reference?) ∧
      ∀ label, found.reverse.filterMap (Finding.diagnostic? label) = [] := by
  fun_induction printLines lines generalizing s with
  | case1 => exact ⟨[], s.cursor, .start, by simp [Cursor.current, hr], rfl, fun _ => rfl⟩
  | case2 line =>
    have hr' : s.cursor.rest = line.print ++ [] := by rw [List.append_nil, hr]
    obtain ⟨finding, hnotes, hreach⟩ := line.reaches hs hc hr' (by simp [Ended])
    refine ⟨[finding], _, hreach, rfl, ?_, ?_⟩
    · simp only [List.reverse_singleton, List.filterMap_cons, hnotes.reference, List.filterMap_nil]
    · intro label
      simp only [List.reverse_singleton, List.filterMap_cons, hnotes.undiagnosed,
        List.filterMap_nil]
  | case3 line separator next rest ih =>
    obtain ⟨finding, hnotes, hline⟩ := line.reaches hs hc hr (separator.ended _)
    obtain ⟨hseparator, hstart⟩ := separator.reaches (s := { s with
        cursor := s.cursor.past line.print (separator.print ++ printLines (next :: rest))
        findings := finding :: s.findings }) hc.inString rfl (plain_printLines _)
    have hreach := hline.trans hseparator
    obtain ⟨found, c, hrest, hcur, hrefs, hdiags⟩ := ih (hreach.sited hs) hstart rfl
    refine ⟨found ++ [finding], c, ?_, hcur, ?_, ?_⟩
    · simpa using hreach.trans hrest
    · simp only [List.reverse_append, List.reverse_singleton, List.singleton_append,
        List.filterMap_cons, hnotes.reference, hrefs]
    · intro label
      simp only [List.reverse_append, List.reverse_singleton, List.singleton_append,
        List.filterMap_cons, hnotes.undiagnosed, hdiags]

/-- **Printing and scanning recovers the references.**  A scan of printed lines finds
    what their sentences refer to, in order, and reports nothing. -/
theorem scanFindings_printLines (lines : List (Line × Separator)) (label : String) :
    Extraction.ofFindings label (scanFindings (printLines lines)) =
      ⟨lines.filterMap (fun x => x.1.sentence.reference?), []⟩ := by
  have hs := Scan.sited_ofSource (printLines lines)
  have hcursor := Cursor.ofSource_eq (plain_printLines lines)
  have hstart : (Scan.ofSource (printLines lines)).cursor.AtStart := by
    change (Cursor.ofSource (printLines lines)).AtStart
    rw [hcursor]
    exact ⟨rfl, rfl, rfl⟩
  have hrest : (Scan.ofSource (printLines lines)).cursor.rest = printLines lines := by
    change (Cursor.ofSource (printLines lines)).rest = _
    rw [hcursor]
  obtain ⟨found, c, hreach, hcur, hrefs, hdiags⟩ := Scan.reaches_printLines lines hs hstart hrest
  have hfound : scanFindings (printLines lines) = found.reverse := by
    rw [scanFindings, hreach.finish_eq hs, Scan.finish_of_end _ hcur]
    simp [Scan.ofSource]
  rw [hfound, Extraction.ofFindings, hrefs, hdiags]

example :
    Extraction.ofFindings "x.ts" (scanFindings "import type T from 't';\nimport 'm'".toList) =
      ⟨["m"], []⟩ := by decide +kernel

end ModuleScan
