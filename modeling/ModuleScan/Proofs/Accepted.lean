/-
  ModuleScan/Proofs/Accepted.lean
  ===============================
  **Every sentence is read as what it is.**

  Piece by piece: a literal is accepted with its text, the bound names are skipped
  up to `from`, and each of the attempts reads the sentences of its shape.  A name
  that begins like the word `type` is read in two parts, of which the first may
  well be the whole name (`importsTypes_reads`).
-/
import Mathlib.Data.List.Infix
import ModuleScan.Proofs.BoundNames

namespace ModuleScan

namespace ScanM

variable {α : Type} {c : Cursor} {text after : List Char}

theorem Reads.if_true {m m' : ScanM α} {p : Bool} {a : α} (hp : p = true)
    (h : m.Reads c text a after) : (if p then m else m').Reads c text a after := by
  rwa [if_pos hp]

theorem Reads.if_false {m m' : ScanM α} {p : Bool} {a : α} (hp : p = false)
    (h : m'.Reads c text a after) : (if p then m else m').Reads c text a after := by
  rwa [if_neg (by simp [hp])]

/-! ### Literals -/

theorem literal_current (l : Literal) (hr : c.rest = l.print ++ after) :
    c.current = some l.quote := by
  simp [Cursor.current, hr, Literal.print]

theorem solid_literal (l : Literal) (after : List Char) : Solid (l.print ++ after) := by
  refine solid_cons (isWhitespace_of_isQuote l.quoted) ?_ _
  intro hslash
  have hquoted := l.quoted
  rw [hslash] at hquoted
  exact absurd hquoted (by decide)

theorem reads_literal (l : Literal) (hc : c.inString = false) (hr : c.rest = l.print ++ after)
    (hplain : opensComment after = false) :
    literal.Reads c l.print (some l.reference) after := by
  refine ⟨hr, ?_⟩
  rintro s hs rfl
  apply Ends.eq_ok
  have hr' : s.cursor.rest = l.quote :: (l.text ++ l.quote :: after) := by
    simpa [Literal.print] using hr
  have hstops : LiteralStops l.quote (escapedAfter false l.text) (l.quote :: after) := by
    intro ch hch
    obtain rfl : l.quote = ch := by simpa using hch
    simp [goesOn, l.closes]
  have htext : s.cursor.literalText l.quote = .ok l.reference := by
    rw [Cursor.literalText_of_stays hr' l.quoted l.stays hstops]
    simp [Literal.reference]
  have hend : ((s.cursor.endOfLiteral l.quote).setInString false).advance =
      s.cursor.past l.print after := by
    rw [Cursor.endOfLiteral_eq_past hr' l.quoted l.stays hstops, Cursor.setInString_past]
    have hout : (s.cursor.setInString true).setInString false = s.cursor := by
      rw [← hc]
      rfl
    rw [hout]
    exact Cursor.past_advance hc hplain
  rw [ends_literal hs (literal_current l hr) l.quoted, htext, hend]
  exact ⟨rfl, rfl⟩

theorem reads_specifier (statement : Statement) (l : Literal) (hc : c.inString = false)
    (hr : c.rest = l.print ++ after) (hplain : opensComment after = false) :
    (specifier statement).Reads c l.print (.reference l.reference) after := by
  have hquote : c.current.any isQuote = true := by simp [literal_current l hr, l.quoted]
  exact Reads.onQuote <| Reads.if_true hquote <| (reads_literal l hc hr hplain).then_pure rfl

theorem reads_source (statement : Statement) {otherwise : ScanM Outcome} (gap : Gap) (l : Literal)
    (hc : c.inString = false) (hr : c.rest = printSource gap l ++ after)
    (hplain : opensComment after = false) :
    (do
      let hasFrom ← eat ['f', 'r', 'o', 'm']
      if hasFrom then
        move Cursor.skipWhitespace
        specifier statement
      else otherwise : ScanM Outcome).Reads c (printSource gap l) (.reference l.reference)
        after := by
  have hr' : c.rest = ['f', 'r', 'o', 'm'] ++ (gap.text ++ (l.print ++ after)) := by
    simpa [printSource] using hr
  have hsolid := solid_literal l after
  have hfree : commentFree ['f', 'r', 'o', 'm'] (gap.text ++ (l.print ++ after)) = true :=
    commentFree_of_not_mem (by decide) (plain_append gap.allowed hsolid.plain)
  refine Reads.bind (reads_eat hc hr' hfree) ?_
  apply Reads.if_true rfl
  refine Reads.bind (reads_skipWhitespace hc rfl gap.allowed hsolid) ?_
  exact reads_specifier statement l hc rfl hplain

/-! ### Imports -/

/-- Of a name that is no type word the beginning is read that it has in common with
    one, and the import is not taken to be one of types. -/
theorem importsTypes_reads (hc : c.inString = false) {name : List Char}
    (hname : ∀ ch ∈ name, isIdentContinue ch = true) (hr : c.rest = name ++ after)
    (hafter : NameEnds after)
    (hword : name ∈ typeWords → ∀ ch, after.head? = some ch → isWhitespace ch = false) :
    ∃ pre post, name = pre ++ post ∧ importsTypes.Reads c pre false (post ++ after) := by
  have hslash : '/' ∉ name := not_mem_of_isIdentContinue hname (by decide)
  have hletters : ∀ word ∈ [['t', 'y', 'p', 'e'], ['o', 'f']], ∀ ch ∈ word,
      after.head? ≠ some ch := by
    have hall : ∀ word ∈ [['t', 'y', 'p', 'e'], ['o', 'f']], word.all isIdentContinue = true := by
      decide
    intro word hmem ch hch
    exact hafter.ne (List.all_eq_true.mp (hall word hmem) ch hch)
  obtain ⟨pre, post, rfl, -, -, heat⟩ := Cursor.exists_eat_eq_past hc ['t', 'y', 'p', 'e'] hr
    (commentFree_of_not_mem hslash hafter.plain) (hletters _ (by simp))
  have hread := reads_read (f := fun c => c.eat ['t', 'y', 'p', 'e'])
    (by rw [hr, List.append_assoc]) heat
  by_cases hpre : pre = ['t', 'y', 'p', 'e']
  · subst hpre
    obtain ⟨pre, rest, rfl, hfront, -, heat'⟩ := Cursor.exists_eat_eq_past
      (c := c.past ['t', 'y', 'p', 'e'] (post ++ after)) hc ['o', 'f'] rfl
      (commentFree_of_not_mem (fun h => hslash (List.mem_append_right _ h)) hafter.plain)
      (hletters _ (by simp))
    have hread' := reads_read (f := fun c => c.eat ['o', 'f']) (List.append_assoc _ _ _) heat'
    refine ⟨['t', 'y', 'p', 'e'] ++ pre, rest, by rw [List.append_assoc], ?_⟩
    refine Reads.bind hread ?_
    apply Reads.if_true (by simp)
    have hcur : ((c.past ['t', 'y', 'p', 'e'] (pre ++ rest ++ after)).past pre
        (rest ++ after)).current.any isWhitespace = false := by
      rw [Cursor.past_current]
      cases rest with
      | nil =>
        have hmem : pre ∈ ['o', 'f'].inits := List.mem_inits _ _ |>.mpr hfront
        have hall : ∀ word ∈ ['o', 'f'].inits,
            ['t', 'y', 'p', 'e'] ++ (word ++ []) ∈ typeWords := by decide
        cases hhead : after.head? with
        | none => simp [hhead]
        | some ch => simpa [hhead] using hword (hall pre hmem) ch hhead
      | cons d rest =>
        have hw : isWhitespace d = false := isWhitespace_of_isIdentContinue (hname d (by simp))
        simp [hw]
    exact Reads.last hread' (Reads.look (hcur ▸ reads_pure rfl))
  · refine ⟨pre, post, rfl, ?_⟩
    exact hread.then_pure (by simp [hpre])

theorem reads_importBindings (hr : c.rest = text ++ after)
    (h : Bindings.read c = (.complete, c.past text after)) :
    importBindings.Reads c text true after :=
  ((reads_read hr h).speculate rfl).then_pure rfl

end ScanM

theorem nameEnds_of_head? {after : List Char} (hplain : opensComment after = false)
    (h : ∀ ch, after.head? = some ch → isWhitespace ch = true ∨ ch = ',') : NameEnds after := by
  refine ⟨?_, hplain⟩
  intro ch hch
  rcases h ch hch with hw | rfl
  · exact isIdentContinue_of_isWhitespace hw
  · decide

theorem Names.nameEnds (bound : Names) (after : List Char) : NameEnds (bound.print ++ after) := by
  refine ⟨?_, (bound.solid after).plain⟩
  obtain ⟨first, text, hprint, hmem⟩ := bound.exists_head
  have hall : ∀ ch ∈ ['{', '*'], isIdentContinue ch = false := forall_mem_of_all (by decide)
  intro ch hch
  obtain rfl : first = ch := by simpa [hprint] using hch
  exact hall first hmem

/-- An import clause is read in two parts: what it has in common with a type word,
    and its bound names. -/
theorem ImportClause.exists_reads (clause : ImportClause) {c : Cursor} {after : List Char}
    (hc : c.inString = false) (hprev : c.prev ≠ some '$') (hr : c.rest = clause.print ++ after)
    (hafter : Solid after) (hcomma : after.head? ≠ some ',') :
    ∃ pre post, clause.print = pre ++ post ∧
      ScanM.importsTypes.Reads c pre false (post ++ after) ∧
      Bindings.read (c.past pre (post ++ after)) =
        (.complete, (c.past pre (post ++ after)).past post after) := by
  cases clause with
  | name before own gap untyped =>
    have hr' : c.rest = own.text ++ (gap.text ++ after) := by simpa [print] using hr
    have hends := nameEnds_of_head? (plain_append gap.allowed hafter.plain)
      (head?_gap_append gap.allowed fun hnil => absurd hnil gap.ne_nil)
    obtain ⟨pre, post, hown, htypes⟩ := ScanM.importsTypes_reads hc own.ident hr' hends
      fun hmem => absurd hmem untyped
    refine ⟨pre, post ++ gap.text, by simp [print, hown], by simpa using htypes, ?_⟩
    exact Bindings.read_name (c := c.past pre _) hc
      (fun ch hch => own.ident ch (by simp [hown, hch])) gap (by simp) hafter hcomma
  | names before bound =>
    have hr' : c.rest = [] ++ (bound.print ++ after) := hr
    obtain ⟨pre, post, hnil, htypes⟩ := ScanM.importsTypes_reads hc (by simp) hr'
      (bound.nameEnds after) fun hmem => absurd hmem (by decide)
    obtain ⟨rfl, rfl⟩ := List.append_eq_nil_iff.mp hnil.symm
    refine ⟨[], bound.print, rfl, htypes, ?_⟩
    have hstart : c.past [] (bound.print ++ after) = c := by
      rw [← Cursor.past_nil c, hr]
      rfl
    exact Bindings.read_names (c := c.past [] (bound.print ++ after)) hc (by rwa [hstart]) bound rfl
      hafter hcomma
  | both before own beforeComma afterComma bound untyped =>
    have hr' : c.rest = own.text ++ (beforeComma.text ++
        ([','] ++ (afterComma.text ++ (bound.print ++ after)))) := by simpa [print] using hr
    have hends : NameEnds (beforeComma.text ++
        ([','] ++ (afterComma.text ++ (bound.print ++ after)))) :=
      nameEnds_of_head? (plain_append beforeComma.allowed rfl)
        (head?_gap_append beforeComma.allowed fun _ => rfl)
    obtain ⟨pre, post, hown, htypes⟩ := ScanM.importsTypes_reads hc own.ident hr' hends
      fun hmem ch hch => by
        rw [untyped hmem] at hch
        obtain rfl : ',' = ch := by simpa using hch
        decide
    refine ⟨pre, post ++ (beforeComma.text ++ ([','] ++ (afterComma.text ++ bound.print))),
      by simp [print, hown], by simpa using htypes, ?_⟩
    exact Bindings.read_both (c := c.past pre _) hc
      (fun ch hch => own.ident ch (by simp [hown, hch])) beforeComma afterComma bound (by simp)
      hafter hcomma

namespace ScanM

variable {c : Cursor} {text after : List Char}

theorem reads_importClause (clause : ImportClause) (gap : Gap) (l : Literal)
    (hc : c.inString = false) (hprev : c.prev ≠ some '$')
    (hr : c.rest = clause.print ++ (printSource gap l ++ after))
    (hplain : opensComment after = false) :
    importClause.Reads c (clause.print ++ printSource gap l) (.reference l.reference) after := by
  have hsolid : Solid (printSource gap l ++ after) := solid_cons (by decide) (by decide) _
  obtain ⟨pre, post, hclause, htypes, hbound⟩ := clause.exists_reads hc hprev hr hsolid
    (by simp [printSource])
  rw [hclause, List.append_assoc]
  refine Reads.bind htypes ?_
  apply Reads.if_false rfl
  refine Reads.bind (reads_importBindings rfl hbound) ?_
  apply Reads.if_true rfl
  exact reads_source .importing gap l hc rfl hplain

end ScanM

/-! ### The first word -/

/-- The word before the text has come to its end, and no call opens there. -/
def WordEnds (after : List Char) : Prop :=
  ∀ ch, after.head? = some ch → isIdentContinue ch = false ∧ ch ≠ '.' ∧ ch ≠ '('

theorem wordEnds_gap_append {gap after : List Char} (hgap : ∀ ch ∈ gap, isWhitespace ch = true)
    (hafter : gap = [] → WordEnds after) : WordEnds (gap ++ after) := by
  cases gap with
  | nil => exact hafter rfl
  | cons d gap =>
    intro ch hch
    obtain rfl : d = ch := by simpa using hch
    have hw : isWhitespace d = true := hgap d (by simp)
    refine ⟨isIdentContinue_of_isWhitespace hw, ?_, ?_⟩
    · rintro rfl
      exact absurd hw (by decide)
    · rintro rfl
      exact absurd hw (by decide)

theorem Literal.wordEnds (l : Literal) (after : List Char) : WordEnds (l.print ++ after) := by
  intro ch hch
  obtain rfl : l.quote = ch := Option.some.inj hch
  have hq := l.quoted
  refine ⟨isIdentContinue_of_isQuote hq, ?_, ?_⟩
  · intro hdot
    rw [hdot] at hq
    exact absurd hq (by decide)
  · intro hparen
    rw [hparen] at hq
    exact absurd hq (by decide)

theorem Names.wordEnds (bound : Names) (after : List Char) : WordEnds (bound.print ++ after) := by
  obtain ⟨first, text, hprint, hmem⟩ := bound.exists_head
  have hall : ∀ ch ∈ ['{', '*'], isIdentContinue ch = false ∧ ch ≠ '.' ∧ ch ≠ '(' :=
    forall_mem_of_all (by decide)
  intro ch hch
  obtain rfl : first = ch := by simpa [hprint] using hch
  exact hall first hmem

namespace ScanM

variable {c : Cursor} {gap text after after' : List Char} {outcome : Outcome}

theorem commentFree_letters (statement : Statement) (hplain : opensComment after = false) :
    commentFree statement.letters after = true :=
  commentFree_of_not_mem (by cases statement <;> decide) hplain

theorem atWordEnd_past (hend : WordEnds after) : (c.past text after).atWordEnd = true := by
  simp only [Cursor.atWordEnd, Cursor.past_current]
  cases hhead : after.head? with
  | none => rfl
  | some ch =>
    obtain ⟨hident, hdot, -⟩ := hend ch hhead
    simp [hident, hdot]

theorem reads_staticImport (hc : c.inString = false) (hstart : c.statementStart = true)
    (hr : c.rest = Statement.importing.letters ++ (gap ++ after'))
    (hgap : ∀ ch ∈ gap, isWhitespace ch = true) (hsolid : Solid after')
    (hend : WordEnds (gap ++ after'))
    (h : (if after'.head?.any isQuote then specifier .importing else importClause).Reads
      (c.past (Statement.importing.letters ++ gap) after') text outcome after) :
    staticImport.Reads c (Statement.importing.letters ++ (gap ++ text)) outcome after := by
  have hfree := commentFree_letters .importing (plain_append hgap hsolid.plain)
  apply Reads.look
  apply Reads.if_true hstart
  refine Reads.bind (reads_eat hc hr hfree) (Reads.look (Reads.if_true ?_ ?_))
  · simp [atWordEnd_past hend]
  refine Reads.bind (reads_skipWhitespace hc rfl hgap hsolid) ?_
  apply Reads.onQuote
  rwa [Cursor.past_past]

theorem reads_exportFrom (hc : c.inString = false) (hstart : c.statementStart = true)
    (hr : c.rest = Statement.exporting.letters ++ (gap ++ after'))
    (hgap : ∀ ch ∈ gap, isWhitespace ch = true) (hsolid : Solid after')
    (hend : WordEnds (gap ++ after'))
    (h : exportClause.Reads (c.past (Statement.exporting.letters ++ gap) after') text outcome
      after) :
    exportFrom.Reads c (Statement.exporting.letters ++ (gap ++ text)) outcome after := by
  have hfree := commentFree_letters .exporting (plain_append hgap hsolid.plain)
  apply Reads.look
  apply Reads.if_true hstart
  refine Reads.bind (reads_eat hc hr hfree) (Reads.look (Reads.if_true ?_ ?_))
  · simp [atWordEnd_past hend]
  refine Reads.bind (reads_skipWhitespace hc rfl hgap hsolid) ?_
  rwa [Cursor.past_past]

/-! ### Re-exports -/

theorem reads_exportSource (gap : Gap) (l : Literal) (hc : c.inString = false)
    (hr : c.rest = printSource gap l ++ after) (hplain : opensComment after = false) :
    exportSource.Reads c (printSource gap l) (.reference l.reference) after :=
  reads_source .exporting gap l hc hr hplain

theorem reads_exportBraces (names : Braced) (afterNames gap : Gap) (l : Literal)
    (hc : c.inString = false)
    (hr : c.rest = (Names.braces names afterNames).print ++ (printSource gap l ++ after))
    (hplain : opensComment after = false) :
    exportBraces.Reads c ((Names.braces names afterNames).print ++ printSource gap l)
      (.reference l.reference) after := by
  have hsolid : Solid (printSource gap l ++ after) := solid_cons (by decide) (by decide) _
  have hr' : c.rest = ['{'] ++ (names.text ++ (['}'] ++
      (afterNames.text ++ (printSource gap l ++ after)))) := by simpa [Names.print] using hr
  have hskip := names.skipUntil_eq_past hc hr'
  have htext : (Names.braces names afterNames).print ++ printSource gap l =
      (['{'] ++ names.text) ++ (['}'] ++ (afterNames.text ++ printSource gap l)) := by
    simp [Names.print]
  rw [htext]
  have hread : (read fun c => ((c.skipUntil '}').current.isSome, c.skipUntil '}')).Reads c
      (['{'] ++ names.text) true (['}'] ++ (afterNames.text ++ (printSource gap l ++ after))) :=
    reads_read (by simpa using hr') (by rw [hskip]; rfl)
  refine Reads.bind (hread.speculate rfl) ?_
  refine Reads.bind (reads_advance (by exact hc) rfl
    (plain_append afterNames.allowed hsolid.plain)) ?_
  refine Reads.if_true rfl (Reads.bind (reads_skipWhitespace hc rfl afterNames.allowed hsolid) ?_)
  exact reads_exportSource gap l hc rfl hplain

theorem reads_exportStar_named (beforeAs : Gap) (afterAs : Break) (own : Name)
    (afterNames : Break) (gap : Gap) (l : Literal) (hc : c.inString = false)
    (hr : c.rest = (Names.star beforeAs afterAs own afterNames).print ++
      (printSource gap l ++ after)) (hplain : opensComment after = false) :
    exportStar.Reads c ((Names.star beforeAs afterAs own afterNames).print ++ printSource gap l)
      (.reference l.reference) after := by
  have hsolid : Solid (printSource gap l ++ after) := solid_cons (by decide) (by decide) _
  have hown : Solid (own.text ++ (afterNames.text ++ (printSource gap l ++ after))) := own.solid _
  have hword : Solid (['a', 's'] ++ (afterAs.text ++ (own.text ++
      (afterNames.text ++ (printSource gap l ++ after))))) := solid_cons (by decide) (by decide) _
  have htext : (Names.star beforeAs afterAs own afterNames).print ++ printSource gap l =
      ['*'] ++ (beforeAs.text ++ (['a', 's'] ++
        (afterAs.text ++ (own.text ++ (afterNames.text ++ printSource gap l))))) := by
    simp [Names.print]
  have hr' : c.rest = ['*'] ++ (beforeAs.text ++ (['a', 's'] ++ (afterAs.text ++ (own.text ++
      (afterNames.text ++ (printSource gap l ++ after)))))) := by simpa [Names.print] using hr
  have hstop : ∀ ch, (afterNames.text ++ (printSource gap l ++ after)).head? = some ch →
      isWhitespace ch = true := by
    obtain ⟨d, names, hnames⟩ := List.exists_cons_of_ne_nil afterNames.ne_nil
    intro ch hch
    rw [hnames] at hch
    obtain rfl : d = ch := Option.some.inj hch
    exact afterNames.allowed d (by simp [hnames])
  rw [htext]
  refine Reads.bind (reads_advance hc hr' (plain_append beforeAs.allowed hword.plain)) ?_
  refine Reads.bind (reads_skipWhitespace hc rfl beforeAs.allowed hword) ?_
  have hfree := commentFree_of_not_mem (show '/' ∉ ['a', 's'] by decide)
    (plain_append afterAs.allowed hown.plain)
  refine Reads.bind (reads_eat (by exact hc) rfl hfree) ?_
  apply Reads.if_true rfl
  refine Reads.bind (reads_skipWhitespace hc rfl afterAs.allowed hown) ?_
  refine Reads.bind (reads_skipUntilWhitespace (by exact hc) rfl own.ident
    (plain_append afterNames.allowed hsolid.plain) hstop) ?_
  refine Reads.bind (reads_skipWhitespace hc rfl afterNames.allowed hsolid) ?_
  exact reads_exportSource gap l hc rfl hplain

theorem reads_exportStar_all (afterStar gap : Gap) (l : Literal) (hc : c.inString = false)
    (hr : c.rest = ['*'] ++ (afterStar.text ++ (printSource gap l ++ after)))
    (hplain : opensComment after = false) :
    exportStar.Reads c (['*'] ++ (afterStar.text ++ printSource gap l)) (.reference l.reference)
      after := by
  have hsolid : Solid (printSource gap l ++ after) := solid_cons (by decide) (by decide) _
  refine Reads.bind (reads_advance hc hr (plain_append afterStar.allowed hsolid.plain)) ?_
  refine Reads.bind (reads_skipWhitespace hc rfl afterStar.allowed hsolid) ?_
  refine Reads.first (reads_eat_nothing ['s'] ?_) ?_
  · simp [printSource]
  · apply Reads.if_false rfl
    exact reads_exportSource gap l hc rfl hplain

theorem reads_exportClause (clause : ExportClause) (gap : Gap) (l : Literal)
    (hc : c.inString = false) (hr : c.rest = clause.print ++ (printSource gap l ++ after))
    (hplain : opensComment after = false) :
    exportClause.Reads c (clause.print ++ printSource gap l) (.reference l.reference) after := by
  have hnothing : ∀ {ch : Char}, c.current = some ch → ch ≠ 't' →
      (eat ['t', 'y', 'p', 'e']).Reads c [] false c.rest := by
    intro ch hcur hne
    apply reads_eat_nothing
    simp [hcur, hne]
  cases clause with
  | names bound =>
    cases bound with
    | braces names afterNames =>
      have hcur : c.current = some '{' := by
        simp [Cursor.current, hr, ExportClause.print, Names.print]
      refine Reads.first (hnothing hcur (by decide)) (Reads.look (Reads.if_false rfl ?_))
      rw [hcur]
      exact reads_exportBraces names afterNames gap l hc hr hplain
    | star beforeAs afterAs own afterNames =>
      have hcur : c.current = some '*' := by
        simp [Cursor.current, hr, ExportClause.print, Names.print]
      refine Reads.first (hnothing hcur (by decide)) (Reads.look (Reads.if_false rfl ?_))
      rw [hcur]
      exact reads_exportStar_named beforeAs afterAs own afterNames gap l hc hr hplain
  | all afterStar =>
    have hcur : c.current = some '*' := by simp [Cursor.current, hr, ExportClause.print]
    refine Reads.first (hnothing hcur (by decide)) (Reads.look (Reads.if_false rfl ?_))
    rw [hcur]
    exact reads_exportStar_all afterStar gap l hc hr hplain

/-! ### Statements about types -/

theorem reads_type (hc : c.inString = false) (hr : c.rest = ['t', 'y', 'p', 'e'] ++ after)
    (hplain : opensComment after = false) :
    (eat ['t', 'y', 'p', 'e']).Reads c ['t', 'y', 'p', 'e'] true after :=
  reads_eat hc hr (commentFree_of_not_mem (by decide) hplain)

/-- Of the word `of` is passed what stands there, up to whitespace. -/
theorem exists_reads_of {word : List Char} (hword : word ∈ [[], ['o'], ['o', 'f']])
    (hc : c.inString = false) (hr : c.rest = word ++ after) (hplain : opensComment after = false)
    (hw : after.head?.any isWhitespace = true) :
    ∃ matched, (eat ['o', 'f']).Reads c word matched after := by
  have hne : ∀ ch ∈ ['o', 'f'], after.head? ≠ some ch := by
    rintro ch hch hhead
    have hall : ∀ ch ∈ ['o', 'f'], isWhitespace ch = false := forall_mem_of_all (by decide)
    rw [hhead, Option.any_some, hall ch hch] at hw
    cases hw
  have hfree : commentFree word after = true := by
    refine commentFree_of_not_mem ?_ hplain
    have hall : ∀ word ∈ [[], ['o'], ['o', 'f']], '/' ∉ word := by decide
    exact hall word hword
  simp only [List.mem_cons, List.not_mem_nil, or_false] at hword
  rcases hword with rfl | rfl | rfl
  · exact ⟨false, reads_read hr (Cursor.eat_eq_false_past hc hr hfree (hne 'o' (by simp)))⟩
  · exact ⟨false, reads_read hr (Cursor.eat_eq_false_past hc hr hfree (hne 'f' (by simp)))⟩
  · exact ⟨true, reads_eat hc hr hfree⟩

theorem reads_importClause_typeWord {name : List Char} (hname : name ∈ typeWords)
    (hc : c.inString = false) (hr : c.rest = name ++ after) (hplain : opensComment after = false)
    (hw : after.head?.any isWhitespace = true) :
    importClause.Reads c name .typeOnly after := by
  obtain ⟨word, hword, rfl⟩ : ∃ word ∈ [[], ['o'], ['o', 'f']],
      name = ['t', 'y', 'p', 'e'] ++ word := by
    simp only [typeWords, List.mem_cons, List.not_mem_nil, or_false] at hname
    rcases hname with rfl | rfl | rfl <;> simp
  rw [List.append_assoc] at hr
  have hplain' : opensComment (word ++ after) = false := by
    refine opensComment_of_commentFree (commentFree_of_not_mem ?_ hplain)
    have hall : ∀ word ∈ [[], ['o'], ['o', 'f']], '/' ∉ word := by decide
    exact hall word hword
  have htype := reads_type hc hr hplain'
  obtain ⟨matched, hof⟩ := exists_reads_of (c := c.past ['t', 'y', 'p', 'e'] (word ++ after)) hword
    hc rfl hplain hw
  have htypes : importsTypes.Reads c (['t', 'y', 'p', 'e'] ++ word) true after := by
    refine Reads.bind htype (Reads.if_true rfl (Reads.last hof (Reads.look ?_)))
    rw [Cursor.past_current, hw]
    exact reads_pure rfl
  exact htypes.then_pure rfl

theorem reads_exportClause_types (hc : c.inString = false)
    (hr : c.rest = ['t', 'y', 'p', 'e'] ++ after) (hplain : opensComment after = false) {ch : Char}
    (hcur : after.head? = some ch) (hw : isWhitespace ch = true) :
    exportClause.Reads c ['t', 'y', 'p', 'e'] .typeOnly after := by
  refine Reads.last (reads_type hc hr hplain) (Reads.look (Reads.if_true ?_ (reads_pure rfl)))
  rw [Cursor.past_current, hcur, Option.any_some, hw]
  rfl

/-! ### Calls -/

/-- A call is read up to the parenthesis that closes it. -/
theorem reads_call (callee : Callee) (before afterLiteral : Gap) (l : Literal)
    (hc : c.inString = false) (hboundary : c.followsCallBoundary = true)
    (hr : c.rest = callee.opening ++ (before.text ++
      (l.print ++ (afterLiteral.text ++ ([')'] ++ after))))) :
    (call callee).Reads c (callee.opening ++ (before.text ++ (l.print ++ afterLiteral.text)))
      (.reference l.reference) ([')'] ++ after) := by
  have hclose : Solid ([')'] ++ after) := solid_cons (by decide) (by decide) _
  have hl := solid_literal l (afterLiteral.text ++ ([')'] ++ after))
  have hfree : commentFree callee.opening (before.text ++
      (l.print ++ (afterLiteral.text ++ ([')'] ++ after)))) = true :=
    commentFree_of_not_mem (by cases callee <;> decide) (plain_append before.allowed hl.plain)
  apply Reads.look
  apply Reads.if_true hboundary
  refine Reads.bind (reads_eat hc hr hfree) ?_
  apply Reads.if_true rfl
  refine Reads.bind (reads_skipWhitespace hc rfl before.allowed hl) ?_
  apply Reads.onQuote
  refine Reads.if_true ?_ ?_
  · simp [Literal.print, l.quoted]
  refine Reads.bind (reads_literal l hc rfl (plain_append afterLiteral.allowed hclose.plain)) ?_
  refine Reads.last (reads_skipWhitespace hc rfl afterLiteral.allowed hclose) ?_
  apply Reads.look
  exact Reads.if_false rfl (reads_pure rfl)

end ScanM

end ModuleScan
