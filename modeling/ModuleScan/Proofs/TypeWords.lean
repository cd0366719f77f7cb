/-
  ModuleScan/Proofs/TypeWords.lean
  ================================
  **Which names make an import one of types.**

  Of `import w from 'm'` the name `w` is compared with `type`, and what follows with
  `of`, letter by letter.  The import is one of types if whitespace follows the letters
  that match, so there are three such names: `type`, `typeof`, and `typeo`, at which the
  second word breaks off.  With any other name, however much it has in common with these,
  the import gives its module (`extract_namedImport`).
-/
import ModuleScan.Proofs.Printing

namespace ModuleScan

/-! ### The source -/

/-- An import of one name, with single blanks. -/
def printNamedImport (name : List Char) (quote : Char) (text : List Char) : List Char :=
  Statement.importing.letters ++ [' '] ++ name ++ [' '] ++ ['f', 'r', 'o', 'm'] ++ [' '] ++
    quote :: (text ++ [quote])

/-- The text holds nothing that ends a literal or changes what it says. -/
def Unescaped (quote : Char) (text : List Char) : Prop :=
  ∀ ch ∈ [quote, '\\', '{', '+'], ch ∉ text

variable {quote : Char} {name text : List Char}

theorem Unescaped.stays (h : Unescaped quote text) : staysInLiteral quote false text = true := by
  rw [staysInLiteral_iff]
  refine ⟨h '{' (by simp), h '+' (by simp), ?_⟩
  rintro before after rfl
  exact absurd (by simp) (h quote (by simp))

theorem escapedAfter_of_not_mem (h : '\\' ∉ text) : escapedAfter false text = false := by
  induction text with
  | nil => rfl
  | cons ch text ih =>
    rw [List.mem_cons, not_or] at h
    have hch : (ch == '\\') = false := beq_eq_false_iff_ne.mpr (Ne.symm h.1)
    rw [escapedAfter, hch, Bool.false_and, ih h.2]

def Unescaped.literal (h : Unescaped quote text) (hq : isQuote quote = true) : Literal where
  quote := quote
  text := text
  quoted := hq
  stays := h.stays
  closes := escapedAfter_of_not_mem (h '\\' (by simp))

/-! ### Other names -/

/-- The blank that keeps two words apart. -/
def blank : Break := ⟨[' '], forall_mem_of_all (by decide), Nat.le_refl 1⟩

/-- The same blank where none is needed. -/
def blankGap : Gap := ⟨[' '], forall_mem_of_all (by decide), Nat.zero_le 1⟩

def namedImport (own : Name) (untyped : own.text ∉ typeWords) (l : Literal) : Sentence :=
  .imports (.name blank own blank untyped) blankGap l

theorem print_namedImport (own : Name) (untyped : own.text ∉ typeWords) (l : Literal) :
    (namedImport own untyped l).print = printNamedImport own.text l.quote l.text := by
  simp [printNamedImport, namedImport, blank, blankGap, Sentence.print, ImportClause.before,
    ImportClause.print, printSource, Literal.print]

/-! ### The type words -/

/-- Of an import the attempt reads no more than the type word. -/
theorem reads_import_typeWord {c : Cursor} {name tail : List Char} (hname : name ∈ typeWords)
    (hc : c.AtStart)
    (hr : c.rest = Statement.importing.letters ++ ([' '] ++ (name ++ ([' '] ++ tail)))) :
    (ScanM.firstOf (ScanM.call .dynamicImport) ScanM.staticImport).Reads c
      (Statement.importing.letters ++ ([' '] ++ name)) .typeOnly ([' '] ++ tail) := by
  have hblank : ∀ ch ∈ [' '], isWhitespace ch = true := forall_mem_of_all (by decide)
  obtain ⟨word, rfl⟩ : ∃ word, name = 't' :: word := by
    simp only [typeWords, List.mem_cons, List.not_mem_nil, or_false] at hname
    rcases hname with rfl | rfl | rfl <;> exact ⟨_, rfl⟩
  have hsolid : Solid ('t' :: word ++ ([' '] ++ tail)) := solid_cons (by decide) (by decide) _
  have hends : WordEnds ([' '] ++ ('t' :: word ++ ([' '] ++ tail))) :=
    wordEnds_gap_append hblank fun hnil => absurd hnil (by simp)
  have hplain : opensComment ([' '] ++ tail) = false := opensComment_of_ne_slash (by decide) _
  exact Sentence.reads_importing hc hr hblank hsolid hends
    (ScanM.Reads.if_false rfl (ScanM.reads_importClause_typeWord hname hc.inString rfl hplain rfl))

/-- What a scan has found at any time is found first. -/
theorem Scan.Reaches.begins_scanFindings {source : List Char} {t : Scan}
    (h : (Scan.ofSource source).Reaches t) : t.findings.reverse <+: scanFindings source := by
  have hs := Scan.sited_ofSource source
  have hon := (t.reaches_finish (h.sited hs)).onward (h.sited hs)
  rw [scanFindings, h.finish_eq hs]
  exact List.reverse_prefix.mpr hon.findings

theorem exists_findings_of_typeWord {name : List Char} (hname : name ∈ typeWords) (quote : Char)
    (text : List Char) :
    ∃ more, findings (printNamedImport name quote text) = .typeOnly 1 :: more := by
  have hsource : printNamedImport name quote text = Statement.importing.letters ++
      ([' '] ++ (name ++ ([' '] ++ (['f', 'r', 'o', 'm', ' ', quote] ++ (text ++ [quote]))))) := by
    simp [printNamedImport]
  have hplain : opensComment (printNamedImport name quote text) = false :=
    opensComment_of_ne_slash (by decide) _
  have hkeyword : mentionsKeyword (printNamedImport name quote text) = true := by
    have hmem : Statement.importing.letters ∈ keywords := List.mem_cons_self
    apply mentionsKeyword_of_begins hmem
    rw [hsource]
    exact List.prefix_append _ _
  obtain ⟨hstart, hrest⟩ := Cursor.atStart_ofSource hplain
  have hreads := reads_import_typeWord hname hstart (hrest.trans hsource)
  have hcur : (Cursor.ofSource (printNamedImport name quote text)).current = some 'i' := by
    rw [Cursor.current, hrest, hsource]
    rfl
  have hline : (Cursor.ofSource (printNamedImport name quote text)).line = 1 := by
    rw [Cursor.ofSource_eq hplain]
    rfl
  have hreach := Scan.reaches_of_reads (Scan.sited_ofSource _) hcur rfl hreads rfl
  obtain ⟨more, hmore⟩ := hreach.begins_scanFindings
  refine ⟨more, ?_⟩
  have hfound : (Scan.ofSource (printNamedImport name quote text)).findings = [] := rfl
  rw [findings, if_pos hkeyword, ← hmore, hfound, List.reverse_singleton, List.singleton_append]
  exact congrArg (fun line => Finding.typeOnly line :: more) hline.symm

/-- **Only the type words make an import one of types.**  With any other name an import of
    one name gives its module and reports nothing; with a type word it is noted as one of
    types before anything else. -/
theorem extract_namedImport {name text : List Char} {quote : Char} (hne : name ≠ [])
    (hident : ∀ ch ∈ name, isIdentContinue ch = true) (hq : isQuote quote = true)
    (htext : Unescaped quote text) (label : String) :
    (name ∉ typeWords →
      extract (String.ofList (printNamedImport name quote text)) label =
        ⟨[String.ofList text], []⟩) ∧
    (name ∈ typeWords →
      ∃ more, findings (printNamedImport name quote text) = .typeOnly 1 :: more) := by
  constructor
  · intro huntyped
    have hextract := Sentence.extract_print
      (namedImport ⟨name, hne, hident⟩ huntyped (htext.literal hq)) label
    rw [print_namedImport] at hextract
    exact hextract
  · intro hword
    exact exists_findings_of_typeWord hword quote text

/-- A name that goes on where the word `type` ends. -/
theorem extract_namedImport_types : extract "import types from 'm'" "x.js" = ⟨["m"], []⟩ := by
  have hsource : String.ofList (printNamedImport ['t', 'y', 'p', 'e', 's'] '\x27' ['m']) =
      "import types from 'm'" := by decide
  have hident : ∀ ch ∈ ['t', 'y', 'p', 'e', 's'], isIdentContinue ch = true :=
    forall_mem_of_all (by decide)
  have htext : Unescaped '\x27' ['m'] := by simp [Unescaped]
  have hextract := (extract_namedImport (by simp) hident (by decide) htext "x.js").1 (by decide)
  rw [hsource] at hextract
  exact hextract

/-- A name that is neither `type` nor `typeof`, and is taken for a type word. -/
theorem extract_namedImport_typeo :
    "typeo" ∉ ["type", "typeof"] ∧ "typeo".toList.all isIdentContinue = true ∧
      extract "import typeo from 'm'" "x.js" = ⟨[], []⟩ := by
  decide +kernel

end ModuleScan
