/-
  ModuleScan/Proofs/TypeBraces.lean
  =================================
  **Names in braces behind the word `type`.**

  `import type { a } from 'm'` and `export type { a } from 'm'` need no module when they
  run, and a scan finds none in them.  The word counts only if whitespace follows it:
  where the brace stands right behind the word, its letters are passed as those of a
  name, and the statement gives its module (`extract_typeBraces`).
-/
import ModuleScan.Proofs.SkippedNames

namespace ModuleScan

/-! ### The characters -/

/-- What may stand between the braces: names, blanks and commas. -/
def isListed (c : Char) : Bool := isIdentContinue c || isBlank c || c == ','

/-- What may stand in the name of the module. -/
def isModuleName (c : Char) : Bool := isIdentContinue c || c == '.' || c == '@' || c == '-'

/-- Characters that mean something to a scan and stand in neither. -/
def marks : List Char :=
  ['/', '(', '{', '}', '+', '\\', '\x27', '\r', '\n', '\u2028', '\u2029', ';']

def Unmarked (text : List Char) : Prop := ∀ ch ∈ marks, ch ∉ text

theorem unmarked_of_forall {text : List Char} {allowed : Char → Bool}
    (hallowed : ∀ ch ∈ marks, allowed ch = false) (h : ∀ ch ∈ text, allowed ch = true) :
    Unmarked text := by
  intro ch hmark hmem
  have hnot := hallowed ch hmark
  rw [h ch hmem] at hnot
  cases hnot

theorem unmarked_of_isListed {text : List Char} (h : ∀ ch ∈ text, isListed ch = true) :
    Unmarked text :=
  unmarked_of_forall (forall_mem_of_all (by decide +kernel)) h

theorem unmarked_of_isModuleName {text : List Char} (h : ∀ ch ∈ text, isModuleName ch = true) :
    Unmarked text :=
  unmarked_of_forall (forall_mem_of_all (by decide +kernel)) h

namespace Unmarked

variable {text : List Char}

theorem inert (h : Unmarked text) : Inert text := by
  apply Inert.of_not_mem (h '/' (by decide)) (h '(' (by decide))
  intro ch hmem
  rw [← Bool.not_eq_true]
  intro hend
  have hmarks : ['\r', '\n', '\u2028', '\u2029', ';'] ⊆ marks := by decide
  exact h ch (hmarks (mem_of_endsStatement hend)) hmem

theorem unescaped (h : Unmarked text) : Unescaped '\x27' text := by
  intro ch hch
  have hmarks : ['\x27', '\\', '{', '+'] ⊆ marks := by decide
  exact h ch (hmarks hch)

def braced (h : Unmarked text) : Braced where
  text := text
  unclosed := h '}' (by decide)
  uncommented := h.inert.uncommented

def literal (h : Unmarked text) : Literal := h.unescaped.literal (by decide)

end Unmarked

/-! ### The source -/

/-- What stands before the literal, with `gap` between the word and the brace. -/
def typeBracesFront (statement : Statement) (gap names : List Char) : List Char :=
  statement.letters ++ [' '] ++ (['t', 'y', 'p', 'e'] ++ gap ++
    ('{' :: (names ++ '}' :: [' ']) ++ (['f', 'r', 'o', 'm'] ++ [' '])))

def typeBraces (statement : Statement) (gap names text : List Char) : List Char :=
  typeBracesFront statement gap names ++ '\x27' :: (text ++ ['\x27'])

section

variable (statement : Statement) {gap names text : List Char}

theorem begins_typeBraces (gap names text : List Char) :
    statement.letters <+: typeBraces statement gap names text := by
  simp only [typeBraces, typeBracesFront, List.append_assoc]
  exact List.prefix_append _ _

/-- Where whitespace stands behind the word, the source is a sentence about types. -/
theorem extract_typeBraces_apart (hgap : ∀ ch ∈ gap, isBlank ch = true) (hne : gap ≠ [])
    (hnames : Unmarked names) (htext : Unmarked text) (label : String) :
    extract (String.ofList (typeBraces statement gap names text)) label = ⟨[], []⟩ := by
  have hleast : 1 ≤ gap.length := List.length_pos_of_ne_nil hne
  have hblank : ∀ ch ∈ [' '], isBlank ch = true := forall_mem_of_all (by decide)
  have hprint : (Sentence.types statement blank ⟨gap, hgap, hleast⟩
      (.braces hnames.braced hnames.inert ⟨[' '], hblank, Nat.zero_le 1⟩)
      ⟨[' '], hblank, Nat.zero_le 1⟩ htext.literal htext.inert).print =
        typeBraces statement gap names text := by
    simp [Sentence.print, TypeClause.print, printSource, Literal.print, Unmarked.literal,
      Unescaped.literal, Unmarked.braced, blank, typeBraces, typeBracesFront]
  rw [← hprint]
  exact Sentence.extract_print _ label

/-- Where the brace stands right behind the word, the source is one of names in braces. -/
theorem scanFindings_typeBraces_joined (hnames : Unmarked names) (htext : Unmarked text) :
    scanFindings (typeBraces statement [] names text) = [.reference (String.ofList text) 1] := by
  have hslash : '/' ∉ typeBracesFront statement [] names := by
    have hin := hnames '/' (by decide)
    cases statement <;> simp [typeBracesFront, Statement.letters, hin]
  have hsource : typeBraces statement [] names text =
      typeBracesFront statement [] names ++ htext.literal.print := rfl
  have hfree : commentFree (typeBracesFront statement [] names) htext.literal.print = true :=
    commentFree_of_not_mem hslash (opensComment_of_ne_slash (show '\x27' ≠ '/' by decide) _)
  have hbegins := begins_typeBraces statement [] names text
  obtain ⟨hstart, hrest, -⟩ := Cursor.ofSource_of_begins hbegins
  have hwalks := Cursor.eat_eq_true_iff.mp (Cursor.eat_eq_past hstart.inString
    (hrest.trans hsource) hfree)
  apply scanFindings_of_clause (l := htext.literal) hbegins hwalks (by decide) _ rfl
  intro s post hs hclause
  exact ScanM.ends_clause_of_braces statement hs List.prefix_rfl (hnames '}' (by decide))
    isGap_blank isGap_blank rfl hclause

/-- **Names in braces behind the word `type` need no module, if whitespace follows the
    word.**  Otherwise the statement gives its module.  In neither case is anything
    reported. -/
theorem extract_typeBraces (hgap : ∀ ch ∈ gap, isBlank ch = true)
    (hnames : ∀ ch ∈ names, isListed ch = true) (htext : ∀ ch ∈ text, isModuleName ch = true)
    (label : String) :
    extract (String.ofList (typeBraces statement gap names text)) label =
      ⟨if gap = [] then [String.ofList text] else [], []⟩ := by
  have hunmarked := unmarked_of_isListed hnames
  have hunmarked' := unmarked_of_isModuleName htext
  by_cases hne : gap = []
  · subst hne
    have hkeyword := mentionsKeyword_of_begins statement.letters_mem_keywords
      (begins_typeBraces statement [] names text)
    rw [extract, findings, String.toList_ofList, if_pos hkeyword,
      scanFindings_typeBraces_joined statement hunmarked hunmarked', if_pos rfl]
    rfl
  · rw [extract_typeBraces_apart statement hgap hne hunmarked hunmarked', if_neg hne]

end

/-- Words of statements among the names. -/
theorem extract_typeBraces_words :
    (∀ ch ∈ "\t ".toList, isBlank ch = true) ∧
      (∀ ch ∈ "import, type require".toList, isListed ch = true) ∧
      (∀ ch ∈ "@a.b-c".toList, isModuleName ch = true) ∧
      extract (String.ofList (typeBraces .exporting "\t ".toList "import, type require".toList
        "@a.b-c".toList)) "x.js" = ⟨[], []⟩ := by
  have hgap : ∀ ch ∈ "\t ".toList, isBlank ch = true := forall_mem_of_all (by decide)
  have hnames : ∀ ch ∈ "import, type require".toList, isListed ch = true :=
    forall_mem_of_all (by decide +kernel)
  have htext : ∀ ch ∈ "@a.b-c".toList, isModuleName ch = true :=
    forall_mem_of_all (by decide +kernel)
  exact ⟨hgap, hnames, htext, extract_typeBraces .exporting hgap hnames htext "x.js"⟩

/-- With the brace right behind the word the statement gives its module. -/
theorem extract_typeBraces_brace :
    "a".toList.all isListed = true ∧ "m".toList.all isModuleName = true ∧
      typeBraces .importing [] "a".toList "m".toList = "import type\x7ba\x7d from 'm'".toList ∧
      extract "import type\x7ba\x7d from 'm'" "x.js" = ⟨["m"], []⟩ ∧
      extract "export type\x7ba\x7d from 'm'" "x.js" = ⟨["m"], []⟩ := by
  decide +kernel

end ModuleScan
