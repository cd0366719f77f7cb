/-
  ModuleScan/Proofs/PlainLines.lean
  =================================
  **The lines of plain output.**

  Plain output ends what it says about a reference with a line feed.  The text of the
  reference is written as it stands in the source, and a literal may go on over the end
  of a line; a reference is therefore as many lines as its text has, and there is one
  line for each exactly if no text holds a line feed (`Report.plain_lines`).  Every text
  between two quotes that ends where it should is a reference of some source
  (`mem_references_iff`), so nothing keeps line feeds out.
-/
import ModuleScan.Proofs.Printing
import ModuleScan.Proofs.References
import ModuleScan.Report

namespace ModuleScan

/-! ### Texts that end with a line feed -/

theorem not_mem_of_mem_splitOn {a : Char} {s piece : List Char} (h : piece ∈ s.splitOn a) :
    a ∉ piece := by
  induction s generalizing piece with
  | nil =>
    rw [List.splitOn_nil, List.mem_singleton] at h
    rw [h]
    exact List.not_mem_nil
  | cons c s ih =>
    rw [List.splitOn_cons_eq_if_modifyHead] at h
    split at h
    · rcases List.mem_cons.mp h with rfl | h
      · exact List.not_mem_nil
      · exact ih h
    next hc =>
      obtain ⟨first, later, hsplit⟩ := List.exists_cons_of_ne_nil (List.splitOn_ne_nil a s)
      rw [hsplit, List.modifyHead_cons] at h
      rcases List.mem_cons.mp h with rfl | h
      · intro hmem
        rcases List.mem_cons.mp hmem with rfl | hmem
        · exact hc (beq_self_eq_true _)
        · exact ih (by simp [hsplit]) hmem
      · exact ih (by simp [hsplit, h])

theorem splitOn_flatMap_newline (texts : List (List Char)) :
    (texts.flatMap fun text => text ++ ['\n']).splitOn '\n' =
      (texts.flatMap fun text => text.splitOn '\n') ++ [[]] := by
  induction texts with
  | nil => rfl
  | cons text texts ih =>
    rw [List.flatMap_cons, List.append_assoc, List.singleton_append,
      List.splitOn_append_cons_self, ih, List.flatMap_cons, List.append_assoc]

theorem flatMap_splitOn_eq_self_iff {texts : List (List Char)} :
    (texts.flatMap fun text => text.splitOn '\n') = texts ↔ ∀ text ∈ texts, '\n' ∉ text := by
  constructor
  · intro h text htext
    rw [← h] at htext
    obtain ⟨whole, -, hpiece⟩ := List.mem_flatMap.mp htext
    exact not_mem_of_mem_splitOn hpiece
  · intro h
    induction texts with
    | nil => rfl
    | cons text texts ih =>
      rw [List.forall_mem_cons] at h
      rw [List.flatMap_cons, List.splitOn_eq_singleton h.1, ih h.2, List.singleton_append]

/-! ### The texts of references -/

theorem Sighting.In.exists_literal {x : Sighting} {source : List Char} (h : x.In source) :
    ∃ l : Literal, l.reference = x.text := by
  have hstays : staysInLiteral x.quote false x.text.toList = true :=
    staysInLiteral_iff.mpr ⟨h.no_brace, h.no_plus, h.escaped⟩
  have hcloses : escapedAfter false x.text.toList = false := by
    rw [← Bool.not_eq_true, escapedAfter_false_iff]
    exact h.closing
  exact ⟨⟨x.quote, x.text.toList, h.isQuote, hstays, hcloses⟩, String.ofList_toList⟩

theorem exists_literal_of_mem_references {source label m : String}
    (h : m ∈ (extract source label).references) : ∃ l : Literal, l.reference = m := by
  have hfound : m ∈ (scanFindings source.toList).filterMap Finding.reference? := by
    simp only [extract, Extraction.ofFindings, findings] at h
    split at h
    · exact h
    · exact absurd h List.not_mem_nil
  obtain ⟨xs, htexts, hxs, -⟩ :=
    (Scan.reaches_finish _ (Scan.sited_ofSource source.toList)).sightings
  rw [scanFindings, ← htexts] at hfound
  obtain ⟨x, hx, rfl⟩ := List.mem_map.mp hfound
  exact (hxs.read x hx).1.exists_literal

/-- An import of the literal and of nothing else, with no space before it. -/
def Literal.imported (l : Literal) : Sentence := .bare ⟨[], List.forall_mem_nil _, Nat.le_refl 0⟩ l

theorem references_imported (l : Literal) (label : String) :
    (extract (String.ofList l.imported.print) label).references = [l.reference] := by
  rw [l.imported.extract_print]
  rfl

/-- The references of all sources are the texts of literals, and each of these is the
    reference of a source. -/
theorem mem_references_iff {label m : String} :
    (∃ source, m ∈ (extract source label).references) ↔ ∃ l : Literal, l.reference = m := by
  constructor
  · rintro ⟨source, h⟩
    exact exists_literal_of_mem_references h
  · rintro ⟨l, rfl⟩
    refine ⟨String.ofList l.imported.print, ?_⟩
    rw [references_imported]
    exact List.mem_singleton_self _

/-! ### Plain output -/

namespace Report

/-- What plain output says about a reference. -/
def referenceText (path text : String) : List Char := (path ++ ": " ++ text).toList

def referenceTexts (reports : List Report) : List (List Char) :=
  reports.flatMap fun r => r.modules.map (referenceText r.path)

theorem toList_plain (reports : List Report) :
    (plain reports).toList = (referenceTexts reports).flatMap fun text => text ++ ['\n'] := by
  rw [plain, String.toList_join, referenceTexts, List.flatMap_assoc, List.flatMap_assoc]
  refine List.flatMap_congr ?_
  intro r hr
  rw [List.flatMap_map, List.flatMap_map]
  refine List.flatMap_congr ?_
  intro m hm
  rw [moduleLine, String.toList_append, referenceText]
  rfl

theorem newline_mem_referenceText {path text : String} (hpath : '\n' ∉ path.toList) :
    '\n' ∈ referenceText path text ↔ '\n' ∈ text.toList := by
  simp [referenceText, hpath]

@[simp] theorem path_ofSource (label source : String) (unique : Bool) :
    (ofSource label source unique).path = label := by
  cases unique <;> rfl

theorem mem_modules_ofSource {label source m : String} {unique : Bool} :
    m ∈ (ofSource label source unique).modules ↔ m ∈ (extract source label).references := by
  cases unique with
  | false => rfl
  | true => exact List.mem_eraseDups

/-- **Plain output, split at line feeds.**  The pieces are those of the texts that are
    written for the references, in order, and an empty one behind the last line feed.  If
    no label holds a line feed, there is one piece for each reference, its text, exactly if
    no reference of the sources holds a line feed; and what references hold is what
    literals may hold. -/
theorem plain_lines (sources : List (String × String)) (unique : Bool) :
    let reports := sources.map fun s => ofSource s.1 s.2 unique
    (plain reports).toList.splitOn '\n' =
        (referenceTexts reports).flatMap (fun text => text.splitOn '\n') ++ [[]] ∧
      ((∀ s ∈ sources, '\n' ∉ s.1.toList) →
        ((plain reports).toList.splitOn '\n' = referenceTexts reports ++ [[]] ↔
          ∀ s ∈ sources, ∀ m ∈ (extract s.2 s.1).references, '\n' ∉ m.toList)) ∧
      ∀ label m, (∃ source, m ∈ (extract source label).references) ↔
        ∃ l : Literal, l.reference = m := by
  intro reports
  have hsplit : (plain reports).toList.splitOn '\n' =
      (referenceTexts reports).flatMap (fun text => text.splitOn '\n') ++ [[]] := by
    rw [toList_plain, splitOn_flatMap_newline]
  refine ⟨hsplit, ?_, fun label m => mem_references_iff⟩
  intro hlabels
  rw [hsplit, List.append_cancel_right_eq, flatMap_splitOn_eq_self_iff]
  constructor
  · intro h s hs m hm
    rw [← newline_mem_referenceText (hlabels s hs)]
    apply h
    refine List.mem_flatMap.mpr ⟨_, List.mem_map_of_mem hs, ?_⟩
    rw [path_ofSource]
    exact List.mem_map_of_mem (mem_modules_ofSource.mpr hm)
  · intro h text htext
    obtain ⟨r, hr, htext⟩ := List.mem_flatMap.mp htext
    obtain ⟨s, hs, rfl⟩ := List.mem_map.mp hr
    obtain ⟨m, hm, rfl⟩ := List.mem_map.mp htext
    rw [path_ofSource, newline_mem_referenceText (hlabels s hs)]
    exact h s hs m (mem_modules_ofSource.mp hm)

/-- The template literal of a call may go on over the end of a line. -/
theorem plain_lines_template :
    let reports := [ofSource "a.js" "require(`a\nb`)" false]
    '\n' ∉ "a.js".toList ∧ plain reports = "a.js: a\nb\n" ∧
      referenceTexts reports = ["a.js: a\nb".toList] ∧
      (plain reports).toList.splitOn '\n' ≠ referenceTexts reports ++ [[]] := by
  decide +kernel

end Report

end ModuleScan
