/-
  ModuleScan/Proofs/JsonReport.lean
  =================================
  **The JSON document of reports loses nothing.**

  Printed at any depth, a document is a JSON text that denotes what the document
  says (`Json.denotes_print`): every character of a string is found again, escaped
  or not, and every number by its digits.  So a reader of JSON texts gets from the
  document of reports exactly what the reports hold, and two documents are the
  same text only if the reports agree (`Report.json_lossless`).
-/
import ModuleScan.Report
import ModuleScan.Proofs.JsonValues

namespace ModuleScan

namespace Json

/-! ### What a document says -/

mutual

def value : Json → Value
  | .number n => .number n
  | .text s => .text s
  | .array items => .array (itemValues items)
  | .object fields => .object (fieldValues fields)

def itemValues : List Json → List Value
  | [] => []
  | item :: items => item.value :: itemValues items

def fieldValues : List (String × Json) → List (String × Value)
  | [] => []
  | (key, item) :: fields => (key, item.value) :: fieldValues fields

end

theorem itemValues_eq_map (items : List Json) : itemValues items = items.map value := by
  induction items with
  | nil => rfl
  | cons item items ih => rw [itemValues, ih, List.map_cons]

/-! ### Strings -/

/-- The four digits of a control character. -/
theorem unit?_control {n : Nat} (h : n < 32) :
    unit? '0' '0' (Nat.digitChar (n / 16)) (Nat.digitChar (n % 16)) = some n := by
  revert n
  decide

theorem quoted_escape (c : Char) {raw s : List Char} (h : Quoted raw s) :
    Quoted (escape c ++ raw) (c :: s) := by
  unfold escape
  split
  case h_8 hquote hslash _ _ _ _ _ =>
    split
    next hcontrol =>
      have hunit := Quoted.unit (unit?_control hcontrol)
        (by simp [isHighSurrogate]; omega) (by simp [isLowSurrogate]; omega) h
      rwa [Char.ofNat_toNat] at hunit
    next hcontrol =>
      refine .plain ?_ h
      simp only [isPlain, Bool.and_eq_true, decide_eq_true_eq, bne_iff_ne]
      exact ⟨⟨Nat.not_lt.mp hcontrol, hquote⟩, hslash⟩
  all_goals exact .escape rfl h

theorem quoted_flatMap_escape (s : List Char) : Quoted (s.flatMap escape) s := by
  induction s with
  | nil => exact .nil
  | cons c s ih =>
    rw [List.flatMap_cons]
    exact quoted_escape c ih

theorem key_quote (s : String) : Key (quote s) s := by
  have h := Key.quoted (quoted_flatMap_escape s.toList)
  rwa [String.ofList_toList] at h

/-! ### Numbers -/

/-- The digits of a number do not begin with a zero, unless it is zero. -/
theorem head?_toDigits {n : Nat} (h : n ≠ 0) : (Nat.toDigits 10 n).head? ≠ some '0' := by
  induction n using Nat.strong_induction_on with
  | _ n ih =>
    by_cases hsmall : n < 10
    · rw [Nat.toDigits_of_lt_base hsmall]
      have hdigit : ∀ n < 10, n ≠ 0 → [Nat.digitChar n].head? ≠ some '0' := by decide
      exact hdigit n hsmall h
    · rw [Nat.toDigits_of_base_le (by decide) (Nat.le_of_not_lt hsmall),
        List.head?_append_of_ne_nil _ Nat.toDigits_ne_nil]
      exact ih (n / 10) (by omega) (by omega)

theorem number_toDigits (n : Nat) : Number (Nat.toDigits 10 n) n := by
  have hwhole : IsWhole (Nat.toDigits 10 n) := by
    by_cases hzero : n = 0
    · exact Or.inl (by rw [hzero, Nat.toDigits_zero])
    · exact Or.inr ⟨⟨Nat.toDigits_ne_nil,
        fun c hc => Nat.isDigit_of_mem_toDigits (by decide) (by decide) hc⟩, head?_toDigits hzero⟩
  have hnumber := Number.positive (Magnitude.intro hwhole .none .none)
  simpa [Nat.ofDigitChars_ten_toDigits] using hnumber

/-! ### Documents -/

theorem blanks_lineBreak (depth : Nat) : Blanks (lineBreak depth) := by
  refine List.forall_mem_cons.mpr ⟨rfl, fun c hc => ?_⟩
  rw [List.eq_of_mem_replicate hc]
  rfl

theorem Denotes.blanksAfter {s blanks : List Char} {v : Value} (h : Denotes s v)
    (hblanks : Blanks blanks) : Denotes (s ++ blanks) v := by
  induction blanks generalizing s with
  | nil => rwa [List.append_nil]
  | cons c blanks ih =>
    obtain ⟨hc, hblanks⟩ := List.forall_mem_cons.mp hblanks
    rw [List.append_cons]
    exact ih (.blankAfter hc h) hblanks

mutual

/-- A printed document denotes what it says. -/
theorem denotes_print (depth : Nat) : (doc : Json) → Denotes (doc.print depth) doc.value
  | .number n => .number (number_toDigits n)
  | .text s => by
    have h := Denotes.text (quoted_flatMap_escape s.toList)
    rwa [String.ofList_toList] at h
  | .array [] => .emptyArray (List.forall_mem_nil _)
  | .object [] => .emptyObject (List.forall_mem_nil _)
  | .array (item :: items) => by
    have hitem := (blanks_lineBreak (depth + 1)).denotes (denotes_print (depth + 1) item)
    obtain ⟨printed, hne, hvalid, hvalues, hprinted⟩ :=
      exists_printedItems (depth + 1) (blanks_lineBreak depth) items hitem
    have harray := Denotes.array hne hvalid
    rwa [hprinted, hvalues] at harray
  | .object ((key, item) :: fields) => by
    have hfield : (⟨lineBreak (depth + 1) ++ quote key, key, ' ' :: item.print (depth + 1),
        item.value⟩ : Field).Valid :=
      ⟨(blanks_lineBreak (depth + 1)).key (key_quote key),
        .blankBefore rfl (denotes_print (depth + 1) item)⟩
    obtain ⟨printed, hne, hvalid, hvalues, hprinted⟩ :=
      exists_printedFields (depth + 1) (blanks_lineBreak depth) fields hfield
    have hobject := Denotes.object hne (fun field hmem => (hvalid field hmem).key)
      fun field hmem => (hvalid field hmem).value
    rw [hprinted, hvalues] at hobject
    simpa [print, value, fieldValues, Field.text, Field.entry] using hobject

/-- The items of a printed array, with what follows the last of them. -/
theorem exists_printedItems (depth : Nat) {blanks : List Char} (hblanks : Blanks blanks) :
    (items : List Json) → {front : List Char} → {v : Value} → Denotes front v →
      ∃ printed : List Item, printed ≠ [] ∧ (∀ item ∈ printed, item.Valid) ∧
        printed.map Item.value = v :: itemValues items ∧
        [','].intercalate (printed.map Item.text) = front ++ printItems depth items ++ blanks
  | [], front, v, h => by
    refine ⟨[⟨front ++ blanks, v⟩], List.cons_ne_nil _ _,
      List.forall_mem_singleton.mpr (h.blanksAfter hblanks), rfl, ?_⟩
    rw [List.map_singleton, List.intercalate_singleton, printItems, List.append_nil]
  | item :: items, front, v, h => by
    have hitem := (blanks_lineBreak depth).denotes (denotes_print depth item)
    obtain ⟨printed, hne, hvalid, hvalues, hprinted⟩ :=
      exists_printedItems depth hblanks items hitem
    refine ⟨⟨front, v⟩ :: printed, List.cons_ne_nil _ _, List.forall_mem_cons.mpr ⟨h, hvalid⟩,
      ?_, ?_⟩
    · rw [List.map_cons, hvalues, itemValues]
    · rw [List.map_cons, List.intercalate_cons_of_ne_nil (by simpa using hne), hprinted, printItems]
      simp

/-- The fields of a printed object, with what follows the last of them. -/
theorem exists_printedFields (depth : Nat) {blanks : List Char} (hblanks : Blanks blanks) :
    (fields : List (String × Json)) → {field : Field} → field.Valid →
      ∃ printed : List Field, printed ≠ [] ∧ (∀ field ∈ printed, field.Valid) ∧
        printed.map Field.entry = field.entry :: fieldValues fields ∧
        [','].intercalate (printed.map Field.text) =
          field.text ++ printFields depth fields ++ blanks
  | [], field, h => by
    refine ⟨[{ field with valueText := field.valueText ++ blanks }], List.cons_ne_nil _ _,
      List.forall_mem_singleton.mpr ⟨h.key, h.value.blanksAfter hblanks⟩, rfl, ?_⟩
    rw [List.map_singleton, List.intercalate_singleton, printFields, List.append_nil, Field.text,
      Field.text, List.append_assoc, List.cons_append]
  | (key, item) :: fields, field, h => by
    have hfield : (⟨lineBreak depth ++ quote key, key, ' ' :: item.print depth,
        item.value⟩ : Field).Valid :=
      ⟨(blanks_lineBreak depth).key (key_quote key), .blankBefore rfl (denotes_print depth item)⟩
    obtain ⟨printed, hne, hvalid, hvalues, hprinted⟩ :=
      exists_printedFields depth hblanks fields hfield
    refine ⟨field :: printed, List.cons_ne_nil _ _, List.forall_mem_cons.mpr ⟨h, hvalid⟩, ?_, ?_⟩
    · rw [List.map_cons, hvalues, fieldValues]
      rfl
    · rw [List.map_cons, List.intercalate_cons_of_ne_nil (by simpa using hne), hprinted,
        printFields]
      simp [Field.text]

end

/-- A document and the line feed behind it are read as what the document says. -/
theorem read_pretty (doc : Json) : read (doc.pretty ++ "\n") = some doc.value := by
  apply read_of_denotes
  have htext : (doc.pretty ++ "\n").toList = doc.print 0 ++ ['\n'] := by simp [pretty]
  rw [htext]
  exact .blankAfter rfl (denotes_print 0 doc)

end Json

/-! ### Reports -/

/-- The message tells kinds apart that have one name. -/
theorem DiagnosticKind.message_injective : Function.Injective message := by
  intro kind kind' h
  rcases kind with _ | _ | _ | _ | ⟨_ | _⟩ | _ <;>
    rcases kind' with _ | _ | _ | _ | ⟨_ | _⟩ | _ <;> first | rfl | exact absurd h (by decide)

/-- If what `f` keeps of a member determines what `g` keeps, then so for lists. -/
theorem map_eq_map_of_forall {α β γ : Type} {f : α → β} {g : α → γ}
    (h : ∀ a b, f a = f b → g a = g b) {l l' : List α} (heq : l.map f = l'.map f) :
    l.map g = l'.map g := by
  induction l generalizing l' with
  | nil =>
    rw [List.map_nil, eq_comm, List.map_eq_nil_iff] at heq
    rw [heq, List.map_nil]
  | cons a l ih =>
    obtain ⟨b, rest, rfl, hb, hrest⟩ := List.map_eq_cons_iff.mp heq.symm
    rw [List.map_cons, List.map_cons, h a b hb.symm, ih hrest.symm]

namespace Report

/-- What a document keeps of a diagnostic. -/
def diagnosticContent (d : Diagnostic) : DiagnosticKind × UInt32 := (d.kind, d.line)

/-- What a document keeps of a report. -/
def content (r : Report) : String × List String × List (DiagnosticKind × UInt32) :=
  (r.path, r.modules, r.diagnostics.map diagnosticContent)

theorem value_toJson (r : Report) :
    r.toJson.value = .object [("path", .text r.path), ("modules", .array (r.modules.map .text)),
      ("diagnostics", .array (r.diagnostics.map fun d =>
        .object [("kind", .text d.kind.name), ("message", .text d.kind.message),
          ("line", .number d.line)]))] := by
  simp only [toJson, diagnosticJson, Json.value, Json.fieldValues, Json.itemValues_eq_map,
    List.map_map, Function.comp_def]

theorem content_eq_of_value_eq {r r' : Report} (h : r.toJson.value = r'.toJson.value) :
    r.content = r'.content := by
  simp only [value_toJson, Json.Value.object.injEq, List.cons.injEq, Prod.mk.injEq, true_and,
    Json.Value.text.injEq, Json.Value.array.injEq, and_true] at h
  obtain ⟨hpath, hmodules, hdiagnostics⟩ := h
  have hmodules' : r.modules = r'.modules :=
    List.map_injective_iff.mpr (fun _ _ => Json.Value.text.inj) hmodules
  have hcontent : r.diagnostics.map diagnosticContent = r'.diagnostics.map diagnosticContent := by
    refine map_eq_map_of_forall (fun d d' heq => ?_) hdiagnostics
    simp only [Json.Value.object.injEq, List.cons.injEq, Prod.mk.injEq, true_and,
      Json.Value.text.injEq, Json.Value.number.injEq, and_true, Nat.cast_inj] at heq
    obtain ⟨-, hmessage, hline⟩ := heq
    rw [diagnosticContent, diagnosticContent, DiagnosticKind.message_injective hmessage,
      UInt32.toNat_inj.mp hline]
  rw [content, content, hpath, hmodules', hcontent]

theorem toJson_eq_of_content_eq {r r' : Report} (h : r.content = r'.content) :
    r.toJson = r'.toJson := by
  obtain ⟨hpath, hmodules, hdiagnostics⟩ : r.path = r'.path ∧ r.modules = r'.modules ∧
      r.diagnostics.map diagnosticContent = r'.diagnostics.map diagnosticContent := by
    simpa [content] using h
  have hjson : r.diagnostics.map diagnosticJson = r'.diagnostics.map diagnosticJson := by
    refine map_eq_map_of_forall (fun d d' heq => ?_) hdiagnostics
    obtain ⟨hkind, hline⟩ := Prod.mk.inj heq
    rw [diagnosticJson, diagnosticJson, hkind, hline]
  rw [toJson, toJson, hpath, hmodules, hjson]

/-- **The document loses nothing.**  A reader of JSON texts accepts it and reads an array
    with one object for each report, in order, which holds its path, its modules, and of
    each diagnostic the name of its kind, its message and its line.  So two lists of
    reports have the same document if and only if they agree on paths, modules, and the
    kinds and lines of diagnostics. -/
theorem json_lossless :
    (∀ reports : List Report, Json.read (json reports) = some (.array (reports.map fun r =>
      .object [("path", .text r.path), ("modules", .array (r.modules.map .text)),
        ("diagnostics", .array (r.diagnostics.map fun d =>
          .object [("kind", .text d.kind.name), ("message", .text d.kind.message),
            ("line", .number d.line)]))]))) ∧
    ∀ reports reports' : List Report, json reports = json reports' ↔
      reports.map content = reports'.map content := by
  have hread : ∀ reports : List Report, Json.read (json reports) =
      some (.array (reports.map fun r => r.toJson.value)) := by
    intro reports
    rw [json, Json.read_pretty, Json.value, Json.itemValues_eq_map, List.map_map]
    rfl
  refine ⟨fun reports => ?_, fun reports reports' => ⟨fun h => ?_, fun h => ?_⟩⟩
  · rw [hread]
    simp only [value_toJson]
  · have hvalues := (hread reports).symm.trans ((congrArg Json.read h).trans (hread reports'))
    exact map_eq_map_of_forall (fun r r' => content_eq_of_value_eq)
      (Json.Value.array.inj (Option.some.inj hvalues))
  · rw [json, json, map_eq_map_of_forall (fun r r' => toJson_eq_of_content_eq) h]

end Report

end ModuleScan
