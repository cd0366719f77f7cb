/-
  ModuleScan/Proofs/Keyword.lean
  ==============================
  **What the keyword test may leave out.**

  An attempt finds something only where one of the keywords stands in the visible
  text, and a visible keyword may have comments between its letters.  So a source
  whose visible text has no keyword holds nothing to be found
  (`scanFindings_eq_nil`), and in a source without comments the keyword test never
  changes the answer (`extract_eq_scan_of_uncommented`).  But the test looks at the
  source with its comments, so it may leave out a source that a scan finds something
  in (`extract_split_keyword`).
-/
import ModuleScan.Proofs.Passing
import ModuleScan.Proofs.Rounds
import ModuleScan.Proofs.Visits
import ModuleScan.Extraction

namespace ModuleScan

/-- A source without its comments: the characters that a scan would visit if it
    entered no literal. -/
def visibleText (source : List Char) : List Char := (Cursor.ofSource source).ahead

theorem mentionsKeyword_iff {s : List Char} :
    mentionsKeyword s = true ↔ ∃ word ∈ keywords, word <:+: s := by
  simp only [mentionsKeyword, List.any_eq_true, occursIn_iff]

/-! ### Attempts where no keyword stands -/

def Cursor.AtKeyword (c : Cursor) : Prop := ∃ word ∈ keywords, word <+: c.ahead

/-- The attempt made nothing of the text: it found nothing and stayed outside
    literals. -/
structure Scan.Unmatched (s : Scan) (outcome : Outcome) (t : Scan) : Prop where
  outcome : outcome = .noMatch
  saved : t.saved = s.saved
  findings : t.findings = s.findings
  leads : s.cursor.Leads t.cursor

namespace ScanM

variable {s : Scan}

theorem eat_eq_false (hc : s.cursor.inString = false) (hk : ¬ s.cursor.AtKeyword)
    {keyword word : List Char} (hmem : keyword ∈ keywords) (hword : keyword <+: word) :
    (s.cursor.eat word).1 = false := by
  cases he : (s.cursor.eat word).1 with
  | false => rfl
  | true =>
    have hahead := Cursor.ahead_eq_of_eat hc he
    have hfront : word <+: s.cursor.ahead := ⟨_, hahead.symm⟩
    exact absurd ⟨keyword, hmem, hword.trans hfront⟩ hk

theorem call_unmatched (callee : Callee) (hc : s.cursor.inString = false)
    (hk : ¬ s.cursor.AtKeyword) : (call callee).Ends s (s.Unmatched) := by
  have hword : ∃ keyword ∈ keywords, keyword <+: callee.word ++ ['('] := by
    cases callee <;> decide
  rcases hword with ⟨keyword, hmem, hfront⟩
  have he := eat_eq_false hc hk hmem hfront
  simp only [call, ends_bind, ends_look]
  split
  · simp only [ends_bind, ends_eat, he, Bool.false_eq_true, if_false, ends_pure]
    exact ⟨rfl, rfl, rfl, Cursor.leads_eat _ _⟩
  · simp only [ends_bind, ends_move, ends_pure]
    exact ⟨rfl, rfl, rfl, Cursor.leads_advance _⟩

theorem staticImport_unmatched (hc : s.cursor.inString = false) (hk : ¬ s.cursor.AtKeyword) :
    staticImport.Ends s (s.Unmatched) := by
  have he := eat_eq_false hc hk (by decide) (List.prefix_refl ['i', 'm', 'p', 'o', 'r', 't'])
  simp only [staticImport, ends_bind, ends_look]
  split
  · simp only [ends_bind, ends_eat, ends_look, he, Bool.false_and, Bool.false_eq_true, if_false,
      ends_pure]
    exact ⟨rfl, rfl, rfl, Cursor.leads_eat _ _⟩
  · simp only [ends_bind, ends_move, ends_pure]
    exact ⟨rfl, rfl, rfl, Cursor.leads_advance _⟩

theorem exportFrom_unmatched (hc : s.cursor.inString = false) (hk : ¬ s.cursor.AtKeyword) :
    exportFrom.Ends s (s.Unmatched) := by
  have he := eat_eq_false hc hk (by decide) (List.prefix_refl ['e', 'x', 'p', 'o', 'r', 't'])
  simp only [exportFrom, ends_bind, ends_look]
  split
  · simp only [ends_bind, ends_eat, ends_look, he, Bool.false_and, Bool.false_eq_true, if_false,
      ends_pure]
    exact ⟨rfl, rfl, rfl, Cursor.leads_eat _ _⟩
  · simp only [ends_bind, ends_move, ends_pure]
    exact ⟨rfl, rfl, rfl, Cursor.leads_advance _⟩

/-- If neither of two attempts matches, what is left is that of the second. -/
theorem firstOf_unmatched {first second : ScanM Outcome}
    (h : ∀ s : Scan, s.cursor.inString = false → ¬ s.cursor.AtKeyword →
      first.Ends s (s.Unmatched))
    (h' : ∀ s : Scan, s.cursor.inString = false → ¬ s.cursor.AtKeyword →
      second.Ends s (s.Unmatched))
    (hc : s.cursor.inString = false) (hk : ¬ s.cursor.AtKeyword) :
    (firstOf first second).Ends s (s.Unmatched) := by
  apply ends_firstOf
  apply (h s.trial hc hk).mono
  intro outcome t ht
  obtain rfl := ht.outcome
  refine ⟨ht.saved, ?_⟩
  rw [if_pos rfl]
  apply (h' (t.rewind s.cursor s.saved) hc hk).mono
  intro outcome' u hu
  exact ⟨hu.outcome, hu.saved, hu.findings.trans ht.findings, hu.leads⟩

theorem attempt_unmatched {lead : Char} {attempt : ScanM Outcome}
    (h : attempt? lead = some attempt) (hc : s.cursor.inString = false)
    (hk : ¬ s.cursor.AtKeyword) : attempt.Ends s (s.Unmatched) := by
  rcases attempt?_eq_some h with ⟨-, rfl⟩ | ⟨-, rfl⟩ | ⟨-, rfl⟩
  · exact firstOf_unmatched (fun _ => call_unmatched _) (fun _ => call_unmatched _) hc hk
  · exact firstOf_unmatched (fun _ => call_unmatched _) (fun _ => staticImport_unmatched) hc hk
  · exact exportFrom_unmatched hc hk

theorem round_unmatched (lead : Char) (hc : s.cursor.inString = false)
    (hk : ¬ s.cursor.AtKeyword) :
    (round lead).Ends s fun _ t => t.findings = s.findings ∧ s.cursor.Leads t.cursor := by
  unfold round
  split
  next attempt h =>
    simp only [ends_bind, ends_look]
    apply (attempt_unmatched h hc hk).mono
    intro outcome t ht
    obtain rfl := ht.outcome
    simp only [noteOutcome, Outcome.finding?, ends_pure]
    exact ⟨ht.findings, ht.leads⟩
  · exact ends_move.mpr ⟨rfl, Cursor.leads_advance _⟩

end ScanM

/-! ### Sources without a visible keyword -/

theorem Scan.Reaches.unmatched {source : List Char}
    (h : mentionsKeyword (visibleText source) = false) {s : Scan}
    (hs : (Scan.ofSource source).Reaches s) :
    s.findings = [] ∧ (Cursor.ofSource source).Leads s.cursor := by
  induction hs with
  | start => exact ⟨rfl, .refl⟩
  | @round t u lead ht hcur hround ih =>
    rcases ih with ⟨hfind, hleads⟩
    have hc : t.cursor.inString = false := hleads.inString
    have hk : ¬ t.cursor.AtKeyword := by
      rintro ⟨word, hmem, hword⟩
      have hwithin : word <:+: visibleText source :=
        hword.isInfix.trans (hleads.ahead_suffix rfl).isInfix
      rw [mentionsKeyword_iff.mpr ⟨word, hmem, hwithin⟩] at h
      cases h
    obtain ⟨hfind', hleads'⟩ := (ScanM.round_unmatched lead hc hk).of_eq hround
    exact ⟨hfind'.trans hfind, hleads.trans hleads'⟩

theorem scanFindings_eq_nil {source : List Char}
    (h : mentionsKeyword (visibleText source) = false) : scanFindings source = [] := by
  have hreach := Scan.reaches_finish _ (Scan.sited_ofSource source)
  rw [scanFindings, (hreach.unmatched h).1, List.reverse_nil]

/-! ### The keyword test -/

/-- The keyword test is harmless where every visible keyword stands in the source
    as it is. -/
theorem extract_eq_scan {source : String} (label : String)
    (h : mentionsKeyword (visibleText source.toList) = true →
      mentionsKeyword source.toList = true) :
    extract source label = .ofFindings label (scanFindings source.toList) := by
  unfold extract findings
  cases hk : mentionsKeyword source.toList with
  | true => rfl
  | false =>
    have hv : mentionsKeyword (visibleText source.toList) = false := by
      rw [← Bool.not_eq_true]
      intro hv
      rw [h hv] at hk
      cases hk
    rw [scanFindings_eq_nil hv]
    rfl

theorem visits_of_commentFree (p : Place) {text : List Char} (h : commentFree text [] = true) :
    (visits .code p text).map Prod.snd = text := by
  induction text generalizing p with
  | nil => rfl
  | cons c text ih =>
    rw [commentFree, List.append_nil, Bool.and_eq_true, Bool.not_eq_true'] at h
    rcases h with ⟨hopens, hfree⟩
    simp only [visits, Zone.hide?_code_eq_none hopens, List.map_cons]
    rw [Zone.afterVisible_of_ne_literal (by simp), ih _ hfree]

theorem visibleText_of_uncommented {source : List Char} (h : Uncommented source) :
    visibleText source = source := by
  have hfree : commentFree source [] = true := commentFree_of_uncommented h (by simp)
  have hopens := opensComment_of_commentFree hfree
  rw [List.append_nil] at hopens
  rw [visibleText, Cursor.ahead, Cursor.visits_of_code rfl, Cursor.ofSource_eq hopens]
  cases source with
  | nil => rfl
  | cons c rest =>
    have hvisits := visits_of_commentFree (Place.start (c :: rest)) hfree
    rw [visits, Zone.hide?_code_eq_none hopens] at hvisits
    exact hvisits

/-- In a source without comments the keyword test never changes the answer. -/
theorem extract_eq_scan_of_uncommented {source : String} (label : String)
    (h : Uncommented source.toList) :
    extract source label = .ofFindings label (scanFindings source.toList) := by
  apply extract_eq_scan
  intro hv
  rwa [visibleText_of_uncommented h] at hv

/-- **When the keyword test changes the answer.**  The answer differs from that of
    a scan exactly if the source has no keyword, its visible text has one (so that
    comments stand between the letters), and a scan finds a reference or a
    diagnostic. -/
theorem extract_ne_scan_iff (source label : String) :
    extract source label ≠ .ofFindings label (scanFindings source.toList) ↔
      mentionsKeyword source.toList = false ∧
      mentionsKeyword (visibleText source.toList) = true ∧
      Extraction.ofFindings label (scanFindings source.toList) ≠ ⟨[], []⟩ := by
  constructor
  · intro hne
    have hvisible : ¬ (mentionsKeyword (visibleText source.toList) = true →
        mentionsKeyword source.toList = true) := by
      intro h
      exact hne (extract_eq_scan label h)
    rw [Classical.not_imp, Bool.not_eq_true] at hvisible
    rcases hvisible with ⟨hv, hk⟩
    refine ⟨hk, hv, ?_⟩
    intro hempty
    apply hne
    rw [hempty, extract, findings, hk]
    rfl
  · rintro ⟨hk, -, hne⟩ heq
    apply hne
    rw [← heq, extract, findings, hk]
    rfl

/-- A comment between the letters of a keyword hides it from the keyword test,
    though not from a scan. -/
theorem extract_split_keyword :
    mentionsKeyword "im/**/port 'a'".toList = false ∧
    mentionsKeyword (visibleText "im/**/port 'a'".toList) = true ∧
    extract "im/**/port 'a'" "x.js" = ⟨[], []⟩ ∧
    Extraction.ofFindings "x.js" (scanFindings "im/**/port 'a'".toList) = ⟨["a"], []⟩ := by
  decide +kernel

end ModuleScan
