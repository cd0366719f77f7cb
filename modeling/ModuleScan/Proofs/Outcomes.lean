/-
  ModuleScan/Proofs/Outcomes.lean
  ===============================
  **What the outcome of an attempt accounts for.**

  An attempt that gives a reference has read a literal which one of five words
  introduces, and reports nothing.  An attempt that matched nothing, or types
  only, reports nothing either, and a rejected one reports at most one diagnostic,
  on the line of a place that it has come through (`attempt_accounts`).
-/
import ModuleScan.Proofs.Visits
import ModuleScan.Scan.Run

namespace ModuleScan

/-! ### Words before a literal -/

/-- The words after which a literal names a module. -/
def introducers : List (List Char) :=
  [['i', 'm', 'p', 'o', 'r', 't'], ['f', 'r', 'o', 'm'], Callee.dynamicImport.word ++ ['('],
   Callee.require.word ++ ['('], Callee.requireResolve.word ++ ['(']]

/-- The text ends with one of these words, followed only by whitespace. -/
def EndsWithIntroducer (text : List Char) : Prop :=
  ∃ head word gap, text = head ++ word ++ gap ∧ word ∈ introducers ∧
    ∀ ch ∈ gap, isWhitespace ch = true

namespace Cursor

/-- Movements lead from `c` to `q` over visible text that introduces a literal. -/
structure Introduces (c q : Cursor) : Prop where
  leads : c.Leads q
  text : ∃ visited, c.ahead = visited ++ q.ahead ∧ EndsWithIntroducer visited

theorem introduces_of_eat {c d : Cursor} (h : c.Leads d) (hc : c.inString = false)
    {word : List Char} (hw : word ∈ introducers) (he : (d.eat word).1 = true) :
    c.Introduces (d.eat word).2.skipWhitespace := by
  have hd : d.inString = false := h.inString.trans hc
  have hafter : (d.eat word).2.inString = false := (d.leads_eat word).inString.trans hd
  obtain ⟨head, hhead⟩ := h.ahead_suffix hc
  obtain ⟨gap, hgap, hws⟩ := ahead_skipWhitespace hafter
  refine ⟨(h.trans (d.leads_eat word)).skipWhile _, head ++ word ++ gap, ?_,
    head, word, gap, rfl, hw, hws⟩
  rw [← hhead, ahead_eq_of_eat hd he, hgap, List.append_assoc, List.append_assoc]

/-- A literal with this text was accepted, one that the text from `c` on introduces,
    and `d` stands behind it. -/
def Names (c : Cursor) (text : String) (d : Cursor) : Prop :=
  ∃ q quote, c.Introduces q ∧ q.current = some quote ∧ isQuote quote = true ∧
    q.literalText quote = .ok text ∧
    ((q.endOfLiteral quote).setInString false).advance.Onward d

/-- Movements lead from `c` to `d`, into literals and out of them. -/
inductive Travels (c : Cursor) : Cursor → Prop
  | refl : Travels c c
  | advance {d : Cursor} : Travels c d → Travels c d.advance
  | skipWhile {d : Cursor} (keep : Place → Char → Bool) : Travels c d → Travels c (d.skipWhile keep)
  | setInString {d : Cursor} (b : Bool) : Travels c d → Travels c (d.setInString b)

theorem Travels.trans {c d e : Cursor} (h : c.Travels d) (h' : d.Travels e) : c.Travels e := by
  induction h' with
  | refl => exact h
  | advance _ ih => exact ih.advance
  | skipWhile keep _ ih => exact ih.skipWhile keep
  | setInString b _ ih => exact ih.setInString b

theorem Travels.onward {c d : Cursor} (h : c.Travels d) : c.Onward d := by
  induction h with
  | refl => exact Onward.refl c
  | advance _ ih => exact ih.trans (onward_advance _)
  | skipWhile keep _ ih => exact ih.trans (onward_skipWhile _ keep)
  | setInString b _ ih => exact ih.trans (onward_setInString _ b)

theorem Leads.travels {c d : Cursor} (h : c.Leads d) : c.Travels d := by
  induction h with
  | refl => exact .refl
  | advance _ ih => exact ih.advance
  | skipWhile keep _ ih => exact ih.skipWhile keep

/-- Over a literal, and on to the character behind its closing quote. -/
theorem travels_literal (quote : Char) (c : Cursor) :
    c.Travels ((c.endOfLiteral quote).setInString false).advance :=
  (((Travels.refl.setInString true).advance.skipWhile _).setInString false).advance

end Cursor

/-! ### Outcomes -/

/-- At most one diagnostic was added, on the line of a cursor on the way from `s` to `t`. -/
def Scan.Reports (s t : Scan) : Prop :=
  t.findings = s.findings ∨
    ∃ kind, ∃ d : Cursor, t.findings = .diagnostic kind d.line :: s.findings ∧
      s.cursor.Travels d ∧ d.Travels t.cursor

/-- What the outcome of an attempt says about the scan it leaves.  The attempt
    began at the cursor `c` and has come to the scan `s` when it is looked at. -/
def Scan.Accounts (s : Scan) (c : Cursor) (outcome : Outcome) (t : Scan) : Prop :=
  match outcome with
  | .reference text => t.findings = s.findings ∧ c.Names text t.cursor
  | .noMatch => t.findings = s.findings
  | .typeOnly => t.findings = s.findings
  | .rejected => s.Reports t

theorem Scan.Reports.of_finding {s : Scan} (kind : DiagnosticKind) :
    s.Reports { s with findings := .diagnostic kind s.cursor.line :: s.findings } :=
  Or.inr ⟨kind, s.cursor, rfl, .refl, .refl⟩

theorem Scan.Accounts.of_later {s s' t : Scan} {c : Cursor} {outcome : Outcome}
    (h : s'.Accounts c outcome t) (hf : s'.findings = s.findings)
    (hl : s.cursor.Travels s'.cursor) : s.Accounts c outcome t := by
  cases outcome with
  | reference text => exact ⟨h.1.trans hf, h.2⟩
  | noMatch => exact Eq.trans h hf
  | typeOnly => exact Eq.trans h hf
  | rejected =>
    rcases h with h | ⟨kind, d, h, hbefore, hafter⟩
    · exact Or.inl (h.trans hf)
    · exact Or.inr ⟨kind, d, by rw [h, hf], hl.trans hbefore, hafter⟩

variable {s : Scan} {c d : Cursor}

theorem Scan.Sited.of_leads (hs : s.Sited) (h : s.cursor.Leads d) :
    ({ s with cursor := d } : Scan).Sited :=
  Cursor.In.onward hs h.onward

theorem Scan.Accounts.of_leads {outcome : Outcome} {t : Scan}
    (h : ({ s with cursor := d } : Scan).Accounts c outcome t) (hl : s.cursor.Leads d) :
    s.Accounts c outcome t :=
  h.of_later rfl hl.travels

namespace ScanM

/-! ### Literals -/

theorem specifier_accounts (statement : Statement) (hs : s.Sited) (hi : c.Introduces s.cursor) :
    (specifier statement).Ends s (s.Accounts c) := by
  simp only [specifier, ends_bind, ends_onQuote]
  split
  next hany =>
    obtain ⟨quote, hcur, hq⟩ := (Option.any_eq_true _ _).mp hany
    simp only [ends_bind, ends_literal hs hcur hq]
    split
    next kind _ => exact ends_pure.mpr (Scan.Reports.of_finding kind)
    next text htext =>
      exact ends_pure.mpr ⟨rfl, s.cursor, quote, hi, hcur, hq, htext, Cursor.Onward.refl _⟩
  · simp only [ends_bind, ends_report, ends_pure]
    exact Scan.Reports.of_finding _

theorem callArgument_accounts (hs : s.Sited) (hi : c.Introduces s.cursor.skipWhitespace) :
    callArgument.Ends s (s.Accounts c) := by
  have hskip : s.cursor.Leads s.cursor.skipWhitespace := s.cursor.leads_skipWhile _
  have hsited := hs.of_leads hskip
  simp only [callArgument, ends_bind, ends_move, ends_onQuote]
  split
  next hany =>
    obtain ⟨quote, hcur, hq⟩ := (Option.any_eq_true _ _).mp hany
    simp only [ends_bind, ends_literal hsited hcur hq]
    split
    next kind _ =>
      have hreports : Scan.Accounts { s with cursor := s.cursor.skipWhitespace } c .rejected _ :=
        Scan.Reports.of_finding kind
      exact ends_pure.mpr (hreports.of_leads hskip)
    next text htext =>
      have hafter := Cursor.leads_skipWhile
        ((s.cursor.skipWhitespace.endOfLiteral quote).setInString false).advance
        (fun _ ch => isWhitespace ch)
      simp only [ends_move, ends_look]
      split
      · have hquote := hskip.travels.trans (s.cursor.skipWhitespace.travels_literal quote)
        simp only [ends_bind, ends_report, ends_pure]
        exact Or.inr ⟨_, _, rfl, hquote.trans hafter.travels, .refl⟩
      · exact ends_pure.mpr
          ⟨rfl, s.cursor.skipWhitespace, quote, hi, hcur, hq, htext, hafter.onward⟩
  · exact ends_pure.mpr (Or.inl rfl)

/-! ### Statements -/

theorem call_accounts (callee : Callee) (hs : s.Sited) (hc : s.cursor.inString = false) :
    (call callee).Ends s (s.Accounts s.cursor) := by
  simp only [call, ends_bind, ends_look]
  split
  · simp only [ends_bind, ends_eat]
    have heat := s.cursor.leads_eat (callee.word ++ ['('])
    split
    next he =>
      have hw : callee.word ++ ['('] ∈ introducers := by
        cases callee <;> decide
      have hi := Cursor.introduces_of_eat Cursor.Leads.refl hc hw he
      exact (callArgument_accounts (hs.of_leads heat) hi).mono fun _ _ h => h.of_leads heat
    · exact ends_pure.mpr rfl
  · simp only [ends_bind, ends_move, ends_pure]
    exact rfl

theorem importsTypes_ends : importsTypes.Ends s fun _ t =>
    ∃ d, s.cursor.Leads d ∧ t = { s with cursor := d } := by
  simp only [importsTypes, ends_bind, ends_eat]
  split
  · simp only [ends_bind, ends_eat, ends_look, ends_pure]
    exact ⟨_, (s.cursor.leads_eat _).trans (Cursor.leads_eat _ _), rfl⟩
  · exact ends_pure.mpr ⟨_, s.cursor.leads_eat _, rfl⟩

theorem importBindings_ends : importBindings.Ends s fun bound t =>
    s.cursor.Leads t.cursor ∧ t.source = s.source ∧
      if bound then t.findings = s.findings else s.Reports t := by
  have hleads := Bindings.read_leads s.cursor
  simp only [importBindings, ends_bind, ends_speculate, ends_read, Scan.trial]
  cases hb : (Bindings.read s.cursor).1 with
  | complete => exact ends_pure.mpr ⟨hleads, rfl, rfl⟩
  | interpolated => exact ends_pure.mpr ⟨hleads, rfl, Or.inl rfl⟩
  | namespaceWithoutAlias =>
    simp only [ends_bind, ends_report, ends_pure]
    exact ⟨hleads, rfl, Or.inr ⟨_, _, rfl, hleads.travels, .refl⟩⟩
  | unterminated =>
    simp only [ends_bind, ends_report, ends_move, ends_pure]
    have hadvance := s.cursor.leads_advance
    exact ⟨hadvance, rfl, Or.inr ⟨_, _, rfl, .refl, hadvance.travels⟩⟩

theorem importClause_accounts (hs : s.Sited) (hc : c.inString = false) (h : c.Leads s.cursor) :
    importClause.Ends s (s.Accounts c) := by
  rw [importClause, ends_bind]
  apply importsTypes_ends.mono
  intro typesOnly t ht
  rcases ht with ⟨d, hd, rfl⟩
  split
  · exact ends_pure.mpr rfl
  rw [ends_bind]
  apply importBindings_ends.mono
  intro bound u hu
  rcases hu with ⟨hleads, hsource, hu⟩
  have hon : s.cursor.Leads u.cursor := hd.trans hleads
  split
  next hbound =>
    have hfind : u.findings = s.findings := by simpa [hbound] using hu
    have heat := u.cursor.leads_eat ['f', 'r', 'o', 'm']
    simp only [ends_bind, ends_eat]
    split
    next he =>
      have hi := Cursor.introduces_of_eat (h.trans hon) hc (by decide) he
      have hlast := hon.trans (heat.skipWhile fun _ ch => isWhitespace ch)
      simp only [ends_bind, ends_move]
      refine (specifier_accounts .importing ?_ hi).mono
        fun _ _ hv => hv.of_later hfind hlast.travels
      have hin := Cursor.In.onward hs hlast.onward
      rw [← show u.source = s.source from hsource] at hin
      exact hin
    · simp only [ends_bind, ends_report, ends_pure]
      exact Or.inr ⟨_, _, by rw [hfind], (hon.trans heat).travels, .refl⟩
  next hbound =>
    rw [if_neg hbound] at hu
    have hreports : Scan.Accounts { s with cursor := d } c .rejected u := hu
    exact ends_pure.mpr (hreports.of_leads hd)

theorem staticImport_accounts (hs : s.Sited) (hc : s.cursor.inString = false) :
    staticImport.Ends s (s.Accounts s.cursor) := by
  simp only [staticImport, ends_bind, ends_look]
  split
  · simp only [ends_bind, ends_eat, ends_look]
    split
    next hmatch =>
      have he := (Bool.and_eq_true_iff.mp hmatch).1
      have hleads := (s.cursor.leads_eat ['i', 'm', 'p', 'o', 'r', 't']).skipWhile
        fun _ ch => isWhitespace ch
      simp only [ends_bind, ends_move, ends_onQuote]
      split
      · have hi := Cursor.introduces_of_eat Cursor.Leads.refl hc (by decide) he
        exact (specifier_accounts .importing (hs.of_leads hleads) hi).mono
          fun _ _ h => h.of_leads hleads
      · exact (importClause_accounts (hs.of_leads hleads) hc hleads).mono
          fun _ _ h => h.of_leads hleads
    · exact ends_pure.mpr rfl
  · simp only [ends_bind, ends_move, ends_pure]
    exact rfl

theorem exportSource_accounts (hs : s.Sited) (hc : c.inString = false) (h : c.Leads s.cursor) :
    exportSource.Ends s (s.Accounts c) := by
  have hleads := (s.cursor.leads_eat ['f', 'r', 'o', 'm']).skipWhile fun _ ch => isWhitespace ch
  simp only [exportSource, ends_bind, ends_eat]
  split
  next he =>
    have hi := Cursor.introduces_of_eat h hc (by decide) he
    simp only [ends_bind, ends_move]
    exact (specifier_accounts .exporting (hs.of_leads hleads) hi).mono
      fun _ _ hv => hv.of_leads hleads
  · exact ends_pure.mpr rfl

theorem exportSource_accounts_of_leads (hs : s.Sited) (hc : c.inString = false)
    (h : c.Leads s.cursor) (hd : s.cursor.Leads d) :
    exportSource.Ends { s with cursor := d } (s.Accounts c) :=
  (exportSource_accounts (hs.of_leads hd) hc (h.trans hd)).mono fun _ _ hv => hv.of_leads hd

theorem exportBraces_accounts (hs : s.Sited) (hc : c.inString = false) (h : c.Leads s.cursor) :
    exportBraces.Ends s (s.Accounts c) := by
  simp only [exportBraces, ends_bind, ends_speculate, ends_read, ends_move, Scan.trial, id]
  split
  · simp only [ends_bind, ends_move]
    exact exportSource_accounts_of_leads hs hc h
      ((s.cursor.leads_skipWhile _).advance.skipWhile _)
  · exact ends_pure.mpr rfl

theorem exportStar_accounts (hs : s.Sited) (hc : c.inString = false) (h : c.Leads s.cursor) :
    exportStar.Ends s (s.Accounts c) := by
  have heat := (s.cursor.leads_advance.skipWhile fun _ ch => isWhitespace ch).trans
    (Cursor.leads_eat _ ['a', 's'])
  simp only [exportStar, ends_bind, ends_move, ends_eat]
  split
  · simp only [ends_bind, ends_move]
    exact exportSource_accounts_of_leads hs hc h (((heat.skipWhile _).skipWhile _).skipWhile _)
  · exact exportSource_accounts_of_leads hs hc h heat

theorem exportClause_accounts (hs : s.Sited) (hc : c.inString = false) (h : c.Leads s.cursor) :
    exportClause.Ends s (s.Accounts c) := by
  have heat := s.cursor.leads_eat ['t', 'y', 'p', 'e']
  simp only [exportClause, ends_bind, ends_eat, ends_look]
  split
  · exact ends_pure.mpr rfl
  · split
    · exact (exportBraces_accounts (hs.of_leads heat) hc (h.trans heat)).mono
        fun _ _ hv => hv.of_leads heat
    · exact (exportStar_accounts (hs.of_leads heat) hc (h.trans heat)).mono
        fun _ _ hv => hv.of_leads heat
    · exact ends_pure.mpr rfl

theorem exportFrom_accounts (hs : s.Sited) (hc : s.cursor.inString = false) :
    exportFrom.Ends s (s.Accounts s.cursor) := by
  simp only [exportFrom, ends_bind, ends_look]
  split
  · simp only [ends_bind, ends_eat, ends_look]
    split
    · have hleads := (s.cursor.leads_eat ['e', 'x', 'p', 'o', 'r', 't']).skipWhile
        fun _ ch => isWhitespace ch
      simp only [ends_bind, ends_move]
      exact (exportClause_accounts (hs.of_leads hleads) hc hleads).mono
        fun _ _ h => h.of_leads hleads
    · exact ends_pure.mpr rfl
  · simp only [ends_bind, ends_move, ends_pure]
    exact rfl

/-! ### Attempts -/

theorem firstOf_accounts {first second : ScanM Outcome}
    (h : ∀ s : Scan, s.Sited → s.cursor.inString = false → first.Ends s (s.Accounts s.cursor))
    (h' : ∀ s : Scan, s.Sited → s.cursor.inString = false → second.Ends s (s.Accounts s.cursor))
    (hsteady : first.Steady) (hs : s.Sited) (hc : s.cursor.inString = false) :
    (firstOf first second).Ends s (s.Accounts s.cursor) := by
  apply ends_firstOf
  apply ((h s.trial hs hc).and (hsteady s.trial hs)).mono
  rintro outcome t ⟨hacc, hon⟩
  refine ⟨hon.saved, ?_⟩
  split
  next hn =>
    subst hn
    have hrewind : s.Onward (t.rewind s.cursor s.saved) := hon.rewind
    apply (h' _ (hrewind.sited hs) hc).mono
    intro _ u hu
    exact hu.of_later hacc .refl
  · exact hacc

/-- **What an attempt accounts for.** -/
theorem attempt_accounts {lead : Char} {attempt : ScanM Outcome} (h : attempt? lead = some attempt)
    (hs : s.Sited) (hc : s.cursor.inString = false) : attempt.Ends s (s.Accounts s.cursor) := by
  rcases attempt?_eq_some h with ⟨-, rfl⟩ | ⟨-, rfl⟩ | ⟨-, rfl⟩
  · exact firstOf_accounts (fun _ => call_accounts _) (fun _ => call_accounts _)
      (steady_call _) hs hc
  · exact firstOf_accounts (fun _ => call_accounts _) (fun _ => staticImport_accounts)
      (steady_call _) hs hc
  · exact exportFrom_accounts hs hc

/-- A round at a lead character notes the outcome of its attempt, and adds nothing else
    to what the attempt found. -/
theorem round_accounts {lead : Char} {attempt : ScanM Outcome} (h : attempt? lead = some attempt)
    (hs : s.Sited) (hc : s.cursor.inString = false) :
    ∃ outcome u, attempt s = .ok (outcome, u) ∧ s.Accounts s.cursor outcome u ∧
      round lead s = .ok ((),
        { u with findings := (outcome.finding? s.cursor.line).toList ++ u.findings }) := by
  obtain ⟨outcome, u, hattempt, hacc⟩ := attempt_accounts h hs hc
  exact ⟨outcome, u, hattempt, hacc, round_of_attempt h hattempt⟩

end ScanM

end ModuleScan
