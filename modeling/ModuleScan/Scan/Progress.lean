/-
  ModuleScan/Scan/Progress.lean
  =============================
  **Attempts meet no fault, close what they save, and move forward.**

  A scan is sited when its cursor stands in its source.  Every attempt ends on
  every sited scan, leaves the saved cursors as they were, moves the cursor
  onward, leaves no literal open and takes back no finding.  An attempt at a lead
  character passes that character, whatever it makes of the text; this is why a
  scan ends.
-/
import ModuleScan.Scan.Call
import ModuleScan.Scan.Export
import ModuleScan.Scan.Ends

namespace ModuleScan

/-! ### Sited scans -/

/-- The cursor stands in the source: the text before it has as many bytes as its
    offset says, and the text from it on is what is left to read. -/
def Cursor.In (c : Cursor) (source : List Char) : Prop :=
  ∃ before, source = before ++ c.rest ∧ c.offset = utf8Length before

theorem Cursor.In.onward {c d : Cursor} {source : List Char} (h : c.In source)
    (hcd : c.Onward d) : d.In source := by
  rcases h with ⟨before, hs, hoff⟩
  rcases hcd with ⟨text, hrest, hoff'⟩
  exact ⟨before ++ text, by rw [hs, hrest, List.append_assoc],
    by rw [hoff', hoff, utf8Length_append]⟩

theorem Cursor.In.isBoundary {c : Cursor} {source : List Char} (h : c.In source) :
    isBoundary source c.offset = true := by
  rcases h with ⟨before, hs, hoff⟩
  exact isBoundary_iff.mpr ⟨before, c.rest, hs, hoff.symm⟩

theorem Cursor.in_ofSource (source : List Char) : (Cursor.ofSource source).In source := by
  obtain ⟨text, hrest, hoff⟩ :=
    sweep_onward (fun _ _ => false) .code (Place.start source) source
  refine ⟨text, ?_, ?_⟩
  · simpa [Cursor.ofSource] using hrest
  · simpa [Cursor.ofSource, Place.start] using hoff

def Scan.Sited (s : Scan) : Prop := s.cursor.In s.source

theorem Scan.sited_ofSource (source : List Char) : (Scan.ofSource source).Sited :=
  Cursor.in_ofSource source

/-! ### Scans that come after a scan -/

/-- The scan `t` may come after `s`: the same cursors are saved, the cursor has
    moved onward in the same source, no literal stays open, and no finding is
    lost. -/
structure Scan.Onward (s t : Scan) : Prop where
  saved : t.saved = s.saved
  source : t.source = s.source
  cursor : s.cursor.Onward t.cursor
  inString : s.cursor.inString = false → t.cursor.inString = false
  findings : s.findings <:+ t.findings

structure Scan.Past (s t : Scan) : Prop extends Scan.Onward s t where
  less : t.cursor.rest.length < s.cursor.rest.length

theorem Scan.Onward.refl (s : Scan) : s.Onward s :=
  ⟨rfl, rfl, Cursor.Onward.refl _, id, List.suffix_refl _⟩

theorem Scan.Onward.trans {s t u : Scan} (h : s.Onward t) (h' : t.Onward u) : s.Onward u where
  saved := h'.saved.trans h.saved
  source := h'.source.trans h.source
  cursor := h.cursor.trans h'.cursor
  inString := fun hs => h'.inString (h.inString hs)
  findings := h.findings.trans h'.findings

theorem Scan.Onward.sited {s t : Scan} (h : s.Onward t) (hs : s.Sited) : t.Sited := by
  have ht := Cursor.In.onward hs h.cursor
  rwa [← h.source] at ht

theorem Scan.Onward.trans_past {s t u : Scan} (h : s.Onward t) (h' : t.Past u) : s.Past u :=
  ⟨h.trans h'.toOnward, Nat.lt_of_lt_of_le h'.less h.cursor.length_le⟩

theorem Scan.Past.trans_onward {s t u : Scan} (h : s.Past t) (h' : t.Onward u) : s.Past u :=
  ⟨h.toOnward.trans h', Nat.lt_of_le_of_lt h'.cursor.length_le h.less⟩

theorem Scan.Onward.of_leads (s : Scan) {c : Cursor} (h : s.cursor.Leads c) :
    s.Onward { s with cursor := c } :=
  ⟨rfl, rfl, h.onward, fun hs => h.inString.trans hs, List.suffix_refl _⟩

theorem Scan.Onward.of_finding (s : Scan) (finding : Finding) :
    s.Onward { s with findings := finding :: s.findings } :=
  ⟨rfl, rfl, Cursor.Onward.refl _, id, List.suffix_cons _ _⟩

theorem Scan.Onward.commit {s t : Scan} (h : s.trial.Onward t) : s.Onward (t.commit s.saved) :=
  ⟨rfl, h.source, h.cursor, h.inString, h.findings⟩

theorem Scan.Onward.rewind {s t : Scan} (h : s.trial.Onward t) :
    s.Onward (t.rewind s.cursor s.saved) :=
  ⟨rfl, h.source, Cursor.Onward.refl _, id, h.findings⟩

namespace ScanM

variable {α β : Type}

/-! ### Steady programs -/

/-- The program ends on every sited scan, and what it leaves may come after. -/
def Steady (m : ScanM α) : Prop := ∀ s : Scan, s.Sited → m.Ends s fun _ t => s.Onward t

theorem Steady.bind {m : ScanM α} {f : α → ScanM β} (hm : m.Steady) (hf : ∀ a, (f a).Steady) :
    (m >>= f).Steady := by
  intro s hs
  rw [ends_bind]
  apply (hm s hs).mono
  intro a t ht
  apply (hf a t (ht.sited hs)).mono
  intro _ u hu
  exact ht.trans hu

theorem Steady.ite {p : Prop} [Decidable p] {m m' : ScanM α} (hm : m.Steady) (hm' : m'.Steady) :
    (if p then m else m').Steady := by
  split
  · exact hm
  · exact hm'

theorem steady_pure (a : α) : (pure a : ScanM α).Steady := by
  intro s _
  simpa using Scan.Onward.refl s

theorem steady_look : look.Steady := by
  intro s _
  simpa using Scan.Onward.refl s

theorem steady_read {f : Cursor → α × Cursor} (hf : ∀ c : Cursor, c.Leads (f c).2) :
    (read f).Steady := by
  intro s _
  simpa using Scan.Onward.of_leads s (hf s.cursor)

theorem steady_move {f : Cursor → Cursor} (hf : ∀ c : Cursor, c.Leads (f c)) : (move f).Steady :=
  steady_read hf

theorem steady_advance : (move Cursor.advance).Steady := steady_move Cursor.leads_advance

theorem steady_skipWhitespace : (move Cursor.skipWhitespace).Steady :=
  steady_move fun c => c.leads_skipWhile _

theorem steady_eat (word : List Char) : (eat word).Steady := steady_read fun c => c.leads_eat word

theorem steady_note (finding : Finding) : (note finding).Steady := by
  intro s _
  simpa using Scan.Onward.of_finding s finding

theorem steady_report (kind : DiagnosticKind) : (report kind).Steady :=
  steady_look.bind fun _ => steady_note _

/-- Reading on trial closes its own save, so that nothing of it remains but what
    was found. -/
theorem Steady.speculate {m : ScanM α} (hm : m.Steady) (keep : α → Bool) :
    (speculate m keep).Steady := by
  intro s hs
  rw [ends_speculate]
  apply (hm s.trial hs).mono
  intro a t ht
  have hsaved : t.saved = s.cursor :: s.saved := ht.saved
  rw [hsaved]
  cases keep a with
  | true => exact ht.commit
  | false => exact ht.rewind

/-! ### Literals -/

end ScanM

def Cursor.enterLiteral (c : Cursor) : Cursor := (c.setInString true).advance

/-- The cursor where a literal ends, or where it goes wrong. -/
def Cursor.endOfLiteral (quote : Char) (c : Cursor) : Cursor :=
  c.enterLiteral.skipWhile (continuesLiteral quote)

def Cursor.literalText (quote : Char) (c : Cursor) : Except DiagnosticKind String :=
  match (c.endOfLiteral quote).current with
  | none => .error .unterminatedSpecifier
  | some ch =>
    if ch == quote then
      .ok (String.ofList ((c.endOfLiteral quote).textSince c.enterLiteral.mark))
    else .error .dynamicSpecifier

theorem Cursor.onward_enterLiteral (c : Cursor) : c.Onward c.enterLiteral :=
  (c.onward_setInString true).trans (onward_advance _)

theorem Cursor.onward_endOfLiteral (quote : Char) (c : Cursor) :
    c.Onward (c.endOfLiteral quote) :=
  c.onward_enterLiteral.trans (onward_skipWhile _ _)

namespace ScanM

theorem ends_literalText {quote : Char} {s : Scan} (hs : s.Sited)
    {post : Except DiagnosticKind String → Scan → Prop} :
    (literalText quote).Ends s post ↔
      post (s.cursor.literalText quote) { s with cursor := s.cursor.endOfLiteral quote } := by
  have hopen := Cursor.In.onward hs s.cursor.onward_enterLiteral
  have hclose := Cursor.In.onward hs (s.cursor.onward_endOfLiteral quote)
  have hle : s.cursor.enterLiteral.offset ≤ (s.cursor.endOfLiteral quote).offset :=
    (Cursor.onward_skipWhile _ _).offset_le
  have hcut : ∀ post : List Char → Scan → Prop,
      (cut s.cursor.enterLiteral.mark).Ends { s with cursor := s.cursor.endOfLiteral quote } post ↔
        post ((s.cursor.endOfLiteral quote).textSince s.cursor.enterLiteral.mark)
          { s with cursor := s.cursor.endOfLiteral quote } := by
    intro post
    exact ends_cut hle hopen.isBoundary hclose.isBoundary
  simp only [literalText, ends_bind, ends_move, ends_look]
  change (ScanM.Ends (match (s.cursor.endOfLiteral quote).current with
    | none => _
    | some c => _) { s with cursor := s.cursor.endOfLiteral quote } post) ↔ _
  cases hcur : (s.cursor.endOfLiteral quote).current with
  | none => simp [Cursor.literalText, hcur]
  | some ch =>
    by_cases hq : ch = quote
    · simp only [hq, beq_self_eq_true, if_true, ends_bind, Cursor.literalText, hcur]
      exact (hcut _).trans (by simp)
    · simp [Cursor.literalText, hcur, hq]

/-- A literal that names no module leaves nothing behind but its diagnostic. -/
theorem ends_literal {s : Scan} (hs : s.Sited) {quote : Char} (hc : s.cursor.current = some quote)
    (hq : isQuote quote = true) {post : Option String → Scan → Prop} :
    literal.Ends s post ↔
      match s.cursor.literalText quote with
      | .error kind => post none { s with findings := .diagnostic kind s.cursor.line :: s.findings }
      | .ok text =>
        post (some text)
          { s with cursor := ((s.cursor.endOfLiteral quote).setInString false).advance } := by
  have hfilter : s.cursor.current.filter isQuote = some quote := by
    rw [hc, Option.filter_some, if_pos hq]
  have htrial : s.trial.Sited := hs
  simp only [literal, ends_bind, ends_look, hfilter, ends_speculate, ends_literalText htrial]
  cases hr : s.cursor.literalText quote with
  | error kind => simp [Scan.trial, hr, Except.isOk, Except.toBool, Scan.rewind]
  | ok text => simp [Scan.trial, hr, Except.isOk, Except.toBool, Scan.commit]

/-! ### The attempts are steady -/

theorem steady_literal {s : Scan} (hs : s.Sited) (hq : s.cursor.current.any isQuote = true) :
    literal.Ends s fun _ t => s.Onward t := by
  obtain ⟨quote, hc⟩ : ∃ quote, s.cursor.current = some quote := by
    cases hc : s.cursor.current with
    | none => simp [hc] at hq
    | some quote => exact ⟨quote, rfl⟩
  rw [ends_literal hs hc (by simpa [hc] using hq)]
  split
  · exact Scan.Onward.of_finding s _
  · refine ⟨rfl, rfl, ?_, fun _ => by simp, List.suffix_refl _⟩
    exact (s.cursor.onward_endOfLiteral quote).trans
      ((Cursor.onward_setInString _ false).trans (Cursor.onward_advance _))

@[simp] theorem ends_onQuote {s : Scan} {post : Bool → Scan → Prop} :
    onQuote.Ends s post ↔ post (s.cursor.current.any isQuote) s := by
  simp [onQuote]

theorem steady_onQuote : onQuote.Steady := steady_look.bind fun _ => steady_pure _

theorem Steady.ite_onQuote {f : Option String → ScanM α} {m : ScanM α}
    (hf : ∀ result, (f result).Steady) (hm : m.Steady) :
    (onQuote >>= fun quoted => if quoted then literal >>= f else m).Steady := by
  intro s hs
  rw [ends_bind, ends_onQuote]
  split
  next hq =>
    rw [ends_bind]
    apply (steady_literal hs hq).mono
    intro result t ht
    apply (hf result t (ht.sited hs)).mono
    intro _ u hu
    exact ht.trans hu
  · exact hm s hs

theorem steady_specifier (statement : Statement) : (specifier statement).Steady := by
  apply Steady.ite_onQuote
  · intro result
    cases result <;> exact steady_pure _
  · exact (steady_report _).bind fun _ => steady_pure _

theorem steady_callArgument : callArgument.Steady := by
  apply steady_skipWhitespace.bind
  intro _
  apply Steady.ite_onQuote
  · intro result
    cases result with
    | none => exact steady_pure _
    | some text =>
      exact steady_skipWhitespace.bind fun _ => steady_look.bind fun _ =>
        ((steady_report _).bind fun _ => steady_pure _).ite (steady_pure _)
  · exact steady_pure _

theorem steady_importBindings : importBindings.Steady := by
  apply ((steady_read Bindings.read_leads).speculate _).bind
  intro bindings
  cases bindings with
  | complete => exact steady_pure _
  | interpolated => exact steady_pure _
  | namespaceWithoutAlias => exact (steady_report _).bind fun _ => steady_pure _
  | unterminated =>
    exact (steady_report _).bind fun _ => steady_advance.bind fun _ => steady_pure _

theorem steady_importsTypes : importsTypes.Steady := by
  apply (steady_eat _).bind
  intro _
  apply Steady.ite _ (steady_pure _)
  exact (steady_eat _).bind fun _ => steady_look.bind fun _ => steady_pure _

theorem steady_importClause : importClause.Steady := by
  apply steady_importsTypes.bind
  intro _
  apply (steady_pure _).ite
  apply steady_importBindings.bind
  intro _
  apply Steady.ite _ (steady_pure _)
  apply (steady_eat _).bind
  intro _
  apply Steady.ite
  · exact steady_skipWhitespace.bind fun _ => steady_specifier _
  · exact (steady_report _).bind fun _ => steady_pure _

theorem steady_exportSource : exportSource.Steady := by
  apply (steady_eat _).bind
  intro _
  apply Steady.ite _ (steady_pure _)
  exact steady_skipWhitespace.bind fun _ => steady_specifier _

theorem steady_exportBraces : exportBraces.Steady := by
  apply ((steady_read fun c => c.leads_skipWhile _).speculate _).bind
  intro _
  apply steady_advance.bind
  intro _
  apply Steady.ite _ (steady_pure _)
  exact steady_skipWhitespace.bind fun _ => steady_exportSource

theorem steady_exportStar : exportStar.Steady := by
  apply steady_advance.bind
  intro _
  apply steady_skipWhitespace.bind
  intro _
  apply (steady_eat _).bind
  intro _
  apply Steady.ite _ steady_exportSource
  exact steady_skipWhitespace.bind fun _ =>
    (steady_move fun c => c.leads_skipWhile _).bind fun _ =>
    steady_skipWhitespace.bind fun _ => steady_exportSource

theorem steady_exportClause : exportClause.Steady := by
  apply (steady_eat _).bind
  intro _
  apply steady_look.bind
  intro c
  apply (steady_pure _).ite
  split
  · exact steady_exportBraces
  · exact steady_exportStar
  · exact steady_pure _

theorem steady_call (callee : Callee) : (call callee).Steady := by
  apply steady_look.bind
  intro _
  apply Steady.ite
  · exact (steady_eat _).bind fun _ => steady_callArgument.ite (steady_pure _)
  · exact steady_advance.bind fun _ => steady_pure _

theorem steady_staticImport : staticImport.Steady := by
  apply steady_look.bind
  intro _
  apply Steady.ite
  · apply (steady_eat _).bind
    intro _
    apply steady_look.bind
    intro _
    apply Steady.ite _ (steady_pure _)
    exact steady_skipWhitespace.bind fun _ => steady_onQuote.bind fun _ =>
      (steady_specifier _).ite steady_importClause
  · exact steady_advance.bind fun _ => steady_pure _

theorem steady_exportFrom : exportFrom.Steady := by
  apply steady_look.bind
  intro _
  apply Steady.ite
  · apply (steady_eat _).bind
    intro _
    apply steady_look.bind
    intro _
    apply Steady.ite _ (steady_pure _)
    exact steady_skipWhitespace.bind fun _ => steady_exportClause
  · exact steady_advance.bind fun _ => steady_pure _

/-! ### An attempt passes its lead character -/

/-- The program passes the lead character `lead`. -/
def Passes (lead : Char) (m : ScanM α) : Prop :=
  ∀ s : Scan, s.Sited → s.cursor.current = some lead → m.Ends s fun _ t => s.Past t

theorem Passes.bind {lead : Char} {m : ScanM α} {f : α → ScanM β} (hm : m.Passes lead)
    (hf : ∀ a, (f a).Steady) : (m >>= f).Passes lead := by
  intro s hs hc
  rw [ends_bind]
  apply (hm s hs hc).mono
  intro a t ht
  apply (hf a t (ht.sited hs)).mono
  intro _ u hu
  exact ht.trans_onward hu

theorem Passes.ite {lead : Char} {p : Prop} [Decidable p] {m m' : ScanM α} (hm : m.Passes lead)
    (hm' : m'.Passes lead) : (if p then m else m').Passes lead := by
  split
  · exact hm
  · exact hm'

theorem Passes.look {lead : Char} {f : Cursor → ScanM α} (hf : ∀ c, (f c).Passes lead) :
    (look >>= f).Passes lead := by
  intro s hs hc
  rw [ends_bind, ends_look]
  exact hf s.cursor s hs hc

theorem passes_advance (lead : Char) : (move Cursor.advance).Passes lead := by
  intro s _ hc
  simpa using (⟨.of_leads s s.cursor.leads_advance, Cursor.advance_lt hc⟩ : Scan.Past s _)

theorem passes_eat (lead : Char) (word : List Char) : (eat (lead :: word)).Passes lead := by
  intro s _ hc
  simpa using (⟨.of_leads s (s.cursor.leads_eat _), Cursor.eat_lt hc word⟩ : Scan.Past s _)

/-- Of two attempts the second starts where the first did, so it is enough that
    both pass the lead character. -/
theorem Passes.firstOf {lead : Char} {first second : ScanM Outcome} (h : first.Passes lead)
    (h' : second.Passes lead) : (firstOf first second).Passes lead := by
  intro s hs hc
  apply ends_firstOf
  apply (h s.trial hs hc).mono
  intro outcome t ht
  refine ⟨ht.saved, ?_⟩
  split
  · have hon : s.Onward (t.rewind s.cursor s.saved) := ht.rewind
    apply (h' _ (hon.sited hs) hc).mono
    intro _ u hu
    exact hon.trans_past hu
  · exact ⟨ht.commit, ht.less⟩

theorem passes_call {lead : Char} {callee : Callee} (h : callee.word.head? = some lead) :
    (call callee).Passes lead := by
  obtain ⟨word, hw⟩ := List.head?_eq_some_iff.mp h
  apply Passes.look
  intro c
  apply Passes.ite
  · rw [hw, List.cons_append]
    exact (passes_eat lead _).bind fun _ => steady_callArgument.ite (steady_pure _)
  · exact (passes_advance lead).bind fun _ => steady_pure _

theorem passes_staticImport : staticImport.Passes 'i' := by
  apply Passes.look
  intro c
  apply Passes.ite
  · apply (passes_eat 'i' _).bind
    intro _
    apply steady_look.bind
    intro _
    apply Steady.ite _ (steady_pure _)
    exact steady_skipWhitespace.bind fun _ => steady_onQuote.bind fun _ =>
      (steady_specifier _).ite steady_importClause
  · exact (passes_advance 'i').bind fun _ => steady_pure _

theorem passes_exportFrom : exportFrom.Passes 'e' := by
  apply Passes.look
  intro c
  apply Passes.ite
  · apply (passes_eat 'e' _).bind
    intro _
    apply steady_look.bind
    intro _
    apply Steady.ite _ (steady_pure _)
    exact steady_skipWhitespace.bind fun _ => steady_exportClause
  · exact (passes_advance 'e').bind fun _ => steady_pure _

end ScanM

end ModuleScan
