/-
  ModuleScan/Proofs/ImportVerdict.lean
  ====================================
  **A static import is never dropped in silence.**

  Once the word `import` was read at the start of a statement, the attempt says what
  it made of the rest: a module, types only, or a rejection with one diagnostic.  The
  list of names has an ending that reports nothing, at a brace that opens an
  interpolation.  It is never taken: wherever the list is read, no dollar sign stands
  right before the current character, unless that is a comma (`Clause.Ready`).
-/
import ModuleScan.Proofs.Clauses
import ModuleScan.Proofs.Faithful
import ModuleScan.Proofs.Outcomes
import ModuleScan.Proofs.Termination

namespace ModuleScan

/-! ### The character before the cursor -/

/-- Outside comments, the character passed last is no dollar sign. -/
def Zone.Undollared : Zone → Place → Prop
  | .visible, p | .code, p | .literal, p => p.prev ≠ some '$'
  | _, _ => True

theorem Zone.undollared_of_prev {p : Place} (h : p.prev ≠ some '$') (z : Zone) :
    z.Undollared p := by
  cases z <;> first | exact h | trivial

/-- A comment ends on a line terminator or on a slash. -/
theorem Zone.undollared_of_hide? {z z' : Zone} {p p' : Place} {c : Char} {rest : List Char}
    (hz : z.Fits (c :: rest)) (h : z.hide? p c rest.head? = some (z', p')) :
    z'.Undollared p' := by
  cases z with
  | visible => cases h
  | literal => cases h
  | code =>
    simp only [hide?] at h
    grind [Undollared]
  | lineComment =>
    cases h
    split
    next hnew =>
      intro hprev
      obtain rfl : c = '$' := Option.some.inj hprev
      exact absurd hnew (by decide)
    · trivial
  | blockOpening mark =>
    cases h
    trivial
  | blockComment mark =>
    cases h
    split <;> trivial
  | blockClosing mark =>
    cases h
    obtain rfl : c = '/' := Option.some.inj hz
    intro hprev
    exact absurd (Option.some.inj hprev) (by decide)

/-- A sweep that passes no visible dollar sign, and does not come to the end, leaves
    none right behind it. -/
theorem sweep_undollared {keep : Place → Char → Bool} (hkeep : ∀ p, keep p '$' = false)
    {z : Zone} {p : Place} {s : List Char} (hz : z.Fits s) (hp : z.Undollared p)
    (hne : (sweep keep z p s).2 ≠ []) : (sweep keep z p s).1.prev ≠ some '$' := by
  induction s generalizing z p with
  | nil => exact absurd rfl hne
  | cons c rest ih =>
    rw [sweep] at hne ⊢
    split at hne
    next z' p' hhide => exact ih (Zone.fits_of_hide? hhide) (Zone.undollared_of_hide? hz hhide) hne
    next hhide =>
      split at hne
      next hk =>
        have hprev : (p.pass c rest.head?).prev ≠ some '$' := by
          intro hdollar
          obtain rfl : c = '$' := Option.some.inj hdollar
          rw [hkeep p] at hk
          cases hk
        rw [if_pos hk]
        exact ih (z.fits_afterVisible rest) (Zone.undollared_of_prev hprev _) hne
      next hk =>
        rw [if_neg hk]
        cases z <;> first | exact hp | cases hhide

namespace Cursor

/-- No dollar sign stands right before the current character. -/
def Undollared (c : Cursor) : Prop := c.rest ≠ [] → c.prev ≠ some '$'

variable {c : Cursor}

theorem Undollared.not_interpolates (h : c.Undollared) {ch : Char} (hcur : c.current = some ch) :
    c.interpolates = false := by
  obtain ⟨rest, hr⟩ := current_eq_some hcur
  have hprev : c.prev ≠ some '$' := h (by rw [hr]; exact List.cons_ne_nil _ _)
  rw [interpolates, beq_eq_false_iff_ne.mpr hprev, Bool.false_and]

theorem undollared_advance {ch : Char} (hcur : c.current = some ch) (hch : ch ≠ '$') :
    c.advance.Undollared := by
  obtain ⟨rest, hr⟩ := current_eq_some hcur
  have hprev : (c.toPlace.pass ch rest.head?).prev ≠ some '$' := by
    intro hdollar
    exact hch (Option.some.inj hdollar)
  intro hne
  simp only [advance, hr] at hne ⊢
  exact sweep_undollared (fun _ => rfl) (c.zone.fits_afterVisible rest)
    (Zone.undollared_of_prev hprev _) hne

theorem Undollared.skipWhile (h : c.Undollared) {keep : Place → Char → Bool}
    (hkeep : ∀ p, keep p '$' = false) : (c.skipWhile keep).Undollared := by
  intro hne
  have hr : c.rest ≠ [] := by
    intro hnil
    apply hne
    rw [Cursor.skipWhile, moveTo_rest, hnil, sweep]
  have hfits : c.zone.Fits c.rest := by
    unfold zone
    split <;> trivial
  exact sweep_undollared hkeep hfits (Zone.undollared_of_prev (h hr) _) hne

theorem Undollared.skipWhitespace (h : c.Undollared) : c.skipWhitespace.Undollared :=
  h.skipWhile fun _ => by decide

/-- Of a word, as many characters are passed as match. -/
theorem Undollared.eat {word : List Char} (h : c.Undollared) (hword : '$' ∉ word) :
    (c.eat word).2.Undollared := by
  induction word generalizing c with
  | nil => exact h
  | cons ch word ih =>
    rw [Cursor.eat]
    split
    next hcur =>
      have hch : ch ≠ '$' := fun heq => hword (heq ▸ List.mem_cons_self ..)
      exact ih (undollared_advance (by simpa using hcur) hch)
        fun hmem => hword (List.mem_cons_of_mem _ hmem)
    · exact h

/-- Behind a text without a dollar sign stands none. -/
theorem Walks.undollared {d : Cursor} {text : List Char} (h : c.Walks text d) (hne : text ≠ [])
    (hdollar : '$' ∉ text) : d.Undollared := by
  induction h with
  | stay => exact absurd rfl hne
  | @step c d ch text hcur hrest ih =>
    rw [List.mem_cons, not_or] at hdollar
    cases text with
    | nil =>
      obtain rfl : c.advance = d := Walks.stay.unique hrest
      exact undollared_advance hcur (Ne.symm hdollar.1)
    | cons next text => exact ih (List.cons_ne_nil _ _) hdollar.2

theorem BeginsClause.undollared {statement : Statement} {d : Cursor}
    (h : c.BeginsClause statement d) : d.Undollared := by
  obtain ⟨gap, hwalks, hgap, -⟩ := h.walks
  apply hwalks.undollared
  · cases statement <;> exact List.cons_ne_nil _ _
  · rw [List.mem_append, not_or]
    refine ⟨by cases statement <;> decide, ?_⟩
    intro hmem
    exact absurd (hgap '$' hmem) (by decide)

end Cursor

/-! ### The names of an import -/

namespace Clause

/-- Where a clause begins: behind the comma that separates it from the one before. -/
def front (c : Cursor) : Cursor := if c.current == some ',' then c.advance.skipWhitespace else c

theorem read_eq_body_front (c : Cursor) : read c = body (front c) := rfl

/-- A clause may be read from here: at a comma, or away from a dollar sign. -/
def Ready (c : Cursor) : Prop := c.current = some ',' ∨ c.Undollared

variable {c d : Cursor}

theorem Ready.front (h : Ready c) : (front c).Undollared := by
  unfold Clause.front
  split
  next hcomma =>
    have hcur : c.current = some ',' := by simpa using hcomma
    exact (Cursor.undollared_advance hcur (by decide)).skipWhitespace
  next hcomma => exact h.resolve_left (by simpa using hcomma)

theorem current_of_afterNames (h : afterNames c = .more d) : d.current = some ',' := by
  unfold afterNames at h
  split at h
  next hcomma =>
    cases h
    simpa using hcomma
  · cases h

/-- Another clause follows a comma, or the word `as`. -/
theorem ready_of_body (h : body c = .more d) : Ready d := by
  unfold body at h
  split at h
  · cases h
  · unfold braces at h
    split at h
    · cases h
    · simp only at h
      split at h
      · cases h
      · exact Or.inl (current_of_afterNames h)
  next hstar =>
    have hafter := (Cursor.undollared_advance hstar (by decide)).skipWhitespace
    unfold star at h
    simp only at h
    split at h
    · cases h
      exact Or.inr (hafter.eat (by decide)).skipWhitespace
    · cases h
  · exact Or.inl (current_of_afterNames h)

theorem Continues.ready {n : Nat} (h : Continues c n d) (hc : c.Undollared) : Ready d := by
  induction h with
  | start => exact Or.inr hc
  | pass _ hread _ =>
    rw [read_eq_body_front] at hread
    exact ready_of_body hread

/-- Names in braces go up to the closing brace. -/
theorem read_of_brace (hcur : c.current = some '{') (h : c.Undollared) :
    read c = if (c.skipUntil '}').current.isNone then .last .unterminated (c.skipUntil '}')
      else afterNames (c.skipUntil '}').advance := by
  have hfront : front c = c := by
    rw [front, hcur]
    rfl
  have hinter := h.not_interpolates hcur
  rw [Cursor.interpolates] at hinter
  rw [read_eq_body_front, hfront, body, hcur]
  simp only [braces, hinter, Bool.false_eq_true, if_false]

theorem body_ne_interpolated (hbrace : c.current = some '{' → c.interpolates = false) :
    body c ≠ .last .interpolated d := by
  intro h
  unfold body at h
  split at h
  · cases h
  next hcur =>
    have hprev := hbrace hcur
    rw [Cursor.interpolates] at hprev
    simp only [braces, hprev, Bool.false_eq_true, if_false] at h
    split at h
    · cases h
    · unfold afterNames at h
      split at h <;> cases h
  · unfold star at h
    simp only at h
    split at h <;> cases h
  · unfold afterNames at h
    split at h <;> cases h

end Clause

theorem Bindings.read_ne_interpolated {c : Cursor} (h : c.Undollared) :
    (Bindings.read c).1 ≠ .interpolated := by
  obtain ⟨n, d, hcont, hlast⟩ := Clause.exists_continues_last c
  intro hinter
  rw [hinter, Clause.read_eq_body_front] at hlast
  exact Clause.body_ne_interpolated (hcont.ready h).front.not_interpolates hlast

/-! ### The statement -/

/-- The outcome says what became of the statement: a module or types only, with
    nothing reported, or a rejection with exactly one diagnostic. -/
def Scan.Answered (s : Scan) (outcome : Outcome) (t : Scan) : Prop :=
  match outcome with
  | .reference _ => t.findings = s.findings
  | .typeOnly => t.findings = s.findings
  | .rejected => ∃ kind line, t.findings = .diagnostic kind line :: s.findings
  | .noMatch => False

theorem Scan.Answered.of_findings {s s' t : Scan} {outcome : Outcome} (h : s'.Answered outcome t)
    (hf : s'.findings = s.findings) : s.Answered outcome t := by
  unfold Answered at h ⊢
  rwa [hf] at h

namespace ScanM

variable {s : Scan}

theorem specifier_answers (statement : Statement) (hs : s.Sited) :
    (specifier statement).Ends s s.Answered := by
  simp only [specifier, ends_bind, ends_onQuote]
  split
  next hany =>
    obtain ⟨quote, hcur, hq⟩ := (Option.any_eq_true _ _).mp hany
    simp only [ends_bind, ends_literal hs hcur hq]
    split
    next kind _ => exact ends_pure.mpr ⟨kind, s.cursor.line, rfl⟩
    next text _ => exact ends_pure.mpr rfl
  · simp only [ends_bind, ends_report, ends_pure]
    exact ⟨_, _, rfl⟩

theorem importsTypes_undollared (h : s.cursor.Undollared) :
    importsTypes.Ends s fun _ t => t.cursor.Undollared := by
  have htype : (s.cursor.eat ['t', 'y', 'p', 'e']).2.Undollared := h.eat (by decide)
  simp only [importsTypes, ends_bind, ends_eat]
  split
  · simp only [ends_bind, ends_eat, ends_look, ends_pure]
    exact htype.eat (by decide)
  · exact ends_pure.mpr htype

/-- The list of names is read in full and nothing is reported, or one diagnostic says
    what is wrong with it. -/
theorem importBindings_answers (h : s.cursor.Undollared) :
    importBindings.Ends s fun bound t =>
      if bound then t.findings = s.findings else s.Answered .rejected t := by
  have hinter := Bindings.read_ne_interpolated h
  simp only [importBindings, ends_bind, ends_speculate, ends_read, Scan.trial]
  cases hb : (Bindings.read s.cursor).1 with
  | complete => exact ends_pure.mpr rfl
  | interpolated => exact absurd hb hinter
  | namespaceWithoutAlias =>
    simp only [ends_bind, ends_report, ends_pure]
    exact ⟨_, _, rfl⟩
  | unterminated =>
    simp only [ends_bind, ends_report, ends_move, ends_pure]
    exact ⟨_, _, rfl⟩

theorem importClause_answers (hs : s.Sited) (h : s.cursor.Undollared) :
    importClause.Ends s s.Answered := by
  rw [importClause, ends_bind]
  apply ((importsTypes_undollared h).and importsTypes_ends).mono
  rintro typesOnly t ⟨hafter, d, hleads, rfl⟩
  split
  · exact ends_pure.mpr rfl
  rw [ends_bind]
  apply ((importBindings_answers hafter).and (steady_importBindings _ (hs.of_leads hleads))).mono
  rintro bound u ⟨hu, honward⟩
  split
  next hbound =>
    rw [if_pos hbound] at hu
    have husited : u.Sited := honward.sited (hs.of_leads hleads)
    have hfrom := u.cursor.leads_eat ['f', 'r', 'o', 'm']
    simp only [ends_bind, ends_eat]
    split
    · simp only [ends_bind, ends_move]
      apply (specifier_answers .importing (husited.of_leads (hfrom.skipWhile _))).mono
      intro outcome v hv
      exact hv.of_findings hu
    · simp only [ends_bind, ends_report, ends_pure]
      exact ⟨_, _, by rw [hu]⟩
  next hbound =>
    rw [if_neg hbound] at hu
    exact ends_pure.mpr hu

/-- **A static import is never dropped in silence.**  At the start of a statement, where
    the whole word `import` stands, the attempt names a module or finds types only, and
    reports nothing, or it is rejected with exactly one diagnostic.  Wherever the list of
    names meets a brace, that brace opens no interpolation, so the list never ends on
    one. -/
theorem staticImport_answers {d : Cursor} (hs : s.Sited) (hstart : s.cursor.statementStart = true)
    (hword : s.cursor.eat ['i', 'm', 'p', 'o', 'r', 't'] = (true, d))
    (hend : d.atWordEnd = true) :
    staticImport.Ends s s.Answered ∧
      importsTypes.Ends { s with cursor := d.skipWhitespace } fun _ t =>
        (∀ n e, Clause.Continues t.cursor n e → (Clause.front e).current = some '{' →
          (Clause.front e).interpolates = false) ∧
        (Bindings.read t.cursor).1 ≠ .interpolated := by
  have hwalks := Cursor.eat_eq_true_iff.mp hword
  have hd : d.Undollared := hwalks.undollared (by simp) (by decide)
  have hsited : ({ s with cursor := d.skipWhitespace } : Scan).Sited :=
    hs.of_leads (hwalks.leads.skipWhile _)
  constructor
  · rw [ends_staticImport_of_word hstart hword hend]
    split
    · exact specifier_answers .importing hsited
    · exact importClause_answers hsited hd.skipWhitespace
  · apply (importsTypes_undollared hd.skipWhitespace).mono
    intro typesOnly t ht
    refine ⟨?_, Bindings.read_ne_interpolated ht⟩
    intro n e hcont hcur
    exact (hcont.ready ht).front.not_interpolates hcur

/-- A dollar sign as a name, and one at the end of the comment before the brace. -/
theorem staticImport_answers_dollar :
    let s := Scan.ofSource "import $, //$\n\x7ba".toList
    let d := (s.cursor.eat ['i', 'm', 'p', 'o', 'r', 't']).2
    s.Sited ∧ s.cursor.statementStart = true ∧
      s.cursor.eat ['i', 'm', 'p', 'o', 'r', 't'] = (true, d) ∧ d.atWordEnd = true ∧
      staticImport.Ends s s.Answered ∧
      importsTypes.Ends { s with cursor := d.skipWhitespace } fun _ t =>
        (∀ n e, Clause.Continues t.cursor n e → (Clause.front e).current = some '{' →
          (Clause.front e).interpolates = false) ∧
        (Bindings.read t.cursor).1 ≠ .interpolated :=
  ⟨Scan.sited_ofSource _, rfl, rfl, rfl, staticImport_answers (Scan.sited_ofSource _) rfl rfl rfl⟩

end ScanM

end ModuleScan
