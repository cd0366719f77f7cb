/-
  ModuleScan/Proofs/Pairing.lean
  ==============================
  **Two scans that go together.**

  A pairing relates the cursors of two scans in such a way that every movement of
  an attempt keeps them together, that no test tells the two current characters
  apart, and that a literal comes to the same on both sides.  Then the two scans
  make the same of every statement: a round begun at two such cursors finds the
  same on both sides, with the texts and the lines carried over (`both_round`).

  Whitespace is passed as it comes between the words of a statement.  So the two
  characters may be different ones as long as both are whitespace, and after an
  attempt it is enough that the cursors come together once whitespace is skipped
  (`Pairing.near`).
-/
import ModuleScan.Proofs.Rounds

namespace ModuleScan

/-! ### Characters that no test tells apart -/

/-- The characters are the same, or both are whitespace. -/
def Similar (a b : Option Char) : Prop :=
  a = b ∨ a.any isWhitespace = true ∧ b.any isWhitespace = true

/-- The test does not tell one whitespace character from another. -/
def WhitespaceBlind (test : Char → Bool) : Prop :=
  ∃ answer, ∀ ch, isWhitespace ch = true → test ch = answer

theorem whitespaceBlind_isWhitespace : WhitespaceBlind isWhitespace := ⟨true, fun _ h => h⟩

theorem whitespaceBlind_beq {ch : Char} (hch : isWhitespace ch = false) :
    WhitespaceBlind fun c => c == ch := by
  refine ⟨false, ?_⟩
  intro c hc
  rw [beq_eq_false_iff_ne]
  rintro rfl
  rw [hc] at hch
  cases hch

theorem WhitespaceBlind.not {test : Char → Bool} (h : WhitespaceBlind test) :
    WhitespaceBlind fun c => !test c := by
  rcases h with ⟨answer, h⟩
  exact ⟨!answer, fun c hc => by simp only [h c hc]⟩

theorem WhitespaceBlind.and {test test' : Char → Bool} (h : WhitespaceBlind test)
    (h' : WhitespaceBlind test') : WhitespaceBlind fun c => test c && test' c := by
  rcases h with ⟨answer, h⟩
  rcases h' with ⟨answer', h'⟩
  exact ⟨answer && answer', fun c hc => by simp only [h c hc, h' c hc]⟩

theorem whitespaceBlind_wordEnd : WhitespaceBlind fun c => isIdentContinue c || c == '.' := by
  refine ⟨false, ?_⟩
  intro c hc
  simp only [isIdentContinue_of_isWhitespace hc, Bool.false_or, beq_eq_false_iff_ne]
  rintro rfl
  exact absurd hc (by decide)

theorem whitespaceBlind_isQuote : WhitespaceBlind isQuote := by
  refine ⟨false, ?_⟩
  intro c hc
  rw [← Bool.not_eq_true]
  intro hq
  rw [isWhitespace_of_isQuote hq] at hc
  cases hc

namespace Similar

variable {a b : Option Char}

theorem any_eq (h : Similar a b) {test : Char → Bool} (ht : WhitespaceBlind test) :
    a.any test = b.any test := by
  rcases ht with ⟨answer, ht⟩
  rcases h with rfl | ⟨ha, hb⟩
  · rfl
  · obtain ⟨c, rfl, hc⟩ := (Option.any_eq_true _ _).mp ha
    obtain ⟨d, rfl, hd⟩ := (Option.any_eq_true _ _).mp hb
    rw [Option.any_some, Option.any_some, ht c hc, ht d hd]

theorem beq_eq (h : Similar a b) {ch : Char} (hch : isWhitespace ch = false) :
    (a == some ch) = (b == some ch) := by
  have hany : ∀ o : Option Char, (o == some ch) = o.any (· == ch) := by
    intro o
    cases o <;> rfl
  rw [hany, hany, h.any_eq (whitespaceBlind_beq hch)]

theorem eq_some_iff (h : Similar a b) {ch : Char} (hch : isWhitespace ch = false) :
    a = some ch ↔ b = some ch := by
  have hbeq := h.beq_eq hch
  constructor
  · rintro rfl
    rwa [beq_self_eq_true, eq_comm, beq_iff_eq] at hbeq
  · rintro rfl
    rwa [beq_self_eq_true, beq_iff_eq] at hbeq

theorem eq_of_not_whitespace (h : Similar a b) (ha : a.any isWhitespace = false) : a = b := by
  rcases h with rfl | ⟨hw, -⟩
  · rfl
  · rw [ha] at hw
    cases hw

theorem isNone_eq (h : Similar a b) : a.isNone = b.isNone := by
  rcases h with rfl | ⟨ha, hb⟩
  · rfl
  · obtain ⟨c, rfl, -⟩ := (Option.any_eq_true _ _).mp ha
    obtain ⟨d, rfl, -⟩ := (Option.any_eq_true _ _).mp hb
    rfl

end Similar

/-! ### Pairings -/

/-- The finding with its text and its line carried over. -/
def Finding.map (text : String → String) (line : UInt32 → UInt32) : Finding → Finding
  | .diagnostic kind l => .diagnostic kind (line l)
  | .reference t l => .reference (text t) (line l)
  | .typeOnly l => .typeOnly (line l)
  | .rejected l => .rejected (line l)

/-- Past the closing quote of the literal that opens at the cursor. -/
def Cursor.afterLiteral (quote : Char) (c : Cursor) : Cursor :=
  ((c.endOfLiteral quote).setInString false).advance

/-- Whether the brace at the cursor opens an interpolation. -/
def Cursor.interpolates (c : Cursor) : Bool := c.prev == some '$' && !c.prevEscaped

/-- Which cursors of two scans go together, and what becomes of texts and lines
    from the first scan to the second. -/
structure Pairing where
  text : String → String
  line : UInt32 → UInt32
  together : Cursor → Cursor → Prop
  /-- Only whitespace keeps the cursors from going together. -/
  near : Cursor → Cursor → Prop
  similar {c d : Cursor} : together c d → Similar c.current d.current
  line_eq {c d : Cursor} : together c d → d.line = line c.line
  interpolates_eq {c d : Cursor} : together c d → d.interpolates = c.interpolates
  advance {c d : Cursor} : together c d → c.current.any isWhitespace = false →
    together c.advance d.advance
  skipWhile {c d : Cursor} {keep : Char → Bool} : together c d → WhitespaceBlind keep →
    together (c.skipWhile fun _ ch => keep ch) (d.skipWhile fun _ ch => keep ch)
  literal_error {c d : Cursor} {quote : Char} {kind : DiagnosticKind} : together c d →
    c.current = some quote → isQuote quote = true → c.literalText quote = .error kind →
    d.literalText quote = .error kind
  literal_ok {c d : Cursor} {quote : Char} {result : String} : together c d →
    c.current = some quote → isQuote quote = true → c.literalText quote = .ok result →
    d.literalText quote = .ok (text result) ∧ near (c.afterLiteral quote) (d.afterLiteral quote)
  near_of_together {c d : Cursor} : together c d → near c d
  near_advance {c d : Cursor} : together c d → near c.advance d.advance
  near_skipWhitespace {c d : Cursor} : near c d → near c.skipWhitespace d.skipWhitespace ∧
    Similar c.skipWhitespace.current d.skipWhitespace.current ∧
    d.skipWhitespace.line = line c.skipWhitespace.line

namespace Pairing

variable (P : Pairing)

def finding (finding : Finding) : Finding := finding.map P.text P.line

def outcome : Outcome → Outcome
  | .reference text => .reference (P.text text)
  | .noMatch => .noMatch
  | .typeOnly => .typeOnly
  | .rejected => .rejected

/-- The second scan has found what the first has, besides what it had `before`. -/
def Found (before : List Finding) (s t : Scan) : Prop :=
  t.findings = s.findings.map P.finding ++ before

variable {P} {c d : Cursor}

theorem together_skipWhitespace (h : P.together c d) :
    P.together c.skipWhitespace d.skipWhitespace :=
  P.skipWhile h whitespaceBlind_isWhitespace

theorem together_eat (h : P.together c d) {word : List Char}
    (hw : ∀ ch ∈ word, isWhitespace ch = false) :
    (d.eat word).1 = (c.eat word).1 ∧ P.together (c.eat word).2 (d.eat word).2 := by
  induction word generalizing c d with
  | nil => exact ⟨rfl, h⟩
  | cons ch word ih =>
    have hch : isWhitespace ch = false := hw ch (by simp)
    rw [Cursor.eat, Cursor.eat, (P.similar h).beq_eq hch]
    split
    next hcur =>
      have hsolid : c.current.any isWhitespace = false := by
        rw [(P.similar h).any_eq whitespaceBlind_isWhitespace, beq_iff_eq.mp hcur]
        simpa using hch
      exact ih (P.advance h hsolid) fun e he => hw e (by simp [he])
    · exact ⟨rfl, h⟩

/-! ### Programs run on both sides -/

variable {α β : Type}

/-- Started at `c` and at `d`, the two programs end, keep what was found together,
    and `R` holds of the results and of the cursors they come to. -/
def Both (P : Pairing) (m m' : ScanM α) (c d : Cursor) (R : α → α → Cursor → Cursor → Prop) :
    Prop :=
  ∀ (s t : Scan) (before : List Finding), s.Sited → t.Sited → s.cursor = c → t.cursor = d →
    P.Found before s t → m.Ends s fun a s' => m'.Ends t fun b t' =>
      (s.Onward s' ∧ t.Onward t' ∧ P.Found before s' t') ∧ R a b s'.cursor t'.cursor

variable {m m' : ScanM α} {R Q : α → α → Cursor → Cursor → Prop}
  {final : β → β → Cursor → Cursor → Prop}

theorem Both.bind {f f' : α → ScanM β} (h : P.Both m m' c d Q)
    (hf : ∀ a b c' d', Q a b c' d' → P.Both (f a) (f' b) c' d' final) :
    P.Both (m >>= f) (m' >>= f') c d final := by
  intro s t before hs ht hc hd hfound
  rw [ScanM.ends_bind]
  apply (h s t before hs ht hc hd hfound).mono
  rintro a s' ⟨b, t', hm', ⟨hs', ht', hfound'⟩, hmid⟩
  apply (hf a b _ _ hmid s' t' before (hs'.sited hs) (ht'.sited ht) rfl rfl hfound').mono
  intro x s'' hends
  rw [ScanM.ends_bind, ScanM.ends_of_eq hm']
  apply hends.mono
  rintro y t'' ⟨⟨hs'', ht'', hfound''⟩, hpost⟩
  exact ⟨⟨hs'.trans hs'', ht'.trans ht'', hfound''⟩, hpost⟩

/-- Programs may be replaced by others that run alike. -/
theorem Both.of_eq {n n' : ScanM α} (h : P.Both n n' c d R)
    (hm : ∀ s : Scan, s.Sited → s.cursor = c → m s = n s)
    (hm' : ∀ t : Scan, t.Sited → t.cursor = d → m' t = n' t) : P.Both m m' c d R := by
  intro s t before hs ht hc hd hfound
  have hends := h s t before hs ht hc hd hfound
  rw [ScanM.Ends, hm s hs hc]
  apply hends.mono
  intro a s' hends'
  rwa [ScanM.Ends, hm' t ht hd]

theorem both_pure {a b : α} (h : R a b c d) : P.Both (pure a) (pure b) c d R := by
  rintro s t before - - rfl rfl hfound
  rw [ScanM.ends_pure, ScanM.ends_pure]
  exact ⟨⟨.refl s, .refl t, hfound⟩, h⟩

theorem Both.look {f f' : Cursor → ScanM β} (h : P.Both (f c) (f' d) c d final) :
    P.Both (ScanM.look >>= f) (ScanM.look >>= f') c d final := by
  rintro s t before hs ht rfl rfl hfound
  rw [ScanM.ends_bind, ScanM.ends_look]
  apply (h s t before hs ht rfl rfl hfound).mono
  intro x s' hends
  rwa [ScanM.ends_bind, ScanM.ends_look]

theorem both_read {g g' : Cursor → α × Cursor} (hc : c.Leads (g c).2) (hd : d.Leads (g' d).2)
    (h : R (g c).1 (g' d).1 (g c).2 (g' d).2) :
    P.Both (ScanM.read g) (ScanM.read g') c d R := by
  rintro s t before - - rfl rfl hfound
  rw [ScanM.ends_read, ScanM.ends_read]
  exact ⟨⟨.of_leads s hc, .of_leads t hd, hfound⟩, h⟩

theorem both_move {g : Cursor → Cursor} {R : Unit → Unit → Cursor → Cursor → Prop}
    (hc : c.Leads (g c)) (hd : d.Leads (g d)) (h : R () () (g c) (g d)) :
    P.Both (ScanM.move g) (ScanM.move g) c d R :=
  both_read hc hd h

theorem both_report {kind : DiagnosticKind} {R : Unit → Unit → Cursor → Cursor → Prop}
    (hl : d.line = P.line c.line) (h : R () () c d) :
    P.Both (ScanM.report kind) (ScanM.report kind) c d R := by
  rintro s t before - - rfl rfl hfound
  rw [ScanM.ends_report, ScanM.ends_report]
  refine ⟨⟨.of_finding s _, .of_finding t _, ?_⟩, h⟩
  rw [Found, List.map_cons, List.cons_append, ← hfound, finding, Finding.map, ← hl]

/-- On trial the two programs agree on what is worth keeping. -/
theorem Both.speculate {keep : α → Bool} (h : P.Both m m' c d Q)
    (hpost : ∀ a b c' d', Q a b c' d' →
      keep b = keep a ∧ if keep a then R a b c' d' else R a b c d) :
    P.Both (ScanM.speculate m keep) (ScanM.speculate m' keep) c d R := by
  rintro s t before hs ht rfl rfl hfound
  rw [ScanM.ends_speculate]
  apply (h s.trial t.trial before hs ht rfl rfl hfound).mono
  rintro a s' ⟨b, t', hm', ⟨hs', ht', hfound'⟩, hmid⟩
  obtain ⟨hkeep, hpost⟩ := hpost a b _ _ hmid
  have hsaved : s'.saved = s.cursor :: s.saved := hs'.saved
  have hsaved' : t'.saved = t.cursor :: t.saved := ht'.saved
  rw [hsaved]
  simp only
  rw [ScanM.ends_speculate, ScanM.ends_of_eq hm', hsaved']
  simp only
  rw [hkeep]
  cases hk : keep a with
  | true =>
    rw [hk] at hpost
    exact ⟨⟨hs'.commit, ht'.commit, hfound'⟩, hpost⟩
  | false =>
    rw [hk] at hpost
    exact ⟨⟨hs'.rewind, ht'.rewind, hfound'⟩, hpost⟩

/-! ### Literals -/

/-- The results are the same, and the cursors go together. -/
def Alike (P : Pairing) (a b : α) (c d : Cursor) : Prop := b = a ∧ P.together c d

/-- The outcomes are the same up to the text, and the cursors are near. -/
def Settled (P : Pairing) (a b : Outcome) (c d : Cursor) : Prop := b = P.outcome a ∧ P.near c d

theorem both_skipWhitespace (h : P.together c d) :
    P.Both (ScanM.move Cursor.skipWhitespace) (ScanM.move Cursor.skipWhitespace) c d P.Alike :=
  both_move (c.leads_skipWhile _) (d.leads_skipWhile _) ⟨rfl, together_skipWhitespace h⟩

theorem both_eat (h : P.together c d) {word : List Char}
    (hw : ∀ ch ∈ word, isWhitespace ch = false) :
    P.Both (ScanM.eat word) (ScanM.eat word) c d P.Alike :=
  both_read (c.leads_eat word) (d.leads_eat word) (together_eat h hw)

theorem both_onQuote (h : P.together c d) : P.Both ScanM.onQuote ScanM.onQuote c d
    fun a b c' d' => a = c.current.any isQuote ∧ b = a ∧ c' = c ∧ d' = d := by
  apply Both.look
  apply both_pure
  exact ⟨rfl, ((P.similar h).any_eq whitespaceBlind_isQuote).symm, rfl, rfl⟩

/-- A literal comes to the same on both sides. -/
theorem both_literal (h : P.together c d) (hq : c.current.any isQuote = true) :
    P.Both ScanM.literal ScanM.literal c d fun a b c' d' =>
      b = a.map P.text ∧ P.near c' d' := by
  obtain ⟨quote, hcur, hquote⟩ := (Option.any_eq_true _ _).mp hq
  have hsolid : c.current.any isWhitespace = false := by
    rw [hcur]
    exact isWhitespace_of_isQuote hquote
  have hcur' : d.current = some quote := by
    rw [← (P.similar h).eq_of_not_whitespace hsolid, hcur]
  rintro s t before hs ht rfl rfl hfound
  have hsteady := ScanM.steady_literal hs hq
  have hsteady' := ScanM.steady_literal ht (by rw [hcur']; exact hquote)
  rw [ScanM.ends_literal hs hcur hquote] at hsteady ⊢
  rw [ScanM.ends_literal ht hcur' hquote] at hsteady'
  cases hr : s.cursor.literalText quote with
  | error kind =>
    have hr' := P.literal_error h hcur hquote hr
    rw [hr] at hsteady
    rw [hr'] at hsteady'
    simp only
    rw [ScanM.ends_literal ht hcur' hquote, hr']
    refine ⟨⟨hsteady, hsteady', ?_⟩, rfl, P.near_of_together h⟩
    rw [Found, List.map_cons, List.cons_append, ← hfound, finding, Finding.map, ← P.line_eq h]
  | ok text =>
    obtain ⟨hr', hnear⟩ := P.literal_ok h hcur hquote hr
    rw [hr] at hsteady
    rw [hr'] at hsteady'
    simp only
    rw [ScanM.ends_literal ht hcur' hquote, hr']
    exact ⟨⟨hsteady, hsteady', hfound⟩, rfl, hnear⟩

theorem both_specifier (h : P.together c d) (statement : Statement) :
    P.Both (ScanM.specifier statement) (ScanM.specifier statement) c d P.Settled := by
  apply (both_onQuote h).bind
  rintro a b _ _ ⟨ha, rfl, rfl, rfl⟩
  cases b with
  | true =>
    apply (both_literal h ha.symm).bind
    rintro result _ c' d' ⟨rfl, hnear⟩
    cases result <;> exact both_pure ⟨rfl, hnear⟩
  | false =>
    apply (both_report (R := fun _ _ => P.together) (P.line_eq h) h).bind
    intro _ _ c' d' h'
    exact both_pure ⟨rfl, P.near_of_together h'⟩

/-! ### Calls -/

theorem both_callArgument (h : P.together c d) :
    P.Both ScanM.callArgument ScanM.callArgument c d P.Settled := by
  apply (both_skipWhitespace h).bind
  rintro _ _ c' d' ⟨-, h'⟩
  apply (both_onQuote h').bind
  rintro a b _ _ ⟨ha, rfl, rfl, rfl⟩
  cases b with
  | false => exact both_pure ⟨rfl, P.near_of_together h'⟩
  | true =>
    apply (both_literal h' ha.symm).bind
    rintro result _ e f ⟨rfl, hnear⟩
    cases result with
    | none => exact both_pure ⟨rfl, hnear⟩
    | some text =>
      obtain ⟨hnear', hsimilar, hline⟩ := P.near_skipWhitespace hnear
      apply Both.bind (Q := fun _ _ c' d' => c' = e.skipWhitespace ∧ d' = f.skipWhitespace)
        (both_move (e.leads_skipWhile _) (f.leads_skipWhile _) ⟨rfl, rfl⟩)
      rintro _ _ _ _ ⟨rfl, rfl⟩
      apply Both.look
      rw [hsimilar.beq_eq (by decide)]
      split
      · apply (both_report (R := fun _ _ => P.near) hline hnear').bind
        intro _ _ c' d' h''
        exact both_pure ⟨rfl, h''⟩
      · exact both_pure ⟨rfl, hnear'⟩

theorem both_call (h : P.together c d) (hb : d.followsCallBoundary = c.followsCallBoundary)
    (callee : Callee) : P.Both (ScanM.call callee) (ScanM.call callee) c d P.Settled := by
  apply Both.look
  rw [hb]
  split
  · have hw : ∀ ch ∈ callee.word ++ ['('], isWhitespace ch = false := by
      cases callee <;> exact forall_mem_of_all (by decide)
    apply (both_eat h hw).bind
    rintro _ called c' d' ⟨rfl, h'⟩
    cases called with
    | true => exact both_callArgument h'
    | false => exact both_pure ⟨rfl, P.near_of_together h'⟩
  · apply Both.bind (Q := fun _ _ => P.near)
      (both_move c.leads_advance d.leads_advance (P.near_advance h))
    intro _ _ c' d' h'
    exact both_pure ⟨rfl, h'⟩

/-! ### Bound names -/

/-- The two passes over a clause come to the same. -/
def Clauses (P : Pairing) : Clause → Clause → Prop
  | .last bindings c, .last bindings' d => bindings' = bindings ∧ P.together c d
  | .more c, .more d => P.together c d
  | _, _ => False

theorem advance_of_current {ch : Char} (h : P.together c d) (hcur : c.current = some ch)
    (hch : isWhitespace ch = false) : P.together c.advance d.advance :=
  P.advance h (by rw [hcur]; exact hch)

theorem clauses_afterNames (h : P.together c d) :
    P.Clauses (Clause.afterNames c) (Clause.afterNames d) := by
  have hskip := together_skipWhitespace h
  unfold Clause.afterNames
  rw [← (P.similar hskip).beq_eq (by decide)]
  split
  · exact hskip
  · exact ⟨rfl, hskip⟩

theorem clauses_braces (h : P.together c d) (hcur : c.current = some '{') :
    P.Clauses (Clause.braces c) (Clause.braces d) := by
  have hskip : P.together (c.skipUntil '}') (d.skipUntil '}') :=
    P.skipWhile h (whitespaceBlind_beq (by decide)).not
  have hinter := P.interpolates_eq h
  simp only [Cursor.interpolates] at hinter
  unfold Clause.braces
  rw [hinter]
  split
  · exact ⟨rfl, advance_of_current h hcur (by decide)⟩
  · simp only
    rw [← (P.similar hskip).isNone_eq]
    cases hend : (c.skipUntil '}').current with
    | none => exact ⟨rfl, hskip⟩
    | some ch =>
      obtain rfl := Cursor.skipUntil_current hend
      exact clauses_afterNames (advance_of_current hskip hend (by decide))

theorem clauses_star (h : P.together c d) (hcur : c.current = some '*') :
    P.Clauses (Clause.star c) (Clause.star d) := by
  have hafter := together_skipWhitespace (advance_of_current h hcur (by decide))
  have hword : ∀ ch ∈ ['a', 's'], isWhitespace ch = false := forall_mem_of_all (by decide)
  obtain ⟨has, heat⟩ := together_eat hafter hword
  unfold Clause.star
  simp only
  rw [has]
  split
  · exact together_skipWhitespace heat
  · exact ⟨rfl, heat⟩

theorem clauses_body (h : P.together c d) : P.Clauses (Clause.body c) (Clause.body d) := by
  have hsimilar := P.similar h
  have hnames : P.Clauses (Clause.afterNames c.skipUntilWhitespaceOrComma)
      (Clause.afterNames d.skipUntilWhitespaceOrComma) := by
    apply clauses_afterNames
    exact P.skipWhile h (whitespaceBlind_isWhitespace.not.and
      (whitespaceBlind_beq (by decide)).not)
  by_cases hw : c.current.any isWhitespace = true
  · -- whitespace on either side stands before nothing
    have hw' : d.current.any isWhitespace = true := by
      rwa [← hsimilar.any_eq whitespaceBlind_isWhitespace]
    have hbody : ∀ e : Cursor, e.current.any isWhitespace = true →
        Clause.body e = Clause.afterNames e.skipUntilWhitespaceOrComma := by
      intro e he
      unfold Clause.body
      split
      next hnone => rw [hnone] at he; cases he
      next hbrace => rw [hbrace] at he; exact absurd he (by decide)
      next hstar => rw [hstar] at he; exact absurd he (by decide)
      · rfl
    rwa [hbody c hw, hbody d hw']
  · have heq := hsimilar.eq_of_not_whitespace (by simpa using hw)
    unfold Clause.body
    rw [← heq]
    split
    · exact ⟨rfl, h⟩
    next hcur => exact clauses_braces h hcur
    next hcur => exact clauses_star h hcur
    · exact hnames

theorem clauses_read (h : P.together c d) : P.Clauses (Clause.read c) (Clause.read d) := by
  unfold Clause.read
  rw [← (P.similar h).beq_eq (by decide)]
  split
  next hcur =>
    apply clauses_body
    exact together_skipWhitespace (advance_of_current h (beq_iff_eq.mp hcur) (by decide))
  · exact clauses_body h

theorem together_bindings (h : P.together c d) :
    P.Alike (Bindings.read c).1 (Bindings.read d).1 (Bindings.read c).2 (Bindings.read d).2 := by
  fun_induction Bindings.read c generalizing d with
  | case1 c bindings c' hread =>
    have hclauses := clauses_read h
    rw [hread] at hclauses
    cases hread' : Clause.read d with
    | last bindings' d' =>
      rw [hread'] at hclauses
      rwa [Bindings.read_eq_last hread']
    | more d' =>
      rw [hread'] at hclauses
      exact hclauses.elim
  | case2 c c' hread ih =>
    have hclauses := clauses_read h
    rw [hread] at hclauses
    cases hread' : Clause.read d with
    | last bindings' d' =>
      rw [hread'] at hclauses
      exact hclauses.elim
    | more d' =>
      rw [hread'] at hclauses
      rw [Bindings.read_eq_more hread']
      exact ih hclauses

/-! ### Imports and exports -/

theorem both_importsTypes (h : P.together c d) :
    P.Both ScanM.importsTypes ScanM.importsTypes c d P.Alike := by
  apply (both_eat h (forall_mem_of_all (by decide))).bind
  rintro _ isType c' d' ⟨rfl, h'⟩
  cases isType with
  | false => exact both_pure ⟨rfl, h'⟩
  | true =>
    apply (both_eat h' (forall_mem_of_all (by decide))).bind
    rintro _ _ e f ⟨-, h''⟩
    apply Both.look
    exact both_pure ⟨((P.similar h'').any_eq whitespaceBlind_isWhitespace).symm, h''⟩

/-- The names are bound on both sides, or on neither. -/
theorem both_importBindings (h : P.together c d) :
    P.Both ScanM.importBindings ScanM.importBindings c d fun a b c' d' =>
      b = a ∧ if a = true then P.together c' d' else P.near c' d' := by
  have hbound : P.Both (ScanM.speculate (ScanM.read Bindings.read) (· != .unterminated))
      (ScanM.speculate (ScanM.read Bindings.read) (· != .unterminated)) c d P.Alike := by
    apply (both_read (Bindings.read_leads c) (Bindings.read_leads d)
      (together_bindings h)).speculate
    rintro _ bindings c' d' ⟨rfl, h'⟩
    refine ⟨rfl, ?_⟩
    split
    · exact ⟨rfl, h'⟩
    · exact ⟨rfl, h⟩
  apply hbound.bind
  rintro _ bindings c' d' ⟨rfl, h'⟩
  cases bindings with
  | complete => exact both_pure ⟨rfl, h'⟩
  | interpolated => exact both_pure ⟨rfl, P.near_of_together h'⟩
  | namespaceWithoutAlias =>
    apply (both_report (R := fun _ _ => P.together) (P.line_eq h') h').bind
    intro _ _ e f h''
    exact both_pure ⟨rfl, P.near_of_together h''⟩
  | unterminated =>
    apply (both_report (R := fun _ _ => P.together) (P.line_eq h') h').bind
    intro _ _ e f h''
    apply Both.bind (Q := fun _ _ => P.near)
      (both_move e.leads_advance f.leads_advance (P.near_advance h''))
    intro _ _ _ _ hnear
    exact both_pure ⟨rfl, hnear⟩

theorem both_importClause (h : P.together c d) :
    P.Both ScanM.importClause ScanM.importClause c d P.Settled := by
  apply (both_importsTypes h).bind
  rintro _ typesOnly c' d' ⟨rfl, h'⟩
  cases typesOnly with
  | true => exact both_pure ⟨rfl, P.near_of_together h'⟩
  | false =>
    apply (both_importBindings h').bind
    rintro _ bound e f ⟨rfl, h''⟩
    cases bound with
    | false => exact both_pure ⟨rfl, h''⟩
    | true =>
      apply (both_eat h'' (forall_mem_of_all (by decide))).bind
      rintro _ hasFrom c' d' ⟨rfl, h'⟩
      cases hasFrom with
      | true =>
        apply (both_skipWhitespace h').bind
        rintro _ _ e f ⟨-, hskip⟩
        exact both_specifier hskip .importing
      | false =>
        apply (both_report (R := fun _ _ => P.together) (P.line_eq h') h').bind
        intro _ _ e f hreport
        exact both_pure ⟨rfl, P.near_of_together hreport⟩

theorem atWordEnd_eq (h : P.together c d) : d.atWordEnd = c.atWordEnd := by
  rw [Cursor.atWordEnd, Cursor.atWordEnd, (P.similar h).any_eq whitespaceBlind_wordEnd]

theorem both_staticImport (h : P.together c d) (hs : d.statementStart = c.statementStart) :
    P.Both ScanM.staticImport ScanM.staticImport c d P.Settled := by
  apply Both.look
  rw [hs]
  split
  · apply (both_eat h (forall_mem_of_all (by decide))).bind
    rintro _ matched c' d' ⟨rfl, h'⟩
    apply Both.look
    rw [atWordEnd_eq h']
    split
    · apply (both_skipWhitespace h').bind
      rintro _ _ e f ⟨-, hskip⟩
      apply (both_onQuote hskip).bind
      rintro _ quoted _ _ ⟨-, rfl, rfl, rfl⟩
      cases quoted with
      | true => exact both_specifier hskip .importing
      | false => exact both_importClause hskip
    · exact both_pure ⟨rfl, P.near_of_together h'⟩
  · apply Both.bind (Q := fun _ _ => P.near)
      (both_move c.leads_advance d.leads_advance (P.near_advance h))
    intro _ _ c' d' h'
    exact both_pure ⟨rfl, h'⟩

theorem both_exportSource (h : P.together c d) :
    P.Both ScanM.exportSource ScanM.exportSource c d P.Settled := by
  apply (both_eat h (forall_mem_of_all (by decide))).bind
  rintro _ hasFrom c' d' ⟨rfl, h'⟩
  cases hasFrom with
  | true =>
    apply (both_skipWhitespace h').bind
    rintro _ _ e f ⟨-, hskip⟩
    exact both_specifier hskip .exporting
  | false => exact both_pure ⟨rfl, P.near_of_together h'⟩

theorem both_exportBraces (h : P.together c d) (hcur : c.current = some '{') :
    P.Both ScanM.exportBraces ScanM.exportBraces c d P.Settled := by
  have hskip : P.together (c.skipUntil '}') (d.skipUntil '}') :=
    P.skipWhile h (whitespaceBlind_beq (by decide)).not
  have hclosing := c.leads_skipWhile fun _ ch => ch != '}'
  have hclosing' := d.leads_skipWhile fun _ ch => ch != '}'
  -- the cursors stand on the closing braces, or again on the opening ones
  have hclosed : P.Both
      (ScanM.speculate (ScanM.read fun c => ((c.skipUntil '}').current.isSome, c.skipUntil '}')) id)
      (ScanM.speculate (ScanM.read fun c => ((c.skipUntil '}').current.isSome, c.skipUntil '}')) id)
      c d fun a b c' d' => b = a ∧ P.together c' d' ∧ c'.current.any isWhitespace = false := by
    apply Both.speculate (Q := fun a b c' d' => a = (c.skipUntil '}').current.isSome ∧
      b = (d.skipUntil '}').current.isSome ∧ c' = c.skipUntil '}' ∧ d' = d.skipUntil '}')
      (both_read hclosing hclosing' ⟨rfl, rfl, rfl, rfl⟩)
    rintro _ _ _ _ ⟨rfl, rfl, rfl, rfl⟩
    have hsome : (d.skipUntil '}').current.isSome = (c.skipUntil '}').current.isSome := by
      rw [← Option.not_isNone, ← Option.not_isNone, (P.similar hskip).isNone_eq]
    refine ⟨hsome, ?_⟩
    cases hend : (c.skipUntil '}').current with
    | none => exact ⟨by rw [hsome, hend], h, by rw [hcur]; decide⟩
    | some ch =>
      obtain rfl := Cursor.skipUntil_current hend
      exact ⟨by rw [hsome, hend], hskip, by decide⟩
  apply hclosed.bind
  rintro _ closed c' d' ⟨rfl, h', hsolid⟩
  apply Both.bind (Q := fun _ _ => P.together)
    (both_move c'.leads_advance d'.leads_advance (P.advance h' hsolid))
  intro _ _ e f hadvance
  cases closed with
  | true =>
    apply (both_skipWhitespace hadvance).bind
    rintro _ _ _ _ ⟨-, h''⟩
    exact both_exportSource h''
  | false => exact both_pure ⟨rfl, P.near_of_together hadvance⟩

theorem both_exportStar (h : P.together c d) (hcur : c.current = some '*') :
    P.Both ScanM.exportStar ScanM.exportStar c d P.Settled := by
  apply Both.bind (Q := fun _ _ => P.together)
    (both_move c.leads_advance d.leads_advance (advance_of_current h hcur (by decide)))
  intro _ _ c' d' hadvance
  apply (both_skipWhitespace hadvance).bind
  rintro _ _ c' d' ⟨-, hskip⟩
  apply (both_eat hskip (forall_mem_of_all (by decide))).bind
  rintro _ named e f ⟨rfl, heat⟩
  cases named with
  | false => exact both_exportSource heat
  | true =>
    apply (both_skipWhitespace heat).bind
    rintro _ _ c' d' ⟨-, hname⟩
    apply Both.bind (Q := fun _ _ => P.together)
      (both_move (c'.leads_skipWhile _) (d'.leads_skipWhile _)
        (P.skipWhile hname whitespaceBlind_isWhitespace.not))
    intro _ _ e f hafter
    apply (both_skipWhitespace hafter).bind
    rintro _ _ _ _ ⟨-, hfrom⟩
    exact both_exportSource hfrom

theorem both_exportClause (h : P.together c d) :
    P.Both ScanM.exportClause ScanM.exportClause c d P.Settled := by
  apply (both_eat h (forall_mem_of_all (by decide))).bind
  rintro _ isType c' d' ⟨rfl, h'⟩
  have hsimilar := P.similar h'
  apply Both.look
  rw [← hsimilar.any_eq whitespaceBlind_isWhitespace]
  split
  · exact both_pure ⟨rfl, P.near_of_together h'⟩
  · split
    next hcur =>
      rw [(hsimilar.eq_some_iff (by decide)).mp hcur]
      exact both_exportBraces h' hcur
    next hcur =>
      rw [(hsimilar.eq_some_iff (by decide)).mp hcur]
      exact both_exportStar h' hcur
    next hbrace hstar =>
      split
      next hcur => exact absurd ((hsimilar.eq_some_iff (by decide)).mpr hcur) hbrace
      next hcur => exact absurd ((hsimilar.eq_some_iff (by decide)).mpr hcur) hstar
      · exact both_pure ⟨rfl, P.near_of_together h'⟩

theorem both_exportFrom (h : P.together c d) (hs : d.statementStart = c.statementStart) :
    P.Both ScanM.exportFrom ScanM.exportFrom c d P.Settled := by
  apply Both.look
  rw [hs]
  split
  · apply (both_eat h (forall_mem_of_all (by decide))).bind
    rintro _ matched c' d' ⟨rfl, h'⟩
    apply Both.look
    rw [atWordEnd_eq h']
    split
    · apply (both_skipWhitespace h').bind
      rintro _ _ e f ⟨-, hskip⟩
      exact both_exportClause hskip
    · exact both_pure ⟨rfl, P.near_of_together h'⟩
  · apply Both.bind (Q := fun _ _ => P.near)
      (both_move c.leads_advance d.leads_advance (P.near_advance h))
    intro _ _ c' d' h'
    exact both_pure ⟨rfl, h'⟩

/-! ### Rounds -/

theorem outcome_bne_noMatch (outcome : Outcome) :
    (P.outcome outcome != .noMatch) = (outcome != .noMatch) := by
  cases outcome <;> rfl

theorem Both.firstOf {first second : ScanM Outcome} (h : P.Both first first c d P.Settled)
    (h' : P.Both second second c d P.Settled) :
    P.Both (ScanM.firstOf first second) (ScanM.firstOf first second) c d P.Settled := by
  have htrial : P.Both (ScanM.speculate first (· != .noMatch))
      (ScanM.speculate first (· != .noMatch)) c d fun a b c' d' =>
        b = P.outcome a ∧ if a = .noMatch then c' = c ∧ d' = d else P.near c' d' := by
    apply h.speculate
    rintro a _ c' d' ⟨rfl, hnear⟩
    refine ⟨outcome_bne_noMatch a, ?_⟩
    by_cases ha : a = .noMatch <;> simp [ha, hnear]
  apply htrial.bind
  rintro a _ c' d' ⟨rfl, hcursors⟩
  by_cases ha : a = .noMatch
  · subst ha
    obtain ⟨rfl, rfl⟩ := hcursors
    exact h'
  · rw [if_neg ha] at hcursors
    have hne : (P.outcome a == .noMatch) = false := by
      rw [← Bool.not_eq_true', ← bne, outcome_bne_noMatch]
      simpa using ha
    rw [if_neg (by simpa using ha), if_neg (by simpa using hne)]
    exact both_pure ⟨rfl, hcursors⟩

theorem both_noteOutcome {line : UInt32} {outcome : Outcome} (h : P.near c d) :
    P.Both (ScanM.noteOutcome line outcome) (ScanM.noteOutcome (P.line line) (P.outcome outcome))
      c d fun _ _ => P.near := by
  have hnote : ∀ finding : Finding, P.Both (ScanM.note finding) (ScanM.note (P.finding finding))
      c d fun _ _ => P.near := by
    rintro finding s t before - - rfl rfl hfound
    rw [ScanM.ends_note, ScanM.ends_note]
    refine ⟨⟨.of_finding s _, .of_finding t _, ?_⟩, h⟩
    rw [Found, List.map_cons, List.cons_append, ← hfound]
  cases outcome with
  | reference text => exact hnote (.reference text line)
  | noMatch => exact both_pure h
  | typeOnly => exact hnote (.typeOnly line)
  | rejected => exact hnote (.rejected line)

/-- A round makes the same of both sides if the attempts at its character do. -/
theorem both_round (h : P.together c d) {lead : Char}
    (hattempt : ∀ attempt, ScanM.attempt? lead = some attempt →
      P.Both attempt attempt c d P.Settled) :
    P.Both (ScanM.round lead) (ScanM.round lead) c d fun _ _ => P.near := by
  unfold ScanM.round
  split
  next attempt ha =>
    apply Both.look
    apply (hattempt attempt ha).bind
    rintro outcome _ c' d' ⟨rfl, hnear⟩
    rw [P.line_eq h]
    exact both_noteOutcome hnear
  · exact both_move c.leads_advance d.leads_advance (P.near_advance h)

theorem Both.reaches {s t : Scan} {before : List Finding} {lead : Char}
    (h : P.Both (ScanM.round lead) (ScanM.round lead) s.cursor t.cursor fun _ _ => P.near)
    (hs : s.Sited) (ht : t.Sited) (hfound : P.Found before s t)
    (hcur : s.cursor.current = some lead) (hcur' : t.cursor.current = some lead) :
    ∃ s' t', s.Reaches s' ∧ t.Reaches t' ∧ s.Past s' ∧ P.near s'.cursor t'.cursor ∧
      P.Found before s' t' := by
  obtain ⟨_, s', hround, _, t', hround', ⟨-, -, hfound'⟩, hnear⟩ :=
    h s t before hs ht rfl rfl hfound
  have hpast := (ScanM.passes_round lead s hs hcur).of_eq hround
  exact ⟨s', t', .round .start hcur hround, .round .start hcur' hround', hpast, hnear, hfound'⟩

/-- The cursors go together at the beginning of a round: what may begin here is the
    same on both sides. -/
structure Begins (P : Pairing) (c d : Cursor) : Prop where
  together : P.together c d
  statementStart : d.statementStart = c.statementStart
  callBoundary : d.followsCallBoundary = c.followsCallBoundary

theorem Begins.attempt (h : P.Begins c d) {lead : Char} {attempt : ScanM Outcome}
    (ha : ScanM.attempt? lead = some attempt) : P.Both attempt attempt c d P.Settled := by
  have hcall := both_call h.together h.callBoundary
  rcases ScanM.attempt?_eq_some ha with ⟨-, rfl⟩ | ⟨-, rfl⟩ | ⟨-, rfl⟩
  · exact (hcall .requireResolve).firstOf (hcall .require)
  · exact (hcall .dynamicImport).firstOf (both_staticImport h.together h.statementStart)
  · exact both_exportFrom h.together h.statementStart

/-- **A round makes the same of both sides.** -/
theorem Begins.round (h : P.Begins c d) (lead : Char) :
    P.Both (ScanM.round lead) (ScanM.round lead) c d fun _ _ => P.near :=
  both_round h.together fun _ ha => h.attempt ha

theorem Begins.reaches {s t : Scan} {before : List Finding} {lead : Char}
    (h : P.Begins s.cursor t.cursor) (hs : s.Sited) (ht : t.Sited) (hfound : P.Found before s t)
    (hcur : s.cursor.current = some lead) :
    ∃ s' t', s.Reaches s' ∧ t.Reaches t' ∧ s.Past s' ∧ P.near s'.cursor t'.cursor ∧
      P.Found before s' t' := by
  rcases P.similar h.together with heq | ⟨hw, hw'⟩
  · exact (h.round lead).reaches hs ht hfound hcur (heq ▸ hcur)
  · -- no attempt begins at whitespace
    obtain ⟨ch, hcur', hch⟩ := (Option.any_eq_true _ _).mp hw'
    rw [hcur] at hw
    have hround := ScanM.round_of_attempt?_eq_none (ScanM.attempt?_of_isWhitespace hw) s
    have hround' := ScanM.round_of_attempt?_eq_none (ScanM.attempt?_of_isWhitespace hch) t
    exact ⟨_, _, .round .start hcur hround, .round .start hcur' hround',
      (ScanM.passes_round lead s hs hcur).of_eq hround, P.near_advance h.together, hfound⟩

/-! ### One scan, paired with itself -/

/-- Cursors that are the same, with a property that movements keep. -/
def same (I : Cursor → Prop) (hadvance : ∀ c, I c → I c.advance)
    (hliteral : ∀ c quote, I c → I (c.afterLiteral quote)) : Pairing where
  text := id
  line := id
  together c d := d = c ∧ I c
  near c d := d = c ∧ I c
  similar h := Or.inl (by rw [h.1])
  line_eq h := by rw [h.1]; rfl
  interpolates_eq h := by rw [h.1]
  advance := by
    rintro c _ ⟨rfl, h⟩ -
    exact ⟨rfl, hadvance _ h⟩
  skipWhile := by
    rintro c _ keep ⟨rfl, h⟩ -
    exact ⟨rfl, Cursor.skipWhile_induction hadvance _ _ h⟩
  literal_error := by
    rintro c _ quote kind ⟨rfl, -⟩ - - hr
    exact hr
  literal_ok := by
    rintro c _ quote result ⟨rfl, h⟩ - - hr
    exact ⟨hr, rfl, hliteral _ _ h⟩
  near_of_together h := h
  near_advance := by
    rintro c _ ⟨rfl, h⟩
    exact ⟨rfl, hadvance _ h⟩
  near_skipWhitespace := by
    rintro c _ ⟨rfl, h⟩
    exact ⟨⟨rfl, Cursor.skipWhile_induction hadvance _ _ h⟩, Or.inl rfl, rfl⟩

theorem finding_same {I : Cursor → Prop} {hadvance : ∀ c, I c → I c.advance}
    {hliteral : ∀ c quote, I c → I (c.afterLiteral quote)} (found : List Finding) :
    found.map (same I hadvance hliteral).finding = found := by
  have hid : (same I hadvance hliteral).finding = id := by
    funext finding
    cases finding <;> rfl
  rw [hid, List.map_id]

end Pairing

/-- What advancing and passing a literal keep of a cursor, a run keeps. -/
theorem Scan.Reaches.keeps {I : Cursor → Prop} (hadvance : ∀ c, I c → I c.advance)
    (hliteral : ∀ c quote, I c → I (c.afterLiteral quote)) {s t : Scan} (h : s.Reaches t)
    (hs : s.Sited) (hI : I s.cursor) : I t.cursor := by
  induction h with
  | start => exact hI
  | @round t u lead ht hcur hround ih =>
    have hsited := ht.sited hs
    have hbegins : (Pairing.same I hadvance hliteral).Begins t.cursor t.cursor :=
      ⟨⟨rfl, ih⟩, rfl, rfl⟩
    have hfound : (Pairing.same I hadvance hliteral).Found [] t t := by
      rw [Pairing.Found, Pairing.finding_same, List.append_nil]
    have hboth := hbegins.round lead t t [] hsited hsited rfl rfl hfound
    obtain ⟨_, _, -, -, -, hu⟩ := hboth.of_eq hround
    exact hu

end ModuleScan
