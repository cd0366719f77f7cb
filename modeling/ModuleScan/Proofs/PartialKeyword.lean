/-
  ModuleScan/Proofs/PartialKeyword.lean
  =====================================
  **What a keyword that is not there in full takes with it.**

  Where a keyword is only begun, the letters that did match stay passed, and no
  round begins at any of them.  Behind a letter no statement and no call begins, so
  nothing is lost, unless a line comment ends between two of the letters: then a
  statement may well begin at the second (`Scan.Reaches.misses_keyword`).
-/
import Mathlib.Logic.Function.Iterate
import ModuleScan.Extraction
import ModuleScan.Proofs.Faithful
import ModuleScan.Proofs.Inert

namespace ModuleScan

/-! ### Line comments between two characters -/

/-- Whether the character ends a line comment. -/
def Zone.endsLine : Zone → Char → Bool
  | .lineComment, c => isNewline c
  | _, _ => false

/-- Whether a line comment ends before the next visible character. -/
def lineEndsBefore : Zone → Place → List Char → Bool
  | _, _, [] => false
  | z, p, c :: rest =>
    match z.hide? p c rest.head? with
    | some (z', p') => z.endsLine c || lineEndsBefore z' p' rest
    | none => false

/-- Whether a line comment ends between the current character and the next one. -/
def Cursor.crossesLine (c : Cursor) : Bool :=
  match c.rest with
  | [] => false
  | ch :: rest => lineEndsBefore .code (c.toPlace.pass ch rest.head?) rest

/-- Whether a statement or a call may begin at the current character. -/
def Place.mayBegin (p : Place) : Bool := p.statementStart || p.followsCallBoundary

/-- Whether a name goes on behind the character: no statement and no call begins
    there. -/
def continuesName (ch : Char) : Bool := !(isWhitespace ch || ch == ';' || ch == '=' || ch == '(')

/-- What the place tells about a statement that begins here: one does if and only
    if a line comment has ended, as `ended` says. -/
def Zone.Marked (ended : Bool) : Zone → Place → Prop
  | .code, p => p.statementStart = ended ∧ (p.followsCallBoundary = true → ended = true)
  | .lineComment, _ => True
  | .blockOpening b, _ => b = ended
  | .blockComment b, _ => b = ended
  | .blockClosing b, _ => b = ended
  | .visible, _ => False
  | .literal, _ => False

theorem Zone.marked_of_continuesName (p : Place) {c : Char} (hc : continuesName c = true)
    (next : Option Char) : Zone.code.Marked false (p.pass c next) := by
  simp only [continuesName, isWhitespace, Bool.not_eq_true', Bool.or_eq_false_iff] at hc
  obtain ⟨⟨⟨⟨hnew, hblank⟩, hsemicolon⟩, hequals⟩, hopen⟩ := hc
  constructor
  · simp [Place.pass, endsStatement, hnew, hblank, hsemicolon]
  · simp [Place.pass, Place.followsCallBoundary, isWhitespace, hnew, hblank, hsemicolon, hequals,
      hopen]

theorem Zone.Marked.mayBegin_eq {ended : Bool} {p : Place} (h : Zone.code.Marked ended p) :
    p.mayBegin = ended := by
  rcases h with ⟨hstart, hcall⟩
  rw [Place.mayBegin, hstart]
  cases hb : p.followsCallBoundary with
  | false => exact Bool.or_false ended
  | true => rw [hcall hb, Bool.or_true]

theorem Zone.Marked.hide? {ended : Bool} {z z' : Zone} {p p' : Place} {c : Char}
    {rest : List Char} (h : z.Marked ended p) (hz : z.Fits (c :: rest))
    (hhide : z.hide? p c rest.head? = some (z', p')) :
    z'.Marked (ended || z.endsLine c) p' := by
  cases z with
  | visible => cases hhide
  | literal => cases hhide
  | code =>
    simp only [Zone.hide?] at hhide
    split at hhide
    · split at hhide
      · cases hhide
        trivial
      · split at hhide
        · cases hhide
          simpa [Marked, endsLine] using h.1
        · cases hhide
    · cases hhide
  | lineComment =>
    cases hhide
    cases hc : isNewline c with
    | false => trivial
    | true => simp [Marked, endsLine, Place.pass, endsStatement, hc]
  | blockOpening b =>
    cases hhide
    simpa [Marked, endsLine] using h
  | blockComment b =>
    cases hhide
    split <;> simpa [Marked, endsLine] using h
  | blockClosing b =>
    cases hhide
    obtain rfl : c = '/' := Option.some.inj hz
    simpa [Marked, endsLine, Place.pass, Place.followsCallBoundary, isWhitespace, isNewline,
      isBlank] using h

/-- The next visible character is marked as the start of a statement if and only if
    one was already, or a line comment has ended before it. -/
theorem sweep_marked {ended : Bool} {z : Zone} {p : Place} {s : List Char} (hz : z.Fits s)
    (h : z.Marked ended p) (hne : (sweep (fun _ _ => false) z p s).2 ≠ []) :
    Zone.code.Marked (ended || lineEndsBefore z p s) (sweep (fun _ _ => false) z p s).1 := by
  induction s generalizing z p ended with
  | nil => exact absurd rfl hne
  | cons c rest ih =>
    rw [sweep] at hne ⊢
    rw [lineEndsBefore]
    cases hhide : z.hide? p c rest.head? with
    | some next =>
      rw [hhide] at hne
      rw [← Bool.or_assoc]
      exact ih (Zone.fits_of_hide? hhide) (h.hide? hz hhide) hne
    | none =>
      rw [Bool.or_false]
      cases z with
      | code => exact h
      | visible => exact h.elim
      | literal => exact h.elim
      | lineComment => cases hhide
      | blockOpening b => cases hhide
      | blockComment b => cases hhide
      | blockClosing b => cases hhide

namespace Cursor

/-- Behind a character of a name a statement or a call begins if and only if a line
    comment has ended in between. -/
theorem mayBegin_advance {c : Cursor} (hc : c.inString = false) {ch next : Char}
    (hcur : c.current = some ch) (hch : continuesName ch = true)
    (hnext : c.advance.current = some next) : c.advance.mayBegin = c.crossesLine := by
  obtain ⟨rest, hr⟩ := current_eq_some hcur
  obtain ⟨rest', hr'⟩ := current_eq_some hnext
  have hzone : c.zone.afterVisible = .code := by
    rw [zone, hc]
    rfl
  simp only [advance, crossesLine, hr, hzone, moveTo_rest, moveTo_toPlace] at hr' ⊢
  have hmarked := sweep_marked (z := .code) trivial
    (Zone.marked_of_continuesName c.toPlace hch rest.head?)
    (by rw [hr']; exact List.cons_ne_nil _ _)
  rw [Bool.false_or] at hmarked
  exact hmarked.mayBegin_eq

/-! ### The letters that match -/

theorem leads_iterate_advance (c : Cursor) (n : Nat) : c.Leads (advance^[n] c) := by
  induction n with
  | zero => exact .refl
  | succ n ih =>
    rw [Function.iterate_succ_apply']
    exact ih.advance

/-- The first `n` characters from the cursor on are those of the word. -/
structure Spells (c : Cursor) (n : Nat) (word : List Char) : Prop where
  le : n ≤ word.length
  current : ∀ i < n, (advance^[i] c).current = word[i]?

theorem Spells.of_append {c : Cursor} {n : Nat} {word after : List Char}
    (h : c.Spells n (word ++ after)) (hle : n ≤ word.length) : c.Spells n word := by
  refine ⟨hle, ?_⟩
  intro i hi
  rw [h.current i hi, List.getElem?_append_left (Nat.lt_of_lt_of_le hi hle)]

/-- Eating passes as many characters as match. -/
theorem exists_eat_spells (c : Cursor) (word : List Char) :
    ∃ n, (c.eat word).2 = advance^[n] c ∧ c.Spells n word ∧
      ((c.eat word).1 = false → n < word.length) := by
  induction word generalizing c with
  | nil => exact ⟨0, rfl, ⟨Nat.le_refl _, fun i hi => absurd hi (Nat.not_lt_zero i)⟩, nofun⟩
  | cons ch word ih =>
    rw [eat]
    split
    next hcur =>
      obtain ⟨n, heat, hspells, hmiss⟩ := ih c.advance
      refine ⟨n + 1, heat, ⟨Nat.succ_le_succ hspells.le, ?_⟩, fun h => Nat.succ_lt_succ (hmiss h)⟩
      intro i hi
      cases i with
      | zero => simpa using hcur
      | succ i => exact hspells.current i (Nat.lt_of_succ_lt_succ hi)
    · exact ⟨0, rfl, ⟨Nat.zero_le _, fun i hi => absurd hi (Nat.not_lt_zero i)⟩,
        fun _ => Nat.succ_pos _⟩

theorem iterate_pos_of_eat {c : Cursor} {lead : Char} (hcur : c.current = some lead)
    {word : List Char} {n : Nat} (h : (c.eat (lead :: word)).2 = advance^[n] c) : 0 < n := by
  rw [Nat.pos_iff_ne_zero]
  rintro rfl
  have hlt := eat_lt hcur word
  rw [h] at hlt
  exact Nat.lt_irrefl _ hlt

theorem spells_one {c : Cursor} {lead : Char} (hcur : c.current = some lead) (word : List Char) :
    c.Spells 1 (lead :: word) := by
  refine ⟨Nat.succ_le_succ (Nat.zero_le _), ?_⟩
  intro i hi
  obtain rfl : i = 0 := Nat.lt_one_iff.mp hi
  exact hcur

theorem Spells.current_eq {c : Cursor} {n : Nat} {word : List Char} (h : c.Spells n word) {i : Nat}
    (hi : i < n) : ∃ ch ∈ word, (advance^[i] c).current = some ch := by
  have hlt : i < word.length := Nat.lt_of_lt_of_le hi h.le
  refine ⟨word[i], List.getElem_mem hlt, ?_⟩
  rw [h.current i hi, List.getElem?_eq_getElem hlt]

/-- At a letter behind the first a statement or a call may begin if and only if a
    line comment ends right before it. -/
theorem Spells.mayBegin {c : Cursor} {n : Nat} {word : List Char} (h : c.Spells n word)
    (hc : c.inString = false) (hword : ∀ ch ∈ word, continuesName ch = true) {i : Nat}
    (hi : i + 1 < n) : (advance^[i + 1] c).mayBegin = (advance^[i] c).crossesLine := by
  obtain ⟨ch, hch, hcur⟩ := h.current_eq (Nat.lt_of_succ_lt hi)
  obtain ⟨next, -, hnext⟩ := h.current_eq hi
  rw [Function.iterate_succ_apply'] at hnext ⊢
  have hin : (advance^[i] c).inString = false := (c.leads_iterate_advance i).inString.trans hc
  exact mayBegin_advance hin hcur (hword ch hch) hnext

/-- What does not match in full does not match with more behind it. -/
theorem eat_append_of_miss {c : Cursor} {word : List Char} (h : (c.eat word).1 = false)
    (after : List Char) : c.eat (word ++ after) = (false, (c.eat word).2) := by
  induction word generalizing c with
  | nil => cases h
  | cons ch word ih =>
    rw [List.cons_append, eat]
    rw [eat] at h ⊢
    split at h
    next hcur =>
      rw [if_pos hcur, if_pos hcur]
      exact ih h
    next hcur => rw [if_neg hcur, if_neg hcur]

end Cursor

/-! ### Rounds at a keyword that is not there in full -/

namespace ScanM

variable {s : Scan} {lead : Char} {word : List Char}

/-- An attempt at a keyword that is not there in full passes the letters that match
    if it may begin, and the first one in any case. -/
def Declines (attempt : ScanM Outcome) (s : Scan) (keyword : List Char) : Prop :=
  attempt s = .ok (.noMatch, { s with cursor := (s.cursor.eat keyword).2 }) ∨
    attempt s = .ok (.noMatch, { s with cursor := s.cursor.advance })

theorem call_idle (hcall : s.cursor.followsCallBoundary = false) (callee : Callee) :
    call callee s = .ok (.noMatch, { s with cursor := s.cursor.advance }) := by
  apply Ends.eq_ok
  simp [call, hcall]

theorem staticImport_idle (hstart : s.cursor.statementStart = false) :
    staticImport s = .ok (.noMatch, { s with cursor := s.cursor.advance }) := by
  apply Ends.eq_ok
  simp [staticImport, hstart]

theorem exportFrom_idle (hstart : s.cursor.statementStart = false) :
    exportFrom s = .ok (.noMatch, { s with cursor := s.cursor.advance }) := by
  apply Ends.eq_ok
  simp [exportFrom, hstart]

/-- A call that does not open is no match, wherever the cursor is left. -/
theorem call_of_uncalled {s : Scan} {callee : Callee}
    (h : (s.cursor.eat callee.opening).1 = false) (hb : s.cursor.followsCallBoundary = true) :
    call callee s = .ok (.noMatch, { s with cursor := (s.cursor.eat callee.opening).2 }) := by
  rw [Callee.opening] at h ⊢
  apply Ends.eq_ok
  simp [call, hb, h]

theorem exists_call_of_uncalled {s : Scan} {callee : Callee}
    (h : (s.cursor.eat callee.opening).1 = false) :
    ∃ d, call callee s = .ok (.noMatch, { s with cursor := d }) := by
  cases hb : s.cursor.followsCallBoundary with
  | true => exact ⟨_, call_of_uncalled h hb⟩
  | false => exact ⟨_, call_idle hb callee⟩

theorem call_declines {callee : Callee} {keyword : List Char}
    (hk : keyword <+: callee.word) (h : (s.cursor.eat keyword).1 = false) :
    (call callee).Declines s keyword := by
  obtain ⟨after, hafter⟩ := hk
  cases hb : s.cursor.followsCallBoundary with
  | true =>
    left
    apply Ends.eq_ok
    rw [call, ends_bind, ends_look, hb, if_pos rfl, ends_bind, ends_eat, ← hafter,
      List.append_assoc, Cursor.eat_append_of_miss h]
    simp
  | false => exact Or.inr (call_idle hb callee)

theorem staticImport_declines (h : (s.cursor.eat ['i', 'm', 'p', 'o', 'r', 't']).1 = false) :
    staticImport.Declines s ['i', 'm', 'p', 'o', 'r', 't'] := by
  cases hstart : s.cursor.statementStart with
  | true =>
    left
    apply Ends.eq_ok
    simp [staticImport, hstart, h]
  | false => exact Or.inr (staticImport_idle hstart)

theorem exportFrom_declines (h : (s.cursor.eat ['e', 'x', 'p', 'o', 'r', 't']).1 = false) :
    exportFrom.Declines s ['e', 'x', 'p', 'o', 'r', 't'] := by
  cases hstart : s.cursor.statementStart with
  | true =>
    left
    apply Ends.eq_ok
    simp [exportFrom, hstart, h]
  | false => exact Or.inr (exportFrom_idle hstart)

theorem Declines.firstOf {first second : ScanM Outcome} {keyword : List Char}
    (h : first.Declines s.trial keyword) (h' : second.Declines s keyword) :
    (firstOf first second).Declines s keyword := by
  have hfirst : ∃ d, first s.trial = .ok (.noMatch, { s.trial with cursor := d }) := by
    rcases h with h | h <;> exact ⟨_, h⟩
  obtain ⟨d, hfirst⟩ := hfirst
  exact h'.imp (firstOf_eq_second hfirst) (firstOf_eq_second hfirst)

theorem attempt_declines (hk : lead :: word ∈ keywords)
    (h : (s.cursor.eat (lead :: word)).1 = false) :
    ∃ attempt, attempt? lead = some attempt ∧ attempt.Declines s (lead :: word) := by
  simp only [keywords, List.mem_cons, List.not_mem_nil, or_false, List.cons.injEq] at hk
  rcases hk with ⟨rfl, rfl⟩ | ⟨rfl, rfl⟩ | ⟨rfl, rfl⟩
  · exact ⟨_, rfl, (call_declines (List.prefix_refl _) h).firstOf (staticImport_declines h)⟩
  · exact ⟨_, rfl, exportFrom_declines h⟩
  · have hresolve : Callee.require.word <+: Callee.requireResolve.word := by decide
    exact ⟨_, rfl, (call_declines (s := s.trial) hresolve h).firstOf
      (call_declines (List.prefix_refl _) h)⟩

/-- Where neither a statement nor a call may begin, a round only steps over the
    current character. -/
theorem round_idle (lead : Char) (hstart : s.cursor.statementStart = false)
    (hcall : s.cursor.followsCallBoundary = false) :
    round lead s = .ok ((), { s with cursor := s.cursor.advance }) := by
  cases hlead : attempt? lead with
  | none => exact round_of_attempt?_eq_none hlead s
  | some attempt =>
    apply round_of_noMatch hlead
    rcases attempt?_eq_some hlead with ⟨-, rfl⟩ | ⟨-, rfl⟩ | ⟨-, rfl⟩
    · exact firstOf_eq_second (call_idle (s := s.trial) hcall _) (call_idle hcall _)
    · exact firstOf_eq_second (call_idle (s := s.trial) hcall _) (staticImport_idle hstart)
    · exact exportFrom_idle hstart

end ScanM

/-! ### What is lost -/

theorem continuesName_of_keywords {keyword : List Char} (hk : keyword ∈ keywords) {ch : Char}
    (hch : ch ∈ keyword) : continuesName ch = true := by
  have hall : ∀ keyword ∈ keywords, keyword.all continuesName = true := by decide +kernel
  exact List.all_eq_true.mp (hall keyword hk) ch hch

namespace Scan

/-- A round at a keyword that is not there in full passes the letters that match, or
    the first one only. -/
theorem exists_round_misses {t : Scan} {lead : Char} {word : List Char}
    (hk : lead :: word ∈ keywords) (hcur : t.cursor.current = some lead)
    (hmiss : (t.cursor.eat (lead :: word)).1 = false) :
    ∃ n, 0 < n ∧ t.cursor.Spells n (lead :: word) ∧
      ScanM.round lead t = .ok ((), { t with cursor := Cursor.advance^[n] t.cursor }) := by
  obtain ⟨attempt, hattempt, hdeclines | hdeclines⟩ := ScanM.attempt_declines hk hmiss
  · obtain ⟨n, heat, hspells, -⟩ := t.cursor.exists_eat_spells (lead :: word)
    refine ⟨n, Cursor.iterate_pos_of_eat hcur heat, hspells, ?_⟩
    rw [← heat]
    exact ScanM.round_of_noMatch hattempt hdeclines
  · exact ⟨1, Nat.one_pos, Cursor.spells_one hcur word, ScanM.round_of_noMatch hattempt hdeclines⟩

/-- Where nothing may begin at the letters behind the first, rounds step over them
    one by one. -/
theorem reaches_of_spells {t : Scan} {n : Nat} {word : List Char} (h : t.cursor.Spells n word)
    (hpos : 0 < n)
    (hfree : ∀ i, i + 1 < n → (Cursor.advance^[i + 1] t.cursor).mayBegin = false) :
    ({ t with cursor := t.cursor.advance } : Scan).Reaches
      { t with cursor := Cursor.advance^[n] t.cursor } := by
  have hreach : ∀ k < n, ({ t with cursor := t.cursor.advance } : Scan).Reaches
      { t with cursor := Cursor.advance^[k + 1] t.cursor } := by
    intro k hk
    induction k with
    | zero => exact .start
    | succ k ih =>
      have hbegin := hfree k hk
      rw [Place.mayBegin, Bool.or_eq_false_iff] at hbegin
      obtain ⟨ch, -, hcur⟩ := h.current_eq hk
      rw [Function.iterate_succ_apply' _ (k + 1)]
      refine (ih (Nat.lt_of_succ_lt hk)).round hcur ?_
      exact ScanM.round_idle ch hbegin.1 hbegin.2
  have hlast := hreach (n - 1) (Nat.sub_one_lt_of_lt hpos)
  rwa [Nat.sub_add_cancel hpos] at hlast

/-- **What a keyword that is not there in full takes with it.**  A round at such a
    keyword finds nothing and passes some of its letters.  At a letter behind the
    first a statement or a call may begin if and only if a line comment ends right
    before it.  If none does, stepping over the first letter alone leads to the same
    place, with the same findings. -/
theorem Reaches.misses_keyword {source : List Char} {t : Scan}
    (h : (Scan.ofSource source).Reaches t) {lead : Char} {word : List Char}
    (hk : lead :: word ∈ keywords) (hcur : t.cursor.current = some lead)
    (hmiss : (t.cursor.eat (lead :: word)).1 = false) :
    ∃ n, 0 < n ∧ t.cursor.Spells n (lead :: word) ∧
      ScanM.round lead t = .ok ((), { t with cursor := Cursor.advance^[n] t.cursor }) ∧
      (∀ i, i + 1 < n → (Cursor.advance^[i + 1] t.cursor).mayBegin =
        (Cursor.advance^[i] t.cursor).crossesLine) ∧
      ((∀ i, i + 1 < n → (Cursor.advance^[i] t.cursor).crossesLine = false) →
        ({ t with cursor := t.cursor.advance } : Scan).Reaches
          { t with cursor := Cursor.advance^[n] t.cursor }) := by
  have hc : t.cursor.inString = false := (h.onward (Scan.sited_ofSource source)).inString rfl
  obtain ⟨n, hpos, hspells, hround⟩ := exists_round_misses hk hcur hmiss
  have hmay : ∀ i, i + 1 < n → (Cursor.advance^[i + 1] t.cursor).mayBegin =
      (Cursor.advance^[i] t.cursor).crossesLine := by
    intro i hi
    exact hspells.mayBegin hc (fun _ => continuesName_of_keywords hk) hi
  refine ⟨n, hpos, hspells, hround, hmay, ?_⟩
  intro hfree
  apply reaches_of_spells hspells hpos
  intro i hi
  rw [hmay i hi, hfree i hi]

/-- Of `re-run` two letters are passed, and no statement may begin at the second. -/
theorem misses_keyword_re :
    ∃ n, 0 < n ∧ (Cursor.ofSource "re-run".toList).Spells n ['r', 'e', 'q', 'u', 'i', 'r', 'e'] ∧
      ScanM.round 'r' (Scan.ofSource "re-run".toList) = .ok ((),
        { Scan.ofSource "re-run".toList with
          cursor := Cursor.advance^[n] (Cursor.ofSource "re-run".toList) }) ∧
      (∀ i, i + 1 < n → (Cursor.advance^[i + 1] (Cursor.ofSource "re-run".toList)).mayBegin =
        (Cursor.advance^[i] (Cursor.ofSource "re-run".toList)).crossesLine) ∧
      ((∀ i, i + 1 < n →
          (Cursor.advance^[i] (Cursor.ofSource "re-run".toList)).crossesLine = false) →
        ({ Scan.ofSource "re-run".toList with
            cursor := (Cursor.ofSource "re-run".toList).advance } : Scan).Reaches
          { Scan.ofSource "re-run".toList with
            cursor := Cursor.advance^[n] (Cursor.ofSource "re-run".toList) }) :=
  Reaches.misses_keyword .start (by decide) rfl rfl

/-- A line comment between two letters: the `r` begins no `require`, but takes with
    it the `e` of the statement on the next line. -/
theorem keyword_takes_statement :
    let c := Cursor.ofSource "r//\nexport * from 'a'".toList
    (c.eat ['r', 'e', 'q', 'u', 'i', 'r', 'e']).1 = false ∧ c.advance.mayBegin = true ∧
      (c.eat ['r', 'e', 'q', 'u', 'i', 'r', 'e']).2 = c.advance.advance ∧
      extract "r//\nexport * from 'a'" "x.js" = ⟨[], []⟩ ∧
      extract "export * from 'a'" "x.js" = ⟨["a"], []⟩ := by
  decide +kernel

end Scan

end ModuleScan
