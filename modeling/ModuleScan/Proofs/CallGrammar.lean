/-
  ModuleScan/Proofs/CallGrammar.lean
  ==================================
  **The calls that load a module, as a grammar over the visible text.**

  A call opens where a call boundary precedes its callee and the parenthesis follows
  directly; its argument begins at the first character behind it that is neither
  whitespace nor in a comment.  `CallVerdict` says, for each text that can follow, what
  the call comes to and what is reported.  Exactly one verdict fits a cursor, and it is
  the one that the attempt gives (`call_exact`).
-/
import ModuleScan.Proofs.LiteralExact
import ModuleScan.Proofs.Outcomes
import ModuleScan.Proofs.PartialKeyword
import ModuleScan.Proofs.Walking

namespace ModuleScan

namespace Cursor

/-! ### The grammar -/

/-- A call of the callee opens at `c`, and `q` is where its argument begins. -/
structure OpensCall (callee : Callee) (c q : Cursor) : Prop where
  boundary : c.followsCallBoundary = true
  opening : ∃ gap, c.Walks (callee.opening ++ gap) q ∧ IsGap gap
  visible : q.current.any isWhitespace = false

/-- The literal at `c` closes at the position `j`, and `e` is the first place behind it
    that is neither whitespace nor in a comment. -/
structure ClosesBefore (c : Cursor) (quote : Char) (text : List Char) (j : Nat) (e : Cursor) :
    Prop where
  opens : c.OpensLiteral quote text
  first : FirstStop quote text j
  closing : text[j]? = some quote
  gap : ∃ gap, (c.within quote text j).Walks (quote :: gap) e ∧ IsGap gap
  visible : e.current.any isWhitespace = false

/-- What a call of the callee at the cursor comes to, and what is reported of it. -/
inductive CallVerdict (callee : Callee) (c : Cursor) : Outcome → List Finding → Prop
  | uncalled :
      ¬ (c.followsCallBoundary = true ∧ callee.opening <+: c.ahead) →
      CallVerdict callee c .noMatch []
  | unquoted {q : Cursor} :
      c.OpensCall callee q → q.current.any isQuote = false →
      CallVerdict callee c .rejected []
  | computed {q : Cursor} {quote : Char} {text : List Char} {j : Nat} :
      c.OpensCall callee q → q.OpensLiteral quote text → FirstStop quote text j →
      text[j]? = some '{' ∨ text[j]? = some '+' →
      CallVerdict callee c .rejected [.diagnostic .dynamicSpecifier q.line]
  | endless {q : Cursor} {quote : Char} {text : List Char} :
      c.OpensCall callee q → q.OpensLiteral quote text → (∀ j, ¬ StopsLiteral quote text j) →
      CallVerdict callee c .rejected [.diagnostic .unterminatedSpecifier q.line]
  | sum {q e : Cursor} {quote : Char} {text : List Char} {j : Nat} :
      c.OpensCall callee q → q.ClosesBefore quote text j e → e.current = some '+' →
      CallVerdict callee c .rejected [.diagnostic .dynamicSpecifier e.line]
  | accepted {q e : Cursor} {quote : Char} {text : List Char} {j : Nat} :
      c.OpensCall callee q → q.ClosesBefore quote text j e → e.current ≠ some '+' →
      CallVerdict callee c (.reference (String.ofList (text.take j))) []

/-! ### Some verdict fits -/

variable {callee : Callee} {c q : Cursor}

theorem exists_opensCall (hc : c.inString = false) (hb : c.followsCallBoundary = true)
    (h : callee.opening <+: c.ahead) : ∃ q, c.OpensCall callee q := by
  obtain ⟨o, ho⟩ := (exists_walks_iff hc).mpr h
  obtain ⟨gap, hgap, hwhite, hvisible⟩ := exists_walks_skipWhitespace o
  exact ⟨o.skipWhitespace, hb, ⟨gap, ho.trans hgap, hwhite⟩, hvisible⟩

theorem exists_closesBefore {quote : Char} {text : List Char} {j : Nat}
    (h : q.OpensLiteral quote text) (hj : FirstStop quote text j) (hquote : text[j]? = some quote) :
    ∃ e, q.ClosesBefore quote text j e := by
  obtain ⟨gap, hgap, hwhite, hvisible⟩ :=
    exists_walks_skipWhitespace (q.within quote text j).advance
  have hcur : (q.within quote text j).current = some quote := by
    rw [within, past_current, List.head?_drop, hquote]
  exact ⟨_, h, hj, hquote, ⟨gap, .step hcur hgap, hwhite⟩, hvisible⟩

theorem exists_callVerdict_of_opensLiteral {quote : Char} {text : List Char}
    (h : c.OpensCall callee q) (hq : q.OpensLiteral quote text) :
    ∃ outcome found, c.CallVerdict callee outcome found := by
  rcases exists_firstStop_or quote text with ⟨j, hj⟩ | hnone
  · rcases hj.1 with hch | hch | ⟨hch, -⟩
    · exact ⟨_, _, .computed h hq hj (Or.inl hch)⟩
    · exact ⟨_, _, .computed h hq hj (Or.inr hch)⟩
    · obtain ⟨e, he⟩ := exists_closesBefore hq hj hch
      by_cases hplus : e.current = some '+'
      · exact ⟨_, _, .sum h he hplus⟩
      · exact ⟨_, _, .accepted h he hplus⟩
  · exact ⟨_, _, .endless h hq hnone⟩

theorem exists_callVerdict (callee : Callee) (hc : c.inString = false) :
    ∃ outcome found, c.CallVerdict callee outcome found := by
  by_cases hopens : c.followsCallBoundary = true ∧ callee.opening <+: c.ahead
  · obtain ⟨q, hq⟩ := exists_opensCall hc hopens.1 hopens.2
    cases hany : q.current.any isQuote with
    | false => exact ⟨_, _, .unquoted hq hany⟩
    | true =>
      obtain ⟨quote, text, hopens⟩ := exists_opensLiteral hany
      exact exists_callVerdict_of_opensLiteral hq hopens
  · exact ⟨_, _, .uncalled hopens⟩

end Cursor

/-! ### The attempt gives the verdict -/

namespace ScanM

variable {callee : Callee} {s : Scan} {q e : Cursor} {quote : Char} {text : List Char} {j : Nat}

theorem exists_call_of_not_opening (hc : s.cursor.inString = false)
    (h : ¬ (s.cursor.followsCallBoundary = true ∧ callee.opening <+: s.cursor.ahead)) :
    ∃ d, call callee s = .ok (.noMatch, { s with cursor := d }) := by
  cases hb : s.cursor.followsCallBoundary with
  | false => exact ⟨_, call_idle hb callee⟩
  | true =>
    apply exists_call_of_uncalled
    rw [← Bool.not_eq_true]
    intro heat
    exact h ⟨hb, _, (Cursor.ahead_eq_of_eat hc heat).symm⟩

theorem callArgument_of_unquoted (h : s.cursor.skipWhitespace.current.any isQuote = false) :
    callArgument s = .ok (.rejected, { s with cursor := s.cursor.skipWhitespace }) := by
  apply Ends.eq_ok
  simp [callArgument, h]

theorem callArgument_of_literal_eq_none {t : Scan}
    (hq : s.cursor.skipWhitespace.current.any isQuote = true)
    (h : literal { s with cursor := s.cursor.skipWhitespace } = .ok (none, t)) :
    callArgument s = .ok (.rejected, t) := by
  apply Ends.eq_ok
  simp [callArgument, hq, ends_of_eq h]

/-- Behind a literal only a plus sign, after whitespace and comments, matters. -/
theorem callArgument_of_literal_eq_some {t : Scan} {m : String}
    (hq : s.cursor.skipWhitespace.current.any isQuote = true)
    (h : literal { s with cursor := s.cursor.skipWhitespace } = .ok (some m, t))
    (he : t.cursor.skipWhitespace = e) :
    callArgument s = .ok (if e.current = some '+'
      then (.rejected,
        { t with cursor := e, findings := .diagnostic .dynamicSpecifier e.line :: t.findings })
      else (.reference m, { t with cursor := e })) := by
  by_cases hplus : e.current = some '+'
  · rw [if_pos hplus]
    apply Ends.eq_ok
    simp [callArgument, hq, ends_of_eq h, he, hplus]
  · rw [if_neg hplus]
    apply Ends.eq_ok
    simp [callArgument, hq, ends_of_eq h, he, hplus]

/-- Behind its opening a call reads the argument. -/
theorem call_of_opensCall {result : Outcome × Scan} (h : s.cursor.OpensCall callee q)
    (hresult : ∀ o : Cursor, o.skipWhitespace = q →
      callArgument { s with cursor := o } = .ok result) : call callee s = .ok result := by
  obtain ⟨gap, hwalks, hgap⟩ := h.opening
  obtain ⟨o, ho, hrest⟩ := hwalks.exists_split
  have heat : s.cursor.eat (callee.word ++ ['(']) = (true, o) := Cursor.eat_eq_true_iff.mpr ho
  have hargument := hresult o (hrest.skipWhitespace_eq hgap h.visible)
  apply Ends.eq_ok
  rw [call, ends_bind, ends_look, if_pos h.boundary, ends_bind, ends_eat, heat, if_pos rfl,
    ends_of_eq hargument]
  exact ⟨rfl, rfl⟩

theorem sited_of_opensCall (hs : s.Sited) (h : s.cursor.OpensCall callee q) :
    ({ s with cursor := q } : Scan).Sited := by
  obtain ⟨gap, hwalks, -⟩ := h.opening
  exact hs.of_leads hwalks.leads

theorem call_of_closesBefore (hs : s.Sited) (h : s.cursor.OpensCall callee q)
    (he : q.ClosesBefore quote text j e) :
    call callee s = .ok (if e.current = some '+'
      then (.rejected,
        { s with cursor := e, findings := .diagnostic .dynamicSpecifier e.line :: s.findings })
      else (.reference (String.ofList (text.take j)), { s with cursor := e })) := by
  have hliteral := literal_of_closes (sited_of_opensCall hs h) he.opens.rest he.opens.quoted
    he.first he.closing
  obtain ⟨gap, hwalks, hgap⟩ := he.gap
  have hskip : (q.within quote text j).advance.skipWhitespace = e :=
    hwalks.of_cons.skipWhitespace_eq hgap he.visible
  apply call_of_opensCall h
  rintro o rfl
  have hargument := callArgument_of_literal_eq_some (s := { s with cursor := o })
    he.opens.any_isQuote hliteral hskip
  exact hargument

/-- The attempt gives any verdict that fits. -/
theorem exists_call_of_callVerdict {outcome : Outcome} {found : List Finding} (hs : s.Sited)
    (hc : s.cursor.inString = false) (h : s.cursor.CallVerdict callee outcome found) :
    ∃ d, call callee s =
      .ok (outcome, { s with cursor := d, findings := found ++ s.findings }) := by
  cases h with
  | uncalled h => exact exists_call_of_not_opening hc h
  | @unquoted q h hq =>
    refine ⟨q, call_of_opensCall h ?_⟩
    rintro o rfl
    exact callArgument_of_unquoted (s := { s with cursor := o }) hq
  | @computed q _ _ _ h hq hj hch =>
    have hliteral := literal_of_computed (sited_of_opensCall hs h) hq.rest hq.quoted hj hch
    refine ⟨q, call_of_opensCall h ?_⟩
    rintro o rfl
    exact callArgument_of_literal_eq_none (s := { s with cursor := o }) hq.any_isQuote hliteral
  | @endless q _ _ h hq hnone =>
    have hliteral := literal_of_endless (sited_of_opensCall hs h) hq.rest hq.quoted hnone
    refine ⟨q, call_of_opensCall h ?_⟩
    rintro o rfl
    exact callArgument_of_literal_eq_none (s := { s with cursor := o }) hq.any_isQuote hliteral
  | sum h he hplus =>
    have hcall := call_of_closesBefore hs h he
    rw [if_pos hplus] at hcall
    exact ⟨_, hcall⟩
  | accepted h he hplus =>
    have hcall := call_of_closesBefore hs h he
    rw [if_neg hplus] at hcall
    exact ⟨_, hcall⟩

theorem callVerdict_unique {outcome outcome' : Outcome} {found found' : List Finding}
    (hs : s.Sited) (hc : s.cursor.inString = false)
    (h : s.cursor.CallVerdict callee outcome found)
    (h' : s.cursor.CallVerdict callee outcome' found') : outcome' = outcome ∧ found' = found := by
  obtain ⟨d, hd⟩ := exists_call_of_callVerdict hs hc h
  obtain ⟨d', hd'⟩ := exists_call_of_callVerdict hs hc h'
  rw [hd] at hd'
  obtain ⟨rfl, hscan⟩ := Prod.mk.inj (Except.ok.inj hd')
  exact ⟨rfl, (List.append_cancel_right (congrArg Scan.findings hscan)).symm⟩

/-- **A call accepts exactly its grammar.**  The attempt ends with an outcome and what it
    reported, and of all verdicts this one fits the cursor. -/
theorem call_exact (callee : Callee) (hs : s.Sited) (hc : s.cursor.inString = false) :
    ∃ outcome found d,
      call callee s = .ok (outcome, { s with cursor := d, findings := found ++ s.findings }) ∧
      ∀ outcome' found', s.cursor.CallVerdict callee outcome' found' ↔
        outcome' = outcome ∧ found' = found := by
  obtain ⟨outcome, found, h⟩ := Cursor.exists_callVerdict callee hc
  obtain ⟨d, hcall⟩ := exists_call_of_callVerdict hs hc h
  refine ⟨outcome, found, d, hcall, ?_⟩
  intro outcome' found'
  constructor
  · exact callVerdict_unique hs hc h
  · rintro ⟨rfl, rfl⟩
    exact h

/-- The literal is part of a sum, although a comment and the end of a line stand before
    the plus sign. -/
theorem call_exact_sum :
    (Cursor.ofSource "require( 'a' // b\n+ c)".toList).CallVerdict .require .rejected
      [.diagnostic .dynamicSpecifier 2] := by
  have hsited := Scan.sited_ofSource "require( 'a' // b\n+ c)".toList
  obtain ⟨outcome, found, d, hcall, hverdict⟩ := call_exact .require hsited rfl
  have hrun : (call .require (Scan.ofSource "require( 'a' // b\n+ c)".toList)).map
      (fun r => (r.1, r.2.findings)) = .ok (.rejected, [.diagnostic .dynamicSpecifier 2]) := rfl
  rw [hcall] at hrun
  obtain ⟨rfl, hfound⟩ := Prod.mk.inj (Except.ok.inj hrun)
  have hfound' : found = [.diagnostic .dynamicSpecifier 2] :=
    (List.append_nil found).symm.trans hfound
  exact (hverdict _ _).mpr ⟨rfl, hfound'.symm⟩

end ScanM

end ModuleScan
