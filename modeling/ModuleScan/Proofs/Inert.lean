/-
  ModuleScan/Proofs/Inert.lean
  ============================
  **Text in which no statement begins.**

  After a statement about types the scan goes on in the middle of it, so that the
  names, the word `from` and the literal are read as plain text.  Text without the
  end of a statement, the mark of a comment and the opening of a call is passed
  round by round, and nothing is found in it (`reaches_past_inert`).
-/
import ModuleScan.Proofs.Passing
import ModuleScan.Proofs.Rounds

namespace ModuleScan

def Callee.opening (callee : Callee) : List Char := callee.word ++ ['(']

/-- The text holds no end of a statement, no comment and no call. -/
structure Inert (text : List Char) : Prop where
  uncommented : Uncommented text
  uncalled : ∀ callee : Callee, ¬ callee.opening <:+: text
  unended : ∀ ch ∈ text, endsStatement ch = false

namespace Inert

variable {text text' : List Char}

theorem of_suffix (h : Inert text) (hs : text' <:+ text) : Inert text' where
  uncommented := fun marker hm hwithin => h.uncommented marker hm (hwithin.trans hs.isInfix)
  uncalled := fun callee hwithin => h.uncalled callee (hwithin.trans hs.isInfix)
  unended := fun ch hch => h.unended ch (hs.subset hch)

theorem of_not_mem (hslash : '/' ∉ text) (hparen : '(' ∉ text)
    (hend : ∀ ch ∈ text, endsStatement ch = false) : Inert text where
  uncommented := uncommented_of_not_mem hslash
  uncalled := by
    intro callee hwithin
    have hmem : '(' ∈ callee.opening := by simp [Callee.opening]
    exact hparen (hwithin.subset hmem)
  unended := hend

end Inert

theorem not_infix_append_cons {word text text' : List Char} {ch : Char} (hch : ch ∉ word)
    (h : ¬ word <:+: text) (h' : ¬ word <:+: text') : ¬ word <:+: text ++ ch :: text' := by
  rw [List.infix_append_iff, List.infix_cons_iff]
  rintro (hwithin | (hfront | hwithin) | ⟨first, last, rfl, hfirst, hlast⟩)
  · exact h hwithin
  · cases word with
    | nil => exact h List.nil_infix
    | cons d word =>
      obtain ⟨rfl, -⟩ := List.cons_prefix_cons.mp hfront
      exact hch (by simp)
  · exact h' hwithin
  · cases last with
    | nil => exact h (by simpa using hfirst.isInfix)
    | cons d last =>
      obtain ⟨rfl, -⟩ := List.cons_prefix_cons.mp hlast
      exact hch (by simp)

/-- Two inert texts may stand on the two sides of a brace or a quote. -/
theorem Inert.append_cons {text text' : List Char} (h : Inert text) (h' : Inert text') {ch : Char}
    (hch : ch ∈ ['{', '}', '\x27', '\x22', '\x60']) : Inert (text ++ ch :: text') where
  uncommented := by
    intro marker hm
    have hall : ∀ d ∈ ['{', '}', '\x27', '\x22', '\x60'], ∀ marker ∈ commentMarkers, d ∉ marker :=
      forall_mem_of_all (by decide)
    exact not_infix_append_cons (hall ch hch marker hm) (h.uncommented marker hm)
      (h'.uncommented marker hm)
  uncalled := by
    intro callee
    have hall : ∀ d ∈ ['{', '}', '\x27', '\x22', '\x60'], d ∉ callee.opening := by
      cases callee <;> exact forall_mem_of_all (by decide)
    exact not_infix_append_cons (hall ch hch) (h.uncalled callee) (h'.uncalled callee)
  unended := by
    intro d hd
    have hall : ∀ d ∈ ['{', '}', '\x27', '\x22', '\x60'], endsStatement d = false :=
      forall_mem_of_all (by decide)
    rcases List.mem_append.mp hd with hd | hd
    · exact h.unended d hd
    · rcases List.mem_cons.mp hd with rfl | hd
      · exact hall d hch
      · exact h'.unended d hd

/-! ### What may follow -/

/-- A statement has ended before the text: it begins with whitespace or `;`, or
    the source ends. -/
def Ended (after : List Char) : Prop :=
  ∀ ch, after.head? = some ch → isWhitespace ch = true ∨ ch = ';'

theorem Ended.mem {after : List Char} (h : Ended after) {ch : Char} (hch : after.head? = some ch) :
    ch ∈ ['\r', '\n', '\u2028', '\u2029', ' ', '\t', ';'] := by
  rcases h ch hch with hw | rfl
  · exact List.mem_append_left [';'] (mem_of_isWhitespace hw)
  · simp

theorem Ended.ne {after : List Char} (h : Ended after) {ch : Char}
    (hch : ch ∉ ['\r', '\n', '\u2028', '\u2029', ' ', '\t', ';']) : after.head? ≠ some ch := by
  intro hhead
  exact hch (h.mem hhead)

theorem Ended.opensComment {after : List Char} (h : Ended after) : opensComment after = false := by
  cases after with
  | nil => rfl
  | cons ch after =>
    refine opensComment_of_ne_slash ?_ after
    rintro rfl
    exact h.ne (by decide) rfl

theorem Inert.commentFree {text after : List Char} (h : Inert text) (hafter : Ended after) :
    commentFree text after = true := by
  apply commentFree_of_uncommented h.uncommented
  intro ch hch
  constructor
  · rintro rfl
    exact hafter.ne (by decide) hch
  · rintro rfl
    exact hafter.ne (by decide) hch

/-! ### Rounds over inert text -/

namespace ScanM

variable {s : Scan} {lead : Char} {text after : List Char}

/-- Where a callee is not followed by its parenthesis, a call passes what matches
    of it, or the first character, and finds nothing. -/
theorem call_inert (hc : s.cursor.inString = false) (hr : s.cursor.rest = lead :: text ++ after)
    (ht : Inert (lead :: text)) (hafter : Ended after) (callee : Callee)
    (hlead : callee.word.head? = some lead) :
    ∃ pre post, lead :: text = pre ++ post ∧ pre ≠ [] ∧
      call callee s = .ok (.noMatch, { s with cursor := s.cursor.past pre (post ++ after) }) := by
  have hfree := ht.commentFree hafter
  cases hb : s.cursor.followsCallBoundary with
  | true =>
    have hword : ∀ ch ∈ callee.opening, after.head? ≠ some ch := by
      have hall : ∀ ch ∈ callee.opening,
          ch ∉ ['\r', '\n', '\u2028', '\u2029', ' ', '\t', ';'] := by
        cases callee <;> exact forall_mem_of_all (by decide)
      intro ch hch
      exact hafter.ne (hall ch hch)
    obtain ⟨pre, post, htext, -, hpre, heat⟩ :=
      Cursor.exists_eat_eq_past hc callee.opening hr hfree hword
    have hne : pre ≠ callee.opening := by
      rintro rfl
      exact ht.uncalled callee ⟨[], post, by rw [htext, List.nil_append]⟩
    refine ⟨pre, post, htext, ?_, ?_⟩
    · intro hnil
      apply hpre hnil
      · simp [Callee.opening]
      · cases callee <;> simpa [Callee.opening, Callee.word] using hlead.symm
    · rw [decide_eq_false hne] at heat
      simp only [Callee.opening] at heat
      apply Ends.eq_ok
      simp [call, hb, heat]
  | false =>
    have hadvance := Cursor.advance_eq_past_cons hc hr hfree
    exact ⟨[lead], text, rfl, by simp, Ends.eq_ok (by simp [call, hb, hadvance])⟩

theorem round_inert (hc : s.cursor.inString = false) (hstart : s.cursor.statementStart = false)
    (hr : s.cursor.rest = lead :: text ++ after) (ht : Inert (lead :: text))
    (hafter : Ended after) :
    ∃ pre post, lead :: text = pre ++ post ∧ pre ≠ [] ∧
      round lead s = .ok ((), { s with cursor := s.cursor.past pre (post ++ after) }) := by
  have hfree := ht.commentFree hafter
  have hadvance := Cursor.advance_eq_past_cons hc hr hfree
  cases hlead : attempt? lead with
  | none =>
    refine ⟨[lead], text, rfl, by simp, ?_⟩
    apply Ends.eq_ok
    simp [round, hlead, hadvance]
  | some attempt =>
    rcases attempt?_eq_some hlead with ⟨rfl, rfl⟩ | ⟨rfl, rfl⟩ | ⟨rfl, rfl⟩
    · obtain ⟨_, _, _, _, hfirst⟩ :=
        call_inert (s := s.trial) hc hr ht hafter .requireResolve rfl
      obtain ⟨pre, post, htext, hpre, hsecond⟩ := call_inert hc hr ht hafter .require rfl
      exact ⟨pre, post, htext, hpre, round_of_noMatch hlead (firstOf_eq_second hfirst hsecond)⟩
    · obtain ⟨_, _, _, _, hfirst⟩ :=
        call_inert (s := s.trial) hc hr ht hafter .dynamicImport rfl
      have hsecond : staticImport s = .ok (.noMatch,
          { s with cursor := s.cursor.past ['i'] (text ++ after) }) :=
        Ends.eq_ok (by simp [staticImport, hstart, hadvance])
      exact ⟨['i'], text, rfl, by simp, round_of_noMatch hlead (firstOf_eq_second hfirst hsecond)⟩
    · have hexport : exportFrom s = .ok (.noMatch,
          { s with cursor := s.cursor.past ['e'] (text ++ after) }) :=
        Ends.eq_ok (by simp [exportFrom, hstart, hadvance])
      exact ⟨['e'], text, rfl, by simp, round_of_noMatch hlead hexport⟩

end ScanM

/-- **Nothing is found in inert text.**  Rounds lead to its end, with the findings
    as they were. -/
theorem Scan.reaches_past_inert {s : Scan} {text after : List Char}
    (hc : s.cursor.inString = false) (hstart : s.cursor.statementStart = false)
    (hr : s.cursor.rest = text ++ after) (ht : Inert text) (hafter : Ended after) :
    s.Reaches { s with cursor := s.cursor.past text after } := by
  -- a round may pass several characters, so the induction is on the length
  induction hn : text.length using Nat.strongRecOn generalizing s text with
  | ind n ih =>
    cases text with
    | nil =>
      obtain rfl : s.cursor.rest = after := hr
      exact .start
    | cons lead text =>
      obtain ⟨pre, post, htext, hpre, hround⟩ := ScanM.round_inert hc hstart hr ht hafter
      have hcur : s.cursor.current = some lead := by simp [Cursor.current, hr]
      have hlt : post.length < n := by
        rw [← hn, htext, List.length_append]
        have := List.length_pos_iff.mpr hpre
        omega
      have hstart' : (s.cursor.past pre (post ++ after)).statementStart = false := by
        apply Cursor.statementStart_past_of_not_endsStatement _ _ _ hstart
        intro ch hch
        apply ht.unended
        rw [htext]
        exact List.mem_append_left _ hch
      have hpost : Inert post := ht.of_suffix ⟨pre, htext.symm⟩
      have hrest := ih post.length hlt
        (s := { s with cursor := s.cursor.past pre (post ++ after) }) hc hstart' rfl hpost rfl
      simp only [Cursor.past_past, ← htext] at hrest
      exact (Scan.Reaches.start.round hcur hround).trans hrest

end ModuleScan
