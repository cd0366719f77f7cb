/-
  ModuleScan/Proofs/Walking.lean
  ==============================
  **Text that a cursor shows as it advances.**

  `c.Walks text d` says that advancing from `c` shows the characters of `text`, one
  after the other, and then `d`.  Outside literals this is the text from `c` on
  without its comments (`exists_walks_iff`).  Every movement walks some text: matching
  a word walks the part of it that stands there, and skipping walks what is to be
  skipped.  Conversely a text to walk says where a movement ends.
-/
import ModuleScan.Proofs.Visits

namespace ModuleScan

/-- Whitespace, or nothing. -/
def IsGap (text : List Char) : Prop := ∀ ch ∈ text, isWhitespace ch = true

theorem isGap_blank : IsGap [' '] := forall_mem_of_all (by decide)

namespace Cursor

/-- Advancing from the first cursor shows the characters of the text, and then the
    second cursor. -/
inductive Walks : Cursor → List Char → Cursor → Prop
  | stay {c : Cursor} : Walks c [] c
  | step {c d : Cursor} {ch : Char} {text : List Char} :
      c.current = some ch → Walks c.advance text d → Walks c (ch :: text) d

namespace Walks

variable {c d e : Cursor} {text text' : List Char}

theorem trans (h : c.Walks text d) (h' : d.Walks text' e) : c.Walks (text ++ text') e := by
  induction h with
  | stay => exact h'
  | step hcur _ ih => exact .step hcur (ih h')

theorem exists_split (h : c.Walks (text ++ text') e) : ∃ d, c.Walks text d ∧ d.Walks text' e := by
  induction text generalizing c with
  | nil => exact ⟨c, .stay, h⟩
  | cons ch text ih =>
    rcases h with _ | ⟨hcur, h⟩
    obtain ⟨d, hd, hrest⟩ := ih h
    exact ⟨d, .step hcur hd, hrest⟩

theorem unique (h : c.Walks text d) (h' : c.Walks text e) : d = e := by
  induction h with
  | stay =>
    rcases h' with _ | _
    rfl
  | step _ _ ih =>
    rcases h' with _ | ⟨-, h'⟩
    exact ih h'

theorem leads (h : c.Walks text d) : c.Leads d := by
  induction h with
  | stay => exact .refl
  | @step c _ _ _ _ _ ih => exact c.leads_advance.trans ih

theorem current_eq {ch : Char} (h : c.Walks (ch :: text) d) : c.current = some ch := by
  rcases h with _ | ⟨hcur, -⟩
  exact hcur

/-- What no character of a text is, and not what follows it, the first one is not. -/
theorem any_current_eq_false {keep : Char → Bool} (h : c.Walks text d)
    (htext : ∀ ch ∈ text, keep ch = false) (hd : d.current.any keep = false) :
    c.current.any keep = false := by
  rcases h with _ | ⟨hcur, -⟩
  · exact hd
  · rw [hcur, Option.any_some]
    exact htext _ (List.mem_cons_self ..)

theorem of_cons {ch : Char} (h : c.Walks (ch :: text) d) : c.advance.Walks text d := by
  rcases h with _ | ⟨-, h⟩
  exact h

theorem ahead_eq (h : c.Walks text d) (hc : c.inString = false) : c.ahead = text ++ d.ahead := by
  induction h with
  | stay => rfl
  | @step c d ch text hcur _ ih =>
    rw [current_eq_head?_ahead hc] at hcur
    obtain ⟨later, hlater⟩ := List.head?_eq_some_iff.mp hcur
    rw [List.cons_append, ← ih (by rw [advance_inString, hc]), ahead_advance hc, hlater,
      List.tail_cons]

end Walks

variable {c d : Cursor} {text : List Char}

/-- The visible text from a cursor on begins with what can be walked from it. -/
theorem exists_walks_iff (hc : c.inString = false) :
    (∃ d, c.Walks text d) ↔ text <+: c.ahead := by
  constructor
  · rintro ⟨d, hd⟩
    exact ⟨d.ahead, (hd.ahead_eq hc).symm⟩
  · intro h
    induction text generalizing c with
    | nil => exact ⟨c, .stay⟩
    | cons ch text ih =>
      obtain ⟨later, hlater⟩ := h
      have hcur : c.current = some ch := by
        rw [current_eq_head?_ahead hc, ← hlater]
        rfl
      have hahead : c.advance.ahead = text ++ later := by
        rw [ahead_advance hc, ← hlater]
        rfl
      obtain ⟨d, hd⟩ := ih (c := c.advance) (by rw [advance_inString, hc])
        ⟨later, hahead.symm⟩
      exact ⟨d, .step hcur hd⟩

/-! ### Matching a word -/

theorem eat_eq_true_iff {word : List Char} : c.eat word = (true, d) ↔ c.Walks word d := by
  constructor
  · intro h
    induction word generalizing c with
    | nil =>
      obtain rfl : c = d := congrArg Prod.snd h
      exact .stay
    | cons ch word ih =>
      rw [eat] at h
      split at h
      next hcur => exact .step (by simpa using hcur) (ih h)
      · cases h
  · intro h
    induction h with
    | stay => rfl
    | step hcur _ ih => rw [eat_of_current hcur, ih]

theorem walks_of_eat {word : List Char} (h : (c.eat word).1 = true) :
    c.Walks word (c.eat word).2 :=
  eat_eq_true_iff.mp (Prod.ext h rfl)

/-- Of a word that is not there in full the part that is there is walked. -/
theorem exists_walks_of_eat {word : List Char} (h : (c.eat word).1 = false) :
    ∃ front ch back, word = front ++ ch :: back ∧ c.Walks front (c.eat word).2 ∧
      (c.eat word).2.current ≠ some ch := by
  induction word generalizing c with
  | nil => cases h
  | cons ch word ih =>
    rw [eat] at h ⊢
    split at h
    next hcur =>
      rw [if_pos hcur]
      obtain ⟨front, next, back, rfl, hwalks, hnext⟩ := ih h
      exact ⟨ch :: front, next, back, rfl, .step (by simpa using hcur) hwalks, hnext⟩
    next hcur =>
      rw [if_neg hcur]
      exact ⟨[], ch, word, rfl, .stay, by simpa using hcur⟩

/-- Eating walks a beginning of the word. -/
theorem exists_walks_eat (c : Cursor) (word : List Char) :
    ∃ text, text <+: word ∧ c.Walks text (c.eat word).2 := by
  cases heat : (c.eat word).1 with
  | true => exact ⟨word, List.prefix_rfl, walks_of_eat heat⟩
  | false =>
    obtain ⟨front, ch, back, hword, hwalks, -⟩ := exists_walks_of_eat heat
    exact ⟨front, ⟨ch :: back, hword.symm⟩, hwalks⟩

theorem Walks.eat_eq_false {front back : List Char} {ch : Char} (h : c.Walks front d)
    (hne : d.current ≠ some ch) : c.eat (front ++ ch :: back) = (false, d) := by
  induction h with
  | stay => exact eat_of_current_ne hne back
  | step hcur _ ih => rw [List.cons_append, eat_of_current hcur, ih hne]

theorem Walks.eat_eq_false_of_begins {word : List Char} (h : c.Walks text d)
    (hbegins : text <+: word) (hne : text ≠ word) (hnext : ∀ ch ∈ word, d.current ≠ some ch) :
    c.eat word = (false, d) := by
  obtain ⟨back, rfl⟩ := hbegins
  cases back with
  | nil => exact absurd (List.append_nil text).symm hne
  | cons ch back => exact h.eat_eq_false (hnext ch (by simp))

/-- Where a beginning of the word stands, and no character of it follows, that beginning
    is passed. -/
theorem Walks.eat_snd {word : List Char} (h : c.Walks text d) (hbegins : text <+: word)
    (hnext : ∀ ch ∈ word, d.current ≠ some ch) : (c.eat word).2 = d := by
  by_cases heq : text = word
  · rw [eat_eq_true_iff.mpr (heq ▸ h)]
  · rw [h.eat_eq_false_of_begins hbegins heq hnext]

/-! ### Skipping -/

/-- Skipping walks characters to be skipped, and stops on another. -/
theorem exists_walks_skipWhile (keep : Char → Bool) (c : Cursor) :
    ∃ text, c.Walks text (c.skipWhile fun _ ch => keep ch) ∧ (∀ ch ∈ text, keep ch = true) ∧
      (c.skipWhile fun _ ch => keep ch).current.any keep = false := by
  by_cases hk : c.current.any keep = true
  · obtain ⟨ch, hcur, hch⟩ := (Option.any_eq_true _ _).mp hk
    have hless : c.advance.rest.length < c.rest.length := advance_lt hcur
    obtain ⟨text, hwalks, htext, hstop⟩ := exists_walks_skipWhile keep c.advance
    rw [skipWhile_eq_advance hcur hch]
    exact ⟨ch :: text, .step hcur hwalks, List.forall_mem_cons.mpr ⟨hch, htext⟩, hstop⟩
  · rw [Bool.not_eq_true] at hk
    rw [skipWhile_eq_self_of_any hk]
    exact ⟨[], .stay, by simp, hk⟩
termination_by c.rest.length

theorem Walks.skipWhile_eq (keep : Char → Bool) (h : c.Walks text d)
    (htext : ∀ ch ∈ text, keep ch = true) (hstop : d.current.any keep = false) :
    (c.skipWhile fun _ ch => keep ch) = d := by
  induction h with
  | stay => exact skipWhile_eq_self_of_any hstop
  | step hcur _ ih =>
    obtain ⟨hch, htext⟩ := List.forall_mem_cons.mp htext
    rw [skipWhile_eq_advance hcur hch, ih htext hstop]

/-- Skipping up to a character walks the text before it, from a character on that is
    another. -/
theorem exists_walks_skipUntil {target ch : Char} (hcur : c.current = some ch) (hne : ch ≠ target) :
    ∃ text, c.Walks (ch :: text) (c.skipUntil target) ∧ target ∉ text := by
  obtain ⟨text, hwalks, hkeep, -⟩ := exists_walks_skipWhile (· != target) c.advance
  have hskip : c.skipUntil target = c.advance.skipUntil target :=
    skipWhile_eq_advance hcur (by simpa using hne)
  refine ⟨text, ?_, ?_⟩
  · rw [hskip]
    exact .step hcur hwalks
  · intro hmem
    simpa using hkeep target hmem

theorem Walks.skipUntil_eq {target : Char} (h : c.Walks text d) (htext : target ∉ text)
    (hcur : d.current = some target) : c.skipUntil target = d := by
  apply h.skipWhile_eq (· != target)
  · intro ch hch
    rw [bne_iff_ne]
    rintro rfl
    exact htext hch
  · rw [hcur, Option.any_some, bne_self_eq_false]

theorem exists_walks_skipWhitespace (c : Cursor) :
    ∃ gap, c.Walks gap c.skipWhitespace ∧ IsGap gap ∧
      c.skipWhitespace.current.any isWhitespace = false :=
  exists_walks_skipWhile isWhitespace c

theorem Walks.skipWhitespace_eq {gap : List Char} (h : c.Walks gap d) (hgap : IsGap gap)
    (hstop : d.current.any isWhitespace = false) : c.skipWhitespace = d :=
  h.skipWhile_eq isWhitespace hgap hstop

end Cursor

end ModuleScan
