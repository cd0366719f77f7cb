/-
  ModuleScan/Proofs/Passing.lean
  ==============================
  **Passing text as it stands.**

  Where no comment begins, and everywhere in a literal, a movement passes the very
  characters of the text.  `c.past text after` is the cursor that has passed
  `text` and has `after` left to read; advancing, skipping and matching words
  lead to such cursors.
-/
import ModuleScan.Scan.Progress

namespace ModuleScan

/-! ### Places after a text -/

/-- The place after the characters of `text`, when `after` follows them. -/
def Place.passAll (p : Place) : List Char → List Char → Place
  | [], _ => p
  | c :: text, after => (p.pass c (text ++ after).head?).passAll text after

theorem Place.passAll_append (p : Place) (text text' after : List Char) :
    p.passAll (text ++ text') after = (p.passAll text (text' ++ after)).passAll text' after := by
  induction text generalizing p with
  | nil => rfl
  | cons c text ih => simp only [List.cons_append, passAll, ih, List.append_assoc]

@[simp] theorem Place.passAll_offset (p : Place) (text after : List Char) :
    (p.passAll text after).offset = p.offset + utf8Length text := by
  induction text generalizing p with
  | nil => rfl
  | cons c text ih =>
    rw [passAll, ih, utf8Length_cons, ← Nat.add_assoc]
    rfl

/-- Whether the character after `text` is escaped, if the first one of `text` is
    escaped or not as given. -/
def escapedAfter : Bool → List Char → Bool
  | escaped, [] => escaped
  | escaped, c :: text => escapedAfter (c == '\\' && !escaped) text

/-! ### Cursors after a text -/

namespace Cursor

/-- The cursor that has passed `text` and has `after` left to read. -/
def past (c : Cursor) (text after : List Char) : Cursor :=
  { c with toPlace := c.toPlace.passAll text after, rest := after }

variable (c : Cursor) (text text' after : List Char)

@[simp] theorem past_rest : (c.past text after).rest = after := rfl

@[simp] theorem past_inString : (c.past text after).inString = c.inString := rfl

@[simp] theorem past_offset : (c.past text after).offset = c.offset + utf8Length text :=
  Place.passAll_offset _ _ _

@[simp] theorem past_nil : c.past [] c.rest = c := rfl

@[simp] theorem past_current : (c.past text after).current = after.head? := rfl

@[simp] theorem setInString_past (b : Bool) :
    (c.past text after).setInString b = (c.setInString b).past text after := rfl

theorem past_past :
    (c.past text (text' ++ after)).past text' after = c.past (text ++ text') after := by
  simp only [past, Place.passAll_append]

theorem past_past_of_eq {after' : List Char} (h : after' = text' ++ after) :
    (c.past text after').past text' after = c.past (text ++ text') after := by
  rw [h, past_past]

theorem past_append_singleton (ch : Char) :
    (c.past (text ++ [ch]) after).toPlace =
      (c.past text (ch :: after)).toPlace.pass ch after.head? := by
  simp [past, Place.passAll_append, Place.passAll]

theorem prev_past (ch : Char) : (c.past (text ++ [ch]) after).prev = some ch := by
  rw [past_append_singleton]
  rfl

theorem prev_past_of_not_mem {ch : Char} (hne : text ≠ []) (hch : ch ∉ text) :
    (c.past text after).prev ≠ some ch := by
  obtain ⟨init, last, rfl⟩ : ∃ init last, text = init ++ [last] :=
    ⟨text.dropLast, text.getLast hne, (List.dropLast_concat_getLast hne).symm⟩
  rw [prev_past]
  intro hlast
  obtain rfl : last = ch := Option.some.inj hlast
  exact hch (by simp)

theorem statementStart_past_of_endsStatement {ch : Char} (h : endsStatement ch = true) :
    (c.past (text ++ [ch]) after).statementStart = true := by
  rw [past_append_singleton]
  simp [Place.pass, h]

theorem statementStart_past_eq_false {ch : Char} (hend : endsStatement ch = false)
    (hblank : isBlank ch = false) : (c.past (text ++ [ch]) after).statementStart = false := by
  rw [past_append_singleton]
  simp [Place.pass, hend, hblank]

/-- The mark of a statement start does not come back before a statement ends. -/
theorem statementStart_past_of_not_endsStatement (hc : c.statementStart = false)
    (h : ∀ ch ∈ text, endsStatement ch = false) :
    (c.past text after).statementStart = false := by
  induction text generalizing c with
  | nil => exact hc
  | cons ch text ih =>
    have hch : endsStatement ch = false := h ch (by simp)
    have hpass : (c.past [ch] (text ++ after)).statementStart = false := by
      simp [past, Place.passAll, Place.pass, hch, hc]
    have hrest := ih (c.past [ch] (text ++ after)) hpass fun d hd => h d (by simp [hd])
    rwa [past_past, List.singleton_append] at hrest

end Cursor

/-! ### Text without comments -/

def opensComment : List Char → Bool
  | '/' :: '/' :: _ => true
  | '/' :: '*' :: _ => true
  | _ => false

/-- No comment begins in `text`, or right after it. -/
def commentFree : List Char → List Char → Bool
  | [], after => !opensComment after
  | c :: text, after => !opensComment (c :: (text ++ after)) && commentFree text after

theorem commentFree_append {text text' after : List Char} :
    commentFree (text ++ text') after = true ↔
      commentFree text (text' ++ after) = true ∧ commentFree text' after = true := by
  induction text with
  | nil =>
    simp only [List.nil_append, commentFree, iff_and_self]
    cases text' with
    | nil => exact id
    | cons c text' =>
      intro h
      exact (Bool.and_eq_true_iff.mp h).1
  | cons c text ih => simp only [List.cons_append, commentFree, List.append_assoc,
      Bool.and_eq_true, ih, and_assoc]

theorem opensComment_of_commentFree {text after : List Char}
    (h : commentFree text after = true) : opensComment (text ++ after) = false := by
  cases text with
  | nil => simpa [commentFree] using h
  | cons c text => simpa using (Bool.and_eq_true_iff.mp h).1

theorem opensComment_of_ne_slash {c : Char} (h : c ≠ '/') (after : List Char) :
    opensComment (c :: after) = false := by
  unfold opensComment
  split
  next heq => exact absurd (List.cons.inj heq).1 h
  next heq => exact absurd (List.cons.inj heq).1 h
  · rfl

theorem commentFree_of_not_mem {text after : List Char} (h : '/' ∉ text)
    (hafter : opensComment after = false) : commentFree text after = true := by
  induction text with
  | nil => simp [commentFree, hafter]
  | cons c text ih =>
    rw [List.mem_cons, not_or] at h
    rw [commentFree, opensComment_of_ne_slash (Ne.symm h.1), ih h.2]
    rfl

def commentMarkers : List (List Char) := [['/', '/'], ['/', '*']]

def Uncommented (text : List Char) : Prop := ∀ marker ∈ commentMarkers, ¬ marker <:+: text

theorem uncommented_of_not_mem {text : List Char} (h : '/' ∉ text) : Uncommented text := by
  intro marker hmarker hwithin
  have hslash : ∀ marker ∈ commentMarkers, '/' ∈ marker := by decide
  exact h (hwithin.subset (hslash marker hmarker))

theorem commentFree_of_uncommented {text after : List Char} (h : Uncommented text)
    (hafter : ∀ c, after.head? = some c → c ≠ '/' ∧ c ≠ '*') : commentFree text after = true := by
  induction text with
  | nil =>
    cases after with
    | nil => rfl
    | cons d after => simp [commentFree, opensComment_of_ne_slash (hafter d rfl).1]
  | cons c text ih =>
    have htext : Uncommented text := by
      intro marker hm hwithin
      exact h marker hm (hwithin.trans (List.suffix_cons c text).isInfix)
    rw [commentFree, ih htext, Bool.and_true, Bool.not_eq_true']
    -- a comment opens on two characters of the text, or on its last one and the next
    cases hnext : text ++ after with
    | nil =>
      by_cases hc : c = '/'
      · rw [hc]
        rfl
      · exact opensComment_of_ne_slash hc []
    | cons d rest =>
      by_cases hc : c = '/'
      · subst hc
        have hd : d ≠ '/' ∧ d ≠ '*' := by
          cases text with
          | nil => exact hafter d (by rw [← List.nil_append after, hnext, List.head?_cons])
          | cons e text =>
            obtain ⟨rfl, -⟩ := List.cons.inj hnext
            constructor
            · rintro rfl
              exact h ['/', '/'] (by decide) ⟨[], text, rfl⟩
            · rintro rfl
              exact h ['/', '*'] (by decide) ⟨[], text, rfl⟩
        unfold opensComment
        split <;> simp_all
      · exact opensComment_of_ne_slash hc _

theorem Zone.hide?_code_eq_none {p : Place} {c : Char} {rest : List Char}
    (h : opensComment (c :: rest) = false) : Zone.code.hide? p c rest.head? = none := by
  simp only [hide?]
  split
  next hc =>
    obtain rfl : c = '/' := by simpa using (Bool.and_eq_true_iff.mp hc).1
    cases rest with
    | nil => simp
    | cons d rest =>
      have h1 : d ≠ '/' := by
        rintro rfl
        simp [opensComment] at h
      have h2 : d ≠ '*' := by
        rintro rfl
        simp [opensComment] at h
      simp [h1, h2]
  · rfl

/-- Where no comment opens in a text, none opens at its first character. -/
theorem opensComment_cons_append {c : Char} {text after : List Char}
    (hline : ∀ rest, c = '/' → text = '/' :: rest → False)
    (hblock : ∀ rest, c = '/' → text = '*' :: rest → False)
    (hafter : ∀ d, after.head? = some d → d ≠ '/' ∧ d ≠ '*') :
    opensComment (c :: (text ++ after)) = false := by
  rw [← Bool.not_eq_true]
  intro hopens
  cases text with
  | nil =>
    unfold opensComment at hopens
    split at hopens
    next heq =>
      exact (hafter '/' (by rw [← List.nil_append after, (List.cons.inj heq).2]; rfl)).1 rfl
    next heq =>
      exact (hafter '*' (by rw [← List.nil_append after, (List.cons.inj heq).2]; rfl)).2 rfl
    · cases hopens
  | cons d text =>
    unfold opensComment at hopens
    split at hopens
    next heq =>
      cases heq
      exact hline text rfl rfl
    next heq =>
      cases heq
      exact hblock text rfl rfl
    · cases hopens

/-- A block comment goes on where it does not close. -/
theorem Zone.hide?_blockComment_of_unclosed {c : Char} {text after : List Char}
    (hclose : ∀ rest, c = '*' → text = '/' :: rest → False)
    (hafter : ∀ d, after.head? = some d → d ≠ '/' ∧ d ≠ '*') {b : Bool} {p : Place} :
    hide? (.blockComment b) p c (text ++ after).head? =
      some (.blockComment b, p.pass c (text ++ after).head?) := by
  have hgoes : (c == '*' && (text ++ after).head? == some '/') = false := by
    rw [← Bool.not_eq_true]
    intro h
    simp only [Bool.and_eq_true, beq_iff_eq] at h
    obtain ⟨hstar, hslash⟩ := h
    cases text with
    | nil => exact (hafter '/' hslash).1 rfl
    | cons d text => exact hclose text hstar (by rw [Option.some.inj hslash])
  simp only [hide?, hgoes, Bool.false_eq_true, if_false]

/-! ### Sweeps over text as it stands -/

/-- A sweep passes text that it keeps, if no comment begins in it, and ends where
    it refuses the next character. -/
theorem sweep_code (keep : Place → Char → Bool) (p : Place) {text after : List Char}
    (hfree : commentFree text after = true)
    (hkeep : ∀ (q : Place), ∀ c ∈ text, keep q c = true)
    (hstop : ∀ (q : Place), ∀ c, after.head? = some c → keep q c = false) :
    sweep keep .code p (text ++ after) = (p.passAll text after, after) := by
  induction text generalizing p with
  | nil =>
    cases after with
    | nil => rfl
    | cons c after =>
      have hc : opensComment (c :: after) = false := by simpa [commentFree] using hfree
      simp [sweep, Zone.hide?_code_eq_none hc, hstop p c rfl, Place.passAll]
  | cons c text ih =>
    rw [commentFree, Bool.and_eq_true, Bool.not_eq_true'] at hfree
    rw [List.cons_append, sweep_cons_of_keep (Zone.hide?_code_eq_none hfree.1)
      (hkeep p c (by simp)), Place.passAll]
    exact ih _ hfree.2 fun q d hd => hkeep q d (by simp [hd])

namespace Cursor

variable {c : Cursor} {text after : List Char}

theorem ofSource_eq {source : List Char} (h : opensComment source = false) :
    ofSource source = { toPlace := Place.start source, rest := source, inString := false } := by
  have hfree : commentFree [] source = true := by simp [commentFree, h]
  have hsweep := sweep_code (fun _ _ => false) (Place.start source) hfree (by simp) (by simp)
  rw [List.nil_append] at hsweep
  simp only [ofSource, hsweep]
  rfl

theorem advance_eq_past (hc : c.inString = false) {ch : Char} (hr : c.rest = ch :: after)
    (hfree : opensComment after = false) : c.advance = c.past [ch] after := by
  have hnil : commentFree [] after = true := by simp [commentFree, hfree]
  have hsweep := sweep_code (fun _ _ => false) (c.toPlace.pass ch after.head?) hnil (by simp)
    (by simp)
  have hzone : c.zone.afterVisible = .code := by simp [zone, hc, Zone.afterVisible]
  rw [List.nil_append] at hsweep
  simp only [advance, hr, hzone, hsweep]
  rfl

theorem skipWhile_eq_past (hc : c.inString = false) (keep : Char → Bool)
    (hr : c.rest = text ++ after) (hfree : commentFree text after = true)
    (hkeep : ∀ ch ∈ text, keep ch = true) (hstop : ∀ ch, after.head? = some ch → keep ch = false) :
    (c.skipWhile fun _ ch => keep ch) = c.past text after := by
  have hzone : c.zone = .visible := by simp [zone, hc]
  simp only [skipWhile, hr, hzone, past, moveTo]
  -- the first character is visible whatever it is, the others are so in code
  cases text with
  | nil =>
    cases after with
    | nil => rfl
    | cons ch after => simp [sweep, Zone.hide?, hstop ch rfl, Place.passAll]
  | cons ch text =>
    rw [commentFree, Bool.and_eq_true] at hfree
    have hsweep := sweep_code (fun _ ch => keep ch) (c.toPlace.pass ch (text ++ after).head?)
      hfree.2 (fun _ d hd => hkeep d (by simp [hd])) fun _ => hstop
    rw [List.cons_append, sweep_cons_of_keep rfl (hkeep ch (by simp))]
    simp only [Zone.afterVisible, hsweep, Place.passAll]

theorem advance_eq_past_cons (hc : c.inString = false) {ch : Char}
    (hr : c.rest = ch :: (text ++ after)) (hfree : commentFree (ch :: text) after = true) :
    c.advance = c.past [ch] (text ++ after) :=
  advance_eq_past hc hr (opensComment_of_commentFree (Bool.and_eq_true_iff.mp hfree).2)

theorem eat_eq_past (hc : c.inString = false) {word : List Char} (hr : c.rest = word ++ after)
    (hfree : commentFree word after = true) : c.eat word = (true, c.past word after) := by
  induction word generalizing c with
  | nil =>
    obtain rfl : c.rest = after := hr
    rfl
  | cons ch word ih =>
    have hcur : c.current = some ch := by simp [current, hr]
    have hfree' : commentFree word after = true := (Bool.and_eq_true_iff.mp hfree).2
    rw [eat_of_current hcur, advance_eq_past_cons hc hr hfree,
      ih (by simpa using hc) rfl hfree', past_past, List.singleton_append]

/-- Of a word of which only a beginning stands ahead, that beginning is passed. -/
theorem eat_eq_false_past (hc : c.inString = false) {word word' : List Char} {ch : Char}
    (hr : c.rest = word ++ after) (hfree : commentFree word after = true)
    (hne : after.head? ≠ some ch) : c.eat (word ++ ch :: word') = (false, c.past word after) := by
  induction word generalizing c with
  | nil =>
    obtain rfl : c.rest = after := hr
    rw [List.nil_append, eat_of_current_ne hne, past_nil]
  | cons d word ih =>
    have hcur : c.current = some d := by simp [current, hr]
    have hfree' : commentFree word after = true := (Bool.and_eq_true_iff.mp hfree).2
    rw [List.cons_append, eat_of_current hcur, advance_eq_past_cons hc hr hfree,
      ih (by simpa using hc) rfl hfree', past_past, List.singleton_append]

/-- Of a word a beginning is passed that stands ahead, the whole word if it is
    matched.  The word has to end, or fail, within `text`. -/
theorem exists_eat_eq_past (hc : c.inString = false) (word : List Char)
    (hr : c.rest = text ++ after) (hfree : commentFree text after = true)
    (hafter : ∀ ch ∈ word, after.head? ≠ some ch) :
    ∃ pre post, text = pre ++ post ∧ pre <+: word ∧
      (pre = [] → word ≠ [] → text.head? ≠ word.head?) ∧
      c.eat word = (decide (pre = word), c.past pre (post ++ after)) := by
  induction word generalizing c text with
  | nil =>
    refine ⟨[], text, rfl, List.prefix_refl _, by simp, ?_⟩
    rw [← hr]
    rfl
  | cons ch word ih =>
    cases text with
    | nil =>
      obtain rfl : c.rest = after := hr
      have hcur : c.current ≠ some ch := hafter ch (by simp)
      refine ⟨[], [], rfl, List.nil_prefix, by simp, ?_⟩
      rw [eat_of_current_ne hcur]
      simp
    | cons d text =>
      have hcur : c.current = some d := by simp [current, hr]
      by_cases hd : d = ch
      · subst hd
        have hadvance := advance_eq_past_cons hc hr hfree
        obtain ⟨pre, post, rfl, hpre, -, heat⟩ := ih (c := c.past [d] (text ++ after))
          (by simpa using hc) rfl (Bool.and_eq_true_iff.mp hfree).2
          fun e he => hafter e (by simp [he])
        refine ⟨d :: pre, post, rfl, List.cons_prefix_cons.mpr ⟨rfl, hpre⟩, by simp, ?_⟩
        rw [eat_of_current hcur, hadvance, heat, List.append_assoc, past_past]
        simp
      · refine ⟨[], d :: text, rfl, List.nil_prefix, by simp [hd], ?_⟩
        rw [eat_of_current_ne (by simp [hcur, hd]), ← hr, past_nil]
        simp

end Cursor

end ModuleScan
