/-
  ModuleScan/Proofs/LiteralExact.lean
  ===================================
  **The first character at which a literal cannot go on decides what it comes to.**

  Behind its opening quote a literal stops at a brace, at a plus sign, or at a quote of
  its kind with an even number of backslashes before it (`StopsLiteral`).  If the first
  of these positions holds the quote, the text up to there is the result, and the cursor
  passes the quote and the comments behind it.  If it holds one of the others, or if
  there is none, the literal is reported on the line of its opening quote, and nothing
  else is left of the attempt (`literal_exact`).
-/
import Mathlib.Order.Bounds.Basic
import ModuleScan.Proofs.Fragments
import ModuleScan.Proofs.Shifting

namespace ModuleScan

/-! ### Where a literal stops -/

/-- The literal that `quote` opens before `text` cannot go on at the position `j`. -/
def StopsLiteral (quote : Char) (text : List Char) (j : Nat) : Prop :=
  text[j]? = some '{' ∨ text[j]? = some '+' ∨
    text[j]? = some quote ∧ Even (trailingBackslashes (text.take j))

/-- The position is the first one at which the literal cannot go on. -/
def FirstStop (quote : Char) (text : List Char) (j : Nat) : Prop :=
  IsLeast {i | StopsLiteral quote text i} j

variable {quote : Char} {text front after : List Char} {j : Nat}

theorem goesOn_eq_false_iff {escaped : Bool} {ch : Char} :
    goesOn quote escaped ch = false ↔ ch = '{' ∨ ch = '+' ∨ ch = quote ∧ escaped = false := by
  cases escaped <;> simp [goesOn] <;> tauto

theorem escapedAfter_eq_false_iff :
    escapedAfter false text = false ↔ Even (trailingBackslashes text) := by
  rw [← Bool.not_eq_true, escapedAfter_false_iff, Nat.not_odd_iff_even]

theorem stopsLiteral_iff : StopsLiteral quote text j ↔
    ∃ ch, text[j]? = some ch ∧ goesOn quote (escapedAfter false (text.take j)) ch = false := by
  simp only [goesOn_eq_false_iff, escapedAfter_eq_false_iff, StopsLiteral]
  constructor
  · rintro (h | h | ⟨h, heven⟩)
    · exact ⟨'{', h, Or.inl rfl⟩
    · exact ⟨'+', h, Or.inr (Or.inl rfl)⟩
    · exact ⟨quote, h, Or.inr (Or.inr ⟨rfl, heven⟩)⟩
  · rintro ⟨ch, h, rfl | rfl | ⟨rfl, heven⟩⟩
    · exact Or.inl h
    · exact Or.inr (Or.inl h)
    · exact Or.inr (Or.inr ⟨h, heven⟩)

theorem isQuote_eq_false_of_mem {ch : Char} (hch : ch ∈ ['{', '+']) : isQuote ch = false := by
  have hall : ∀ ch ∈ ['{', '+'], isQuote ch = false := forall_mem_of_all (by decide)
  exact hall ch hch

theorem StopsLiteral.even (h : StopsLiteral quote text j) (hq : isQuote quote = true)
    (hj : text[j]? = some quote) : Even (trailingBackslashes (text.take j)) := by
  have hne : ∀ ch ∈ ['{', '+'], text[j]? ≠ some ch := by
    intro ch hch heq
    obtain rfl : quote = ch := Option.some.inj (hj.symm.trans heq)
    rw [isQuote_eq_false_of_mem hch] at hq
    cases hq
  rcases h with h | h | ⟨-, heven⟩
  · exact absurd h (hne '{' (by simp))
  · exact absurd h (hne '+' (by simp))
  · exact heven

theorem StopsLiteral.lt_length (h : StopsLiteral quote text j) : j < text.length := by
  obtain ⟨ch, hch, -⟩ := stopsLiteral_iff.mp h
  exact (List.getElem?_eq_some_iff.mp hch).1

/-- A literal does not stop in a text in which it goes on. -/
theorem not_stopsLiteral_of_stays (h : staysInLiteral quote false front = true)
    (hj : j < front.length) : ¬ StopsLiteral quote (front ++ after) j := by
  rw [stopsLiteral_iff]
  rintro ⟨ch, hch, hstops⟩
  rw [List.getElem?_append_left hj] at hch
  obtain ⟨_, rfl⟩ := List.getElem?_eq_some_iff.mp hch
  rw [List.take_append_of_le_length (Nat.le_of_lt hj)] at hstops
  rw [← List.take_append_drop j front, List.drop_eq_getElem_cons hj, staysInLiteral_append,
    staysInLiteral, Bool.and_eq_true] at h
  have hgoes := h.2.1
  rw [hstops] at hgoes
  cases hgoes

theorem firstStop_of_stays {ch : Char} (h : staysInLiteral quote false front = true)
    (hch : goesOn quote (escapedAfter false front) ch = false) :
    FirstStop quote (front ++ ch :: after) front.length := by
  constructor
  · exact stopsLiteral_iff.mpr ⟨ch, by simp, by rwa [List.take_left]⟩
  · intro i hi
    rw [← Nat.not_lt]
    intro hlt
    exact not_stopsLiteral_of_stays h hlt hi

/-- Up to its first stop a literal goes on. -/
theorem FirstStop.stays (h : FirstStop quote text j) :
    staysInLiteral quote false (text.take j) = true ∧
      LiteralStops quote (escapedAfter false (text.take j)) (text.drop j) := by
  obtain ⟨front, after, rfl, hstays, hstops⟩ := exists_staysInLiteral_append quote false text
  cases after with
  | nil =>
    have hlt := StopsLiteral.lt_length h.1
    rw [List.append_nil] at hlt
    exact absurd h.1 (not_stopsLiteral_of_stays hstays hlt)
  | cons ch after =>
    obtain rfl : j = front.length := h.unique (firstStop_of_stays hstays (hstops ch rfl))
    rw [List.take_left, List.drop_left]
    exact ⟨hstays, hstops⟩

theorem staysInLiteral_of_forall_not (h : ∀ j, ¬ StopsLiteral quote text j) :
    staysInLiteral quote false text = true := by
  obtain ⟨front, after, rfl, hstays, hstops⟩ := exists_staysInLiteral_append quote false text
  cases after with
  | nil => rwa [List.append_nil]
  | cons ch after => exact absurd (firstStop_of_stays hstays (hstops ch rfl)).1 (h front.length)

/-- A literal stops somewhere, or nowhere. -/
theorem exists_firstStop_or (quote : Char) (text : List Char) :
    (∃ j, FirstStop quote text j) ∨ ∀ j, ¬ StopsLiteral quote text j := by
  obtain ⟨front, after, rfl, hstays, hstops⟩ := exists_staysInLiteral_append quote false text
  cases after with
  | nil =>
    right
    intro j hj
    have hlt := hj.lt_length
    rw [List.append_nil] at hlt
    exact not_stopsLiteral_of_stays hstays hlt hj
  | cons ch after => exact Or.inl ⟨front.length, firstStop_of_stays hstays (hstops ch rfl)⟩

/-! ### The comments behind a literal -/

def Fragment.isComment : Fragment → Bool
  | .character _ => false
  | .comment _ _ => true

/-- What is left of a text behind the comments at its front, if `before` stands before
    the text. -/
def behindComments (before s : List Char) : List Char :=
  ((fragments before s).dropWhile Fragment.isComment).flatMap Fragment.text

theorem charactersFrom_of_isComment {front : List Fragment}
    (h : ∀ f ∈ front, f.isComment = true) (offset : Nat) : charactersFrom offset front = [] := by
  induction front generalizing offset with
  | nil => rfl
  | cons f front ih =>
    obtain ⟨hf, hfront⟩ := List.forall_mem_cons.mp h
    cases f with
    | character c => cases hf
    | comment kind text => exact ih hfront _

theorem eq_nil_of_visits_visible {p : Place} {s : List Char} (h : visits .visible p s = []) :
    s = [] := by
  cases s with
  | nil => rfl
  | cons c rest => cases h

theorem place_eq_of_visits_visible {p q : Place} {s : List Char} {c : Char}
    {visited : List (Place × Char)} (h : visits .visible p s = (q, c) :: visited) : p = q := by
  cases s with
  | nil => cases h
  | cons d rest => exact congrArg Prod.fst (List.cons.inj h).1

/-- A sweep that keeps nothing comes to the first place that is visited. -/
theorem visits_sweep_code (p : Place) (s : List Char) :
    visits .visible (sweep (fun _ _ => false) .code p s).1 (sweep (fun _ _ => false) .code p s).2 =
      visits .code p s := by
  rw [visits_sweep _ (by simp)]
  cases visits .code p s <;> rfl

/-- A cursor that passes comments only comes to rest behind them. -/
theorem sweep_behindComments {before s : List Char} {p : Place} (hp : p.Tells before s.head?) :
    (sweep (fun _ _ => false) .code p s).2 = behindComments before s := by
  obtain ⟨visited, q, after, hback, hread⟩ := exists_readThrough
    (List.takeWhile_append_dropWhile (p := Fragment.isComment) (l := fragments before s)).symm hp
  have hafter : after = behindComments before s := by
    rw [behindComments, ← hback, flatMap_text_fragments]
  have hs : s = ((fragments before s).takeWhile Fragment.isComment).flatMap Fragment.text ++
      after := by
    rw [hafter, behindComments, ← List.flatMap_append, List.takeWhile_append_dropWhile,
      flatMap_text_fragments]
  have hnone : visited = [] := by
    have hcharacters := hread.characters
    rw [charactersFrom_of_isComment fun f hf => List.mem_takeWhile_imp hf] at hcharacters
    exact List.map_eq_nil_iff.mp hcharacters
  have hvisits := visits_sweep_code p s
  rw [hread.visits, hnone, List.nil_append] at hvisits
  rw [← hafter]
  cases hfirst : (fragments before s).dropWhile Fragment.isComment with
  | nil =>
    rw [hfirst] at hback
    obtain rfl := eq_nil_of_fragments_eq_nil hback
    exact eq_nil_of_visits_visible hvisits
  | cons f later =>
    have hvisible := List.head?_dropWhile_not Fragment.isComment (fragments before s)
    rw [hfirst] at hback hvisible
    cases f with
    | comment kind text => simp [Fragment.isComment] at hvisible
    | character c =>
      -- the character behind the comments is visited, so the sweep ends at its offset
      obtain ⟨rest, -, hnext⟩ := exists_readThrough_first hback hread.tells
      rw [hnext.visits] at hvisits
      have hplace := place_eq_of_visits_visible hvisits
      obtain ⟨text, htext, hoffset⟩ := sweep_onward (fun _ _ => false) .code p s
      rw [hplace, hread.offset, Nat.add_left_cancel_iff] at hoffset
      exact (append_inj_of_utf8Length (htext.symm.trans hs) hoffset.symm).2

/-- Behind a closing quote a cursor passes comments only. -/
theorem sweep_pass_quote {p : Place} (hescaped : p.escaped = false) (hq : isQuote quote = true)
    (s : List Char) :
    (sweep (fun _ _ => false) .code (p.pass quote s.head?) s).2 = behindComments [quote] s := by
  have hshift : (p.pass quote s.head?).shift 0 1 =
      ((Place.start (quote :: s)).pass quote s.head?).shift p.offset p.line := by
    obtain ⟨hnewline, hblank⟩ : isNewline quote = false ∧ isBlank quote = false :=
      Bool.or_eq_false_iff.mp (isWhitespace_of_isQuote hq)
    have hfirst : (Place.start (quote :: s)).line = 1 := by
      simp [Place.start, beginsLine, hnewline]
    have hline : (p.pass quote s.head?).line + 1 =
        ((Place.start (quote :: s)).pass quote s.head?).line + p.line := by
      rw [Place.pass_line, Place.pass_line, hfirst]
      ac_rfl
    simp only [Place.shift, hline]
    simp [Place.pass, hescaped, hblank, Nat.add_comm, Place.start]
  have htells : ((Place.start (quote :: s)).pass quote s.head?).Tells [quote] s.head? :=
    (Place.tells_start (quote :: s)).pass _
  have hsweep := sweep_shift 0 1 (fun _ _ => false) (fun _ _ => rfl) .code (p.pass quote s.head?) s
  rw [hshift, sweep_shift _ _ _ (fun _ _ => rfl)] at hsweep
  have hrest := congrArg Prod.snd hsweep
  rw [← sweep_behindComments htells]
  exact hrest.symm

/-! ### What a literal comes to -/

theorem Place.passAll_escaped (p : Place) (text : List Char) {after : List Char}
    (hafter : after ≠ []) : (p.passAll text after).escaped = escapedAfter p.escaped text := by
  induction text generalizing p with
  | nil => rfl
  | cons c text ih =>
    have hnext : (text ++ after).head?.isSome = true := by simp [hafter]
    rw [passAll, ih, escapedAfter, Place.pass, hnext, Bool.true_and]

namespace Cursor

variable {c : Cursor}

structure OpensLiteral (c : Cursor) (quote : Char) (text : List Char) : Prop where
  rest : c.rest = quote :: text
  quoted : isQuote quote = true

theorem OpensLiteral.any_isQuote (h : c.OpensLiteral quote text) :
    c.current.any isQuote = true := by
  rw [current, h.rest, List.head?_cons, Option.any_some, h.quoted]

theorem exists_opensLiteral (h : c.current.any isQuote = true) :
    ∃ quote text, c.OpensLiteral quote text := by
  obtain ⟨quote, hcur, hq⟩ := (Option.any_eq_true _ _).mp h
  obtain ⟨text, hrest⟩ := current_eq_some hcur
  exact ⟨quote, text, hrest, hq⟩

/-- The cursor at the position `j` behind the opening quote it stands on. -/
def within (c : Cursor) (quote : Char) (text : List Char) (j : Nat) : Cursor :=
  (c.setInString false).past (quote :: text.take j) (text.drop j)

theorem in_within {source : List Char} (hc : c.In source) (hr : c.rest = quote :: text)
    (j : Nat) : (c.within quote text j).In source := by
  obtain ⟨before, hsource, hoffset⟩ := hc
  refine ⟨before ++ quote :: text.take j, ?_, ?_⟩
  · rw [hsource, hr, within, past_rest, List.append_assoc, List.cons_append,
      List.take_append_drop]
  · rw [within, past_offset, utf8Length_append, ← hoffset]
    rfl

theorem rest_within_advance (hq : isQuote quote = true) (hj : text[j]? = some quote)
    (heven : Even (trailingBackslashes (text.take j))) :
    (c.within quote text j).advance.rest = behindComments [quote] (text.drop (j + 1)) := by
  obtain ⟨hlt, hquote⟩ := List.getElem?_eq_some_iff.mp hj
  have hdrop : text.drop j = quote :: text.drop (j + 1) := by
    rw [List.drop_eq_getElem_cons hlt, hquote]
  have hescaped : (c.within quote text j).escaped = false := by
    have hopening : (quote == '\\') = false := by
      rw [beq_eq_false_iff_ne]
      rintro rfl
      exact absurd hq (by decide)
    refine (Place.passAll_escaped c.toPlace _ (by simp [hdrop])).trans ?_
    rw [escapedAfter, hopening, Bool.false_and, escapedAfter_eq_false_iff]
    exact heven
  have hrest : (c.within quote text j).rest = quote :: text.drop (j + 1) := hdrop
  rw [advance, hrest]
  exact sweep_pass_quote hescaped hq (text.drop (j + 1))

end Cursor

namespace ScanM

variable {s : Scan}

theorem literal_of_closes (hs : s.Sited) (hr : s.cursor.rest = quote :: text)
    (hq : isQuote quote = true) (h : FirstStop quote text j) (hj : text[j]? = some quote) :
    literal s = .ok (some (String.ofList (text.take j)),
      { s with cursor := (s.cursor.within quote text j).advance }) := by
  obtain ⟨hstays, hstops⟩ := h.stays
  have hcur : s.cursor.current = some quote := by rw [Cursor.current, hr, List.head?_cons]
  have hr' : s.cursor.rest = quote :: (text.take j ++ text.drop j) := by
    rw [List.take_append_drop, hr]
  apply Ends.eq_ok
  rw [ends_literal hs hcur hq, Cursor.literalText_of_stays hr' hq hstays hstops, List.head?_drop,
    hj, Cursor.endOfLiteral_eq_past hr' hq hstays hstops]
  simp only [beq_self_eq_true, if_true]
  exact ⟨trivial, rfl⟩

theorem literal_of_computed (hs : s.Sited) (hr : s.cursor.rest = quote :: text)
    (hq : isQuote quote = true) (h : FirstStop quote text j)
    (hj : text[j]? = some '{' ∨ text[j]? = some '+') :
    literal s = .ok (none,
      { s with findings := .diagnostic .dynamicSpecifier s.cursor.line :: s.findings }) := by
  obtain ⟨hstays, hstops⟩ := h.stays
  have hcur : s.cursor.current = some quote := by rw [Cursor.current, hr, List.head?_cons]
  have hr' : s.cursor.rest = quote :: (text.take j ++ text.drop j) := by
    rw [List.take_append_drop, hr]
  have hne : ∀ ch ∈ ['{', '+'], ch ≠ quote := by
    rintro ch hch rfl
    rw [isQuote_eq_false_of_mem hch] at hq
    cases hq
  apply Ends.eq_ok
  rw [ends_literal hs hcur hq, Cursor.literalText_of_stays hr' hq hstays hstops, List.head?_drop]
  rcases hj with hj | hj
  · simp [hj, hne '{' (by simp)]
  · simp [hj, hne '+' (by simp)]

theorem literal_of_endless (hs : s.Sited) (hr : s.cursor.rest = quote :: text)
    (hq : isQuote quote = true) (h : ∀ j, ¬ StopsLiteral quote text j) :
    literal s = .ok (none,
      { s with findings := .diagnostic .unterminatedSpecifier s.cursor.line :: s.findings }) := by
  have hcur : s.cursor.current = some quote := by rw [Cursor.current, hr, List.head?_cons]
  have hr' : s.cursor.rest = quote :: (text ++ []) := by rw [List.append_nil, hr]
  apply Ends.eq_ok
  rw [ends_literal hs hcur hq,
    Cursor.literalText_of_stays hr' hq (staysInLiteral_of_forall_not h) (by simp [LiteralStops])]
  simp

/-- **What a literal is read as.**  The first position that stops it holds the closing
    quote, and the text up to there is the result; or it holds a brace or a plus sign, or
    there is none, and the literal is reported on the line of its opening quote, with the
    cursor and what was saved as they were. -/
theorem literal_exact (hs : s.Sited) (hr : s.cursor.rest = quote :: text)
    (hq : isQuote quote = true) :
    (∀ j, FirstStop quote text j →
      (text[j]? = some quote → ∃ d, literal s =
          .ok (some (String.ofList (text.take j)), { s with cursor := d }) ∧
        d.In s.source ∧ d.inString = false ∧
        d.rest = behindComments [quote] (text.drop (j + 1))) ∧
      (text[j]? = some '{' ∨ text[j]? = some '+' → literal s = .ok (none,
        { s with findings := .diagnostic .dynamicSpecifier s.cursor.line :: s.findings }))) ∧
    ((∀ j, ¬ StopsLiteral quote text j) → literal s = .ok (none,
      { s with findings := .diagnostic .unterminatedSpecifier s.cursor.line :: s.findings })) := by
  refine ⟨?_, literal_of_endless hs hr hq⟩
  intro j h
  refine ⟨?_, literal_of_computed hs hr hq h⟩
  intro hj
  refine ⟨_, literal_of_closes hs hr hq h hj, ?_, ?_, ?_⟩
  · exact (Cursor.in_within hs hr j).onward (Cursor.onward_advance _)
  · rw [Cursor.advance_inString]
    rfl
  · exact Cursor.rest_within_advance hq hj (h.1.even hq hj)

/-- An escaped quote does not end the literal, and the comment behind it is passed. -/
theorem literal_exact_escaped :
    let s := Scan.ofSource "'a\\'b'/*c*/;".toList
    FirstStop '\x27' "a\\'b'/*c*/;".toList 4 ∧
      ∃ d, literal s = .ok (some "a\\'b", { s with cursor := d }) ∧ d.In s.source ∧
        d.inString = false ∧ d.rest = [';'] := by
  have hstop : FirstStop '\x27' "a\\'b'/*c*/;".toList 4 :=
    @firstStop_of_stays '\x27' "a\\'b".toList "/*c*/;".toList '\x27' (by decide) (by decide)
  have hbehind : behindComments ['\x27'] "/*c*/;".toList = [';'] := by decide +kernel
  have hsited := Scan.sited_ofSource "'a\\'b'/*c*/;".toList
  obtain ⟨d, hliteral, hin, hcode, hrest⟩ := ((literal_exact hsited rfl rfl).1 4 hstop).1 rfl
  exact ⟨hstop, d, hliteral, hin, hcode, hrest.trans hbehind⟩

end ScanM

end ModuleScan
