/-
  ModuleScan/Proofs/LineEndings.lean
  ==================================
  **Texts that differ in how their lines end.**

  Where a line ends with some whitespace rather than with a line feed alone, the
  keywords of a text stay where they are (`LineEnding.mentionsKeyword_endLines`),
  and so does all that a literal depends on: it goes on over whitespace of any
  kind (`OpensLiteral.literalText_eq`).  What is left to compare of two such texts is
  the way between the words, and there a carriage return and a line feed look the
  same to what comes next (`Place.Level`).
-/
import ModuleScan.Extraction
import ModuleScan.Proofs.Literal
import ModuleScan.Proofs.Pairing

namespace ModuleScan

/-! ### Line endings -/

/-- What a line may end with. -/
structure LineEnding where
  text : List Char
  ne_nil : text ≠ []
  whitespace : ∀ c ∈ text, isWhitespace c = true

namespace LineEnding

def lf : LineEnding := ⟨['\n'], by decide, forall_mem_of_all (by decide)⟩

/-- The pair of a carriage return and a line feed. -/
def crlf : LineEnding := ⟨['\r', '\n'], by decide, forall_mem_of_all (by decide)⟩

/-- A line feed, and a blank at the start of the next line. -/
def indented : LineEnding := ⟨['\n', ' '], by decide, forall_mem_of_all (by decide)⟩

variable (e : LineEnding)

/-- The text with this ending in place of every line feed. -/
def endLines (s : List Char) : List Char := s.flatMap fun c => if c = '\n' then e.text else [c]

def endLinesText (text : String) : String := String.ofList (e.endLines text.toList)

@[simp] theorem endLines_nil : e.endLines [] = [] := rfl

@[simp] theorem endLines_newline (s : List Char) :
    e.endLines ('\n' :: s) = e.text ++ e.endLines s :=
  rfl

theorem endLines_cons {c : Char} (hc : c ≠ '\n') (s : List Char) :
    e.endLines (c :: s) = c :: e.endLines s := by
  rw [endLines, List.flatMap_cons, if_neg hc]
  rfl

theorem endLines_append (s t : List Char) : e.endLines (s ++ t) = e.endLines s ++ e.endLines t :=
  List.flatMap_append

theorem lf_endLines (s : List Char) : lf.endLines s = s := by
  induction s with
  | nil => rfl
  | cons c s ih =>
    by_cases hc : c = '\n'
    · subst hc
      rw [endLines_newline, ih]
      rfl
    · rw [endLines_cons lf hc, ih]

end LineEnding

/-! ### Literals -/

theorem goesOn_of_isWhitespace {quote c : Char} (hq : isQuote quote = true)
    (hc : isWhitespace c = true) (escaped : Bool) : goesOn quote escaped c = true := by
  have hne : ∀ d, isWhitespace d = false → c ≠ d := by
    rintro d hd rfl
    rw [hd] at hc
    cases hc
  simp [goesOn, hne quote (isWhitespace_of_isQuote hq), hne '{' (by decide), hne '+' (by decide)]

theorem not_escapes_of_isWhitespace {c : Char} (hc : isWhitespace c = true) (escaped : Bool) :
    (c == '\\' && !escaped) = false := by
  rw [Bool.and_eq_false_iff, beq_eq_false_iff_ne]
  left
  rintro rfl
  exact absurd hc (by decide)

/-- Whitespace is passed, and what follows it is not escaped. -/
theorem staysInLiteral_whitespace {quote : Char} (hq : isQuote quote = true) {space : List Char}
    (hne : space ≠ []) (hspace : ∀ c ∈ space, isWhitespace c = true) (escaped : Bool)
    (text : List Char) :
    staysInLiteral quote escaped (space ++ text) = staysInLiteral quote false text := by
  induction space generalizing escaped with
  | nil => exact absurd rfl hne
  | cons c space ih =>
    have hc : isWhitespace c = true := hspace c (by simp)
    rw [List.cons_append, staysInLiteral, goesOn_of_isWhitespace hq hc,
      not_escapes_of_isWhitespace hc, Bool.true_and]
    by_cases hnil : space = []
    · rw [hnil, List.nil_append]
    · exact ih hnil (fun d hd => hspace d (by simp [hd])) false

theorem escapedAfter_whitespace {space : List Char} (hne : space ≠ [])
    (hspace : ∀ c ∈ space, isWhitespace c = true) (escaped : Bool) (text : List Char) :
    escapedAfter escaped (space ++ text) = escapedAfter false text := by
  induction space generalizing escaped with
  | nil => exact absurd rfl hne
  | cons c space ih =>
    rw [List.cons_append, escapedAfter, not_escapes_of_isWhitespace (hspace c (by simp))]
    by_cases hnil : space = []
    · rw [hnil, List.nil_append]
    · exact ih hnil (fun d hd => hspace d (by simp [hd])) false

namespace LineEnding

variable (e : LineEnding)

theorem staysInLiteral_endLines {quote : Char} (hq : isQuote quote = true) (escaped : Bool)
    (text : List Char) :
    staysInLiteral quote escaped (e.endLines text) = staysInLiteral quote escaped text := by
  induction text generalizing escaped with
  | nil => rfl
  | cons c text ih =>
    by_cases hc : c = '\n'
    · subst hc
      have hfeed := staysInLiteral_whitespace hq lf.ne_nil lf.whitespace escaped text
      rw [endLines_newline, staysInLiteral_whitespace hq e.ne_nil e.whitespace, ih]
      exact hfeed.symm
    · rw [endLines_cons e hc, staysInLiteral, staysInLiteral, ih]

theorem escapedAfter_endLines (escaped : Bool) (text : List Char) :
    escapedAfter escaped (e.endLines text) = escapedAfter escaped text := by
  induction text generalizing escaped with
  | nil => rfl
  | cons c text ih =>
    by_cases hc : c = '\n'
    · subst hc
      have hfeed := escapedAfter_whitespace lf.ne_nil lf.whitespace escaped text
      rw [endLines_newline, escapedAfter_whitespace e.ne_nil e.whitespace, ih]
      exact hfeed.symm
    · rw [endLines_cons e hc, escapedAfter, escapedAfter, ih]

/-- No literal stops at the end of a line. -/
theorem head?_endLines_of_stops {quote : Char} (hq : isQuote quote = true) {escaped : Bool}
    {after : List Char} (h : LiteralStops quote escaped after) :
    (e.endLines after).head? = after.head? := by
  cases after with
  | nil => rfl
  | cons c after =>
    have hc : c ≠ '\n' := by
      rintro rfl
      have hgoes := h '\n' rfl
      rw [goesOn_of_isWhitespace hq (by decide)] at hgoes
      cases hgoes
    rw [endLines_cons e hc, List.head?_cons, List.head?_cons]

end LineEnding

/-- The text begins with a literal, which holds `text` and does not go on at `after`. -/
structure OpensLiteral (quote : Char) (s text after : List Char) : Prop where
  eq : s = quote :: (text ++ after)
  isQuote : isQuote quote = true
  stays : staysInLiteral quote false text = true
  stops : LiteralStops quote (escapedAfter false text) after

theorem exists_opensLiteral {quote : Char} {s : List Char} (hs : s.head? = some quote)
    (hq : isQuote quote = true) : ∃ text after, OpensLiteral quote s text after := by
  obtain ⟨rest, rfl⟩ := List.head?_eq_some_iff.mp hs
  obtain ⟨text, after, rfl, hstays, hstops⟩ := exists_staysInLiteral_append quote false rest
  exact ⟨text, after, rfl, hq, hstays, hstops⟩

namespace OpensLiteral

variable {e : LineEnding} {c : Cursor} {quote : Char} {s text after : List Char}

theorem quote_ne (h : OpensLiteral quote s text after) : quote ≠ '\n' := by
  rintro rfl
  exact absurd h.isQuote (by decide)

theorem rest_eq (h : OpensLiteral quote s text after) (hr : c.rest = e.endLines s) :
    c.rest = quote :: (e.endLines text ++ e.endLines after) := by
  rw [hr, h.eq, e.endLines_cons h.quote_ne, e.endLines_append]

theorem stays_endLines (h : OpensLiteral quote s text after) (e : LineEnding) :
    staysInLiteral quote false (e.endLines text) = true ∧
      LiteralStops quote (escapedAfter false (e.endLines text)) (e.endLines after) := by
  constructor
  · rw [e.staysInLiteral_endLines h.isQuote]
    exact h.stays
  · rw [e.escapedAfter_endLines, LiteralStops, e.head?_endLines_of_stops h.isQuote h.stops]
    exact h.stops

/-- What a literal comes to does not hang on how the lines end. -/
theorem literalText_eq (h : OpensLiteral quote s text after) (hr : c.rest = e.endLines s) :
    c.literalText quote = match after.head? with
      | none => .error .unterminatedSpecifier
      | some ch =>
        if ch == quote then .ok (String.ofList (e.endLines text))
        else .error .dynamicSpecifier := by
  obtain ⟨hstays, hstops⟩ := h.stays_endLines e
  have htext := Cursor.literalText_of_stays (h.rest_eq hr) h.isQuote hstays hstops
  rw [e.head?_endLines_of_stops h.isQuote h.stops] at htext
  cases hhead : after.head? with
  | none =>
    rw [hhead] at htext
    exact htext
  | some ch =>
    rw [hhead] at htext
    exact htext

theorem afterLiteral_eq (h : OpensLiteral quote s text after) (hr : c.rest = e.endLines s)
    (hc : c.inString = false) :
    c.afterLiteral quote =
      (c.past (quote :: e.endLines text) (e.endLines after)).advance := by
  obtain ⟨hstays, hstops⟩ := h.stays_endLines e
  have houtside : (c.setInString true).setInString false = c := by
    rw [← hc]
    rfl
  rw [Cursor.afterLiteral, Cursor.endOfLiteral_eq_past (h.rest_eq hr) h.isQuote hstays hstops,
    Cursor.setInString_past, houtside]

variable {e' : LineEnding} {d : Cursor}

theorem literalText_error (h : OpensLiteral quote s text after) (hr : c.rest = e.endLines s)
    (hr' : d.rest = e'.endLines s) {kind : DiagnosticKind}
    (hc : c.literalText quote = .error kind) :
    d.literalText quote = .error kind := by
  rw [h.literalText_eq hr] at hc
  rw [h.literalText_eq hr']
  cases hhead : after.head? with
  | none => rwa [hhead] at hc
  | some ch =>
    rw [hhead] at hc
    simp only at hc ⊢
    split at hc
    · cases hc
    next hch => rwa [if_neg hch]

theorem literalText_ok (h : OpensLiteral quote s text after) (hr : c.rest = e.endLines s)
    (hr' : d.rest = e'.endLines s) {result : String} (hc : c.literalText quote = .ok result) :
    result = String.ofList (e.endLines text) ∧
      d.literalText quote = .ok (String.ofList (e'.endLines text)) := by
  rw [h.literalText_eq hr] at hc
  rw [h.literalText_eq hr']
  cases hhead : after.head? with
  | none =>
    rw [hhead] at hc
    cases hc
  | some ch =>
    rw [hhead] at hc
    simp only at hc ⊢
    split at hc
    next hch =>
      rw [if_pos hch]
      exact ⟨(Except.ok.inj hc).symm, rfl⟩
    · cases hc

end OpensLiteral

/-! ### The keyword test -/

section

variable {word : List Char} (hne : word ≠ []) (hword : ∀ c ∈ word, isWhitespace c = false)

include hne hword

theorem isPrefixOf_whitespace {c : Char} (hc : isWhitespace c = true) (s : List Char) :
    word.isPrefixOf (c :: s) = false := by
  cases word with
  | nil => exact absurd rfl hne
  | cons w word =>
    have hw : w ≠ c := by
      rintro rfl
      rw [hword w (by simp)] at hc
      cases hc
    rw [List.isPrefixOf, beq_false_of_ne hw, Bool.false_and]

theorem occursIn_whitespace {space : List Char} (hspace : ∀ c ∈ space, isWhitespace c = true)
    (s : List Char) : occursIn word (space ++ s) = occursIn word s := by
  induction space with
  | nil => rfl
  | cons c space ih =>
    rw [List.cons_append, occursIn, isPrefixOf_whitespace hne hword (hspace c (by simp)),
      Bool.false_or]
    exact ih fun d hd => hspace d (by simp [hd])

omit hne in
theorem LineEnding.isPrefixOf_endLines (e : LineEnding) (s : List Char) :
    word.isPrefixOf (e.endLines s) = word.isPrefixOf s := by
  induction word generalizing s with
  | nil => rfl
  | cons w word ih =>
    cases s with
    | nil => rfl
    | cons c s =>
      by_cases hc : c = '\n'
      · subst hc
        obtain ⟨first, space, htext⟩ := List.exists_cons_of_ne_nil e.ne_nil
        have hfirst : isWhitespace first = true := e.whitespace first (by simp [htext])
        rw [endLines_newline, htext, List.cons_append,
          isPrefixOf_whitespace (by simp) hword hfirst,
          isPrefixOf_whitespace (by simp) hword (by decide)]
      · rw [endLines_cons e hc, List.isPrefixOf, List.isPrefixOf,
          ih fun d hd => hword d (by simp [hd])]

theorem LineEnding.occursIn_endLines (e : LineEnding) (s : List Char) :
    occursIn word (e.endLines s) = occursIn word s := by
  induction s with
  | nil => rfl
  | cons c s ih =>
    by_cases hc : c = '\n'
    · subst hc
      have hfeed := occursIn_whitespace hne hword lf.whitespace s
      rw [endLines_newline, occursIn_whitespace hne hword e.whitespace, ih]
      exact hfeed.symm
    · have hhere := isPrefixOf_endLines hword e (c :: s)
      rw [endLines_cons e hc] at hhere ⊢
      rw [occursIn, occursIn, hhere, ih]

end

theorem LineEnding.mentionsKeyword_endLines (e : LineEnding) (source : List Char) :
    mentionsKeyword (e.endLines source) = mentionsKeyword source := by
  have hwords : ∀ word ∈ keywords, word ≠ [] ∧ (word.all fun c => !isWhitespace c) = true := by
    decide +kernel
  rw [mentionsKeyword, mentionsKeyword, Bool.eq_iff_iff, List.any_eq_true, List.any_eq_true]
  apply exists_congr
  intro word
  apply and_congr_right
  intro hmem
  obtain ⟨hne, hall⟩ := hwords word hmem
  have hword : ∀ c ∈ word, isWhitespace c = false := by simpa using hall
  rw [occursIn_endLines hne hword]

/-! ### Places -/

/-- The characters are the same, or a line feed and a carriage return. -/
def SameHead (a b : Option Char) : Prop := b = a ∨ a = some '\n' ∧ b = some '\r'

namespace SameHead

variable {a b : Option Char} (h : SameHead a b)

include h

theorem similar : Similar a b := by
  rcases h with rfl | ⟨rfl, rfl⟩
  · exact Or.inl rfl
  · exact Or.inr ⟨rfl, rfl⟩

theorem isSome_eq : b.isSome = a.isSome := by
  rcases h with rfl | ⟨rfl, rfl⟩ <;> rfl

/-- Behind anything but a carriage return both begin a line, or neither does. -/
theorem beginsLine_eq {before before' : Option Char} (hb : before ≠ some '\r')
    (hb' : before' ≠ some '\r') : beginsLine before' b = beginsLine before a := by
  have hnew : b.any isNewline = a.any isNewline := by
    rcases h with rfl | ⟨rfl, rfl⟩ <;> rfl
  have hne : (before == some '\r') = false := by simpa using hb
  have hne' : (before' == some '\r') = false := by simpa using hb'
  rw [beginsLine, beginsLine, hnew, hne, hne', Bool.and_false, Bool.and_false]

end SameHead

theorem LineEnding.sameHead_crlf (s : List Char) : SameHead s.head? (crlf.endLines s).head? := by
  cases s with
  | nil => exact Or.inl rfl
  | cons c s =>
    by_cases hc : c = '\n'
    · subst hc
      exact Or.inr ⟨rfl, rfl⟩
    · exact Or.inl (by rw [endLines_cons crlf hc]; rfl)

/-- The places tell the same, but for the offset, and the characters before them may
    be different whitespace. -/
structure Place.Level (p q : Place) : Prop where
  line : q.line = p.line
  escaped : q.escaped = p.escaped
  statementStart : q.statementStart = p.statementStart
  prev : Similar p.prev q.prev
  interpolates : (q.prev == some '$' && !q.prevEscaped) = (p.prev == some '$' && !p.prevEscaped)

namespace Place.Level

variable {p q : Place} (h : p.Level q)

include h

theorem pass {c : Char} (hc : c ≠ '\r') {next next' : Option Char} (hnext : SameHead next next') :
    (p.pass c next).Level (q.pass c next') where
  line := by
    have hne : some c ≠ some '\r' := by simpa using hc
    simp only [Place.pass, hnext.beginsLine_eq hne hne, h.line]
  escaped := by simp only [Place.pass, hnext.isSome_eq, h.escaped]
  statementStart := by simp only [Place.pass, h.statementStart]
  prev := Or.inl rfl
  interpolates := by simp only [Place.pass, h.escaped]

theorem mark (b : Bool) :
    ({ p with statementStart := b } : Place).Level { q with statementStart := b } :=
  ⟨h.line, h.escaped, rfl, h.prev, h.interpolates⟩

theorem atEnd (z : Zone) : (z.atEnd p).Level (z.atEnd q) := by
  cases z with
  | blockOpening b => exact h.mark b
  | blockComment b => exact h.mark b
  | blockClosing b => exact h.mark b
  | visible => exact h
  | code => exact h
  | literal => exact h
  | lineComment => exact h

theorem passEnd : p.passEnd.Level q.passEnd :=
  ⟨h.line, rfl, h.statementStart, Or.inl rfl, rfl⟩

/-- A character that is the same on both sides is hidden on both, or on neither. -/
theorem hide? (z : Zone) {c : Char} (hc : c ≠ '\r') {next next' : Option Char}
    (hnext : SameHead next next') :
    z.hide? p c next = none ∧ z.hide? q c next' = none ∨
      ∃ z' p' q', z.hide? p c next = some (z', p') ∧ z.hide? q c next' = some (z', q') ∧
        p'.Level q' := by
  have hpass := h.pass hc hnext
  have hslash : (next == some '/') = (next' == some '/') := hnext.similar.beq_eq (by decide)
  have hstar : (next == some '*') = (next' == some '*') := hnext.similar.beq_eq (by decide)
  cases z with
  | visible => exact Or.inl ⟨rfl, rfl⟩
  | literal => exact Or.inl ⟨rfl, rfl⟩
  | code =>
    simp only [Zone.hide?, hslash, hstar, h.escaped, h.statementStart]
    split
    · split
      · exact Or.inr ⟨_, _, _, rfl, rfl, hpass⟩
      · split
        · exact Or.inr ⟨_, _, _, rfl, rfl, hpass⟩
        · exact Or.inl ⟨rfl, rfl⟩
    · exact Or.inl ⟨rfl, rfl⟩
  | lineComment => exact Or.inr ⟨_, _, _, rfl, rfl, hpass⟩
  | blockOpening b => exact Or.inr ⟨_, _, _, rfl, rfl, hpass⟩
  | blockComment b =>
    simp only [Zone.hide?, hslash]
    exact Or.inr ⟨_, _, _, rfl, rfl, hpass⟩
  | blockClosing b => exact Or.inr ⟨_, _, _, rfl, rfl, hpass.mark b⟩

omit h in
theorem start {s t : List Char} (hhead : SameHead s.head? t.head?) :
    (Place.start s).Level (Place.start t) where
  line := by
    have hbegins : beginsLine none t.head? = beginsLine none s.head? :=
      hhead.beginsLine_eq (by decide) (by decide)
    simp only [Place.start, hbegins]
  escaped := rfl
  statementStart := rfl
  prev := Or.inl rfl
  interpolates := rfl

theorem followsCallBoundary_eq : q.followsCallBoundary = p.followsCallBoundary := by
  rw [Place.followsCallBoundary, Place.followsCallBoundary]
  rcases h.prev with heq | ⟨hp, hq⟩
  · rw [heq]
  · obtain ⟨c, hc, hcw⟩ := (Option.any_eq_true _ _).mp hp
    obtain ⟨d, hd, hdw⟩ := (Option.any_eq_true _ _).mp hq
    simp only [hc, hd, hcw, hdw, Bool.true_or]

end Place.Level

/-! ### Code -/

namespace Cursor

/-- The cursor that a sweep through code comes to. -/
def inCode (target : Place × List Char) : Cursor where
  toPlace := target.1
  rest := target.2
  inString := false

theorem advance_eq_inCode {c : Cursor} (hc : c.inString = false) {ch : Char} {rest : List Char}
    (hr : c.rest = ch :: rest) :
    c.advance = inCode (sweep (fun _ _ => false) .code (c.toPlace.pass ch rest.head?) rest) := by
  have hzone : c.zone.afterVisible = .code := by
    rw [zone, hc]
    rfl
  simp only [advance, hr, hzone, moveTo, inCode, hc]

end Cursor

/-! ### Findings -/

/-- The result with the texts of its references carried over. -/
def Extraction.mapTexts (text : String → String) (result : Extraction) : Extraction where
  references := result.references.map text
  diagnostics := result.diagnostics

theorem Extraction.ofFindings_map (label : String) (text : String → String) (found : List Finding) :
    Extraction.ofFindings label (found.map (Finding.map text id)) =
      (Extraction.ofFindings label found).mapTexts text := by
  have hreference : ∀ finding, (Finding.map text id finding).reference? =
      finding.reference?.map text := by
    intro finding
    cases finding <;> rfl
  have hdiagnostic : ∀ finding, (Finding.map text id finding).diagnostic? label =
      finding.diagnostic? label := by
    intro finding
    cases finding <;> rfl
  simp only [Extraction.ofFindings, Extraction.mapTexts, List.filterMap_map, List.map_filterMap,
    Function.comp_def, hreference, hdiagnostic]

/-- The answers differ in the texts of the references at most if the findings of
    the scans do. -/
theorem LineEnding.extract_eq_mapTexts (e e' : LineEnding) {text : String → String}
    {source : String} (label : String)
    (h : scanFindings (e.endLines source.toList) =
      (scanFindings (e'.endLines source.toList)).map (Finding.map text id)) :
    extract (e.endLinesText source) label =
      (extract (e'.endLinesText source) label).mapTexts text := by
  have hfindings : findings (e.endLines source.toList) =
      (findings (e'.endLines source.toList)).map (Finding.map text id) := by
    rw [findings, findings, mentionsKeyword_endLines, mentionsKeyword_endLines]
    split
    · exact h
    · rfl
  rw [extract, extract, endLinesText, endLinesText, String.toList_ofList, String.toList_ofList,
    hfindings, Extraction.ofFindings_map]

end ModuleScan
