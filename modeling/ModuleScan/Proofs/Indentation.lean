/-
  ModuleScan/Proofs/Indentation.lean
  ==================================
  **A line feed behind a carriage return is a blank.**

  Of the pair that ends a line a scan takes the carriage return for the end of the
  line, and the line feed for whitespace at the start of the next one.  So a source
  whose lines end with such pairs is scanned as one whose lines end with line feeds
  and begin with a blank each: the two scans go abreast, character by character, and
  find the same (`LineEnding.scanFindings_crlf_indented`).
-/
import ModuleScan.Proofs.Faithful
import ModuleScan.Proofs.LineEndings

namespace ModuleScan

open LineEnding

/-! ### The heads of two texts -/

theorem LineEnding.head?_indented (s : List Char) : (indented.endLines s).head? = s.head? := by
  cases s with
  | nil => rfl
  | cons c s =>
    by_cases hc : c = '\n'
    · subst hc
      rfl
    · rw [endLines_cons indented hc]
      rfl

theorem LineEnding.sameHead_indented (s : List Char) :
    SameHead (indented.endLines s).head? (crlf.endLines s).head? := by
  rw [head?_indented]
  exact sameHead_crlf s

/-! ### Places -/

namespace Place.Level

variable {p q : Place} (h : p.Level q)

include h

/-- The first characters of the two endings, with the second ones next. -/
theorem pass_ending : (p.pass '\n' (some ' ')).Level (q.pass '\r' (some '\n')) where
  line := h.line
  escaped := rfl
  statementStart := rfl
  prev := Or.inr ⟨rfl, rfl⟩
  interpolates := rfl

/-- The second characters of the two endings. -/
theorem pass_indentation (hp : p.statementStart = true) {next next' : Option Char}
    (hnext : SameHead next next') : (p.pass ' ' next).Level (q.pass '\n' next') where
  line := by
    have hbegins : beginsLine (some '\n') next' = beginsLine (some ' ') next :=
      hnext.beginsLine_eq (by decide) (by decide)
    simp only [Place.pass, hbegins, h.line]
  escaped := by
    have hblank : (' ' == '\\') = false := rfl
    have hfeed : ('\n' == '\\') = false := rfl
    simp only [Place.pass, hblank, hfeed, Bool.and_false, Bool.false_and]
  statementStart := by
    have hblank : isBlank ' ' = true := rfl
    have hfeed : endsStatement '\n' = true := rfl
    simp only [Place.pass, hp, hblank, hfeed, Bool.true_or, Bool.and_true, Bool.or_true]
  prev := Or.inr ⟨rfl, rfl⟩
  interpolates := rfl

theorem pass_endings {next next' : Option Char} (hnext : SameHead next next') :
    ((p.pass '\n' (some ' ')).pass ' ' next).Level ((q.pass '\r' (some '\n')).pass '\n' next') :=
  h.pass_ending.pass_indentation rfl hnext

theorem passAll_indented {text : List Char} (htext : '\r' ∉ text) (after : List Char) :
    (p.passAll (indented.endLines text) (indented.endLines after)).Level
      (q.passAll (crlf.endLines text) (crlf.endLines after)) := by
  induction text generalizing p q with
  | nil => exact h
  | cons c text ih =>
    rw [List.mem_cons, not_or] at htext
    have hnext := sameHead_indented (text ++ after)
    rw [endLines_append, endLines_append] at hnext
    by_cases hc : c = '\n'
    · subst hc
      exact ih (h.pass_endings hnext) htext.2
    · rw [endLines_cons _ hc, endLines_cons _ hc]
      exact ih (h.pass (Ne.symm htext.1) hnext) htext.2

end Place.Level

/-! ### Cursors -/

/-- What two cursors have left to read: the same text with either ending, or such a
    text behind the second character of an ending. -/
inductive Remains : Cursor → Cursor → Prop
  | whole {c d : Cursor} (s : List Char) : '\r' ∉ s → c.rest = indented.endLines s →
      d.rest = crlf.endLines s → Remains c d
  | within {c d : Cursor} (s : List Char) : '\r' ∉ s → c.rest = ' ' :: indented.endLines s →
      d.rest = '\n' :: crlf.endLines s → c.statementStart = true → Remains c d

namespace Cursor

/-- The cursors have passed the same text, outside literals. -/
structure Abreast (c d : Cursor) : Prop where
  place : c.toPlace.Level d.toPlace
  remains : Remains c d
  inString : c.inString = false
  inString' : d.inString = false

/-- A sweep through code comes to cursors abreast. -/
theorem sweep_abreast {z : Zone} {p q : Place} (h : p.Level q) {s : List Char}
    (hz : z.Fits (indented.endLines s)) (hvisible : z ≠ .visible) (hliteral : z ≠ .literal)
    (hs : '\r' ∉ s) :
    (inCode (sweep (fun _ _ => false) z p (indented.endLines s))).Abreast
      (inCode (sweep (fun _ _ => false) z q (crlf.endLines s))) := by
  induction s generalizing z p q with
  | nil => exact ⟨h.atEnd z, .whole [] hs rfl rfl, rfl, rfl⟩
  | cons c rest ih =>
    have hstays := hs
    rw [List.mem_cons, not_or] at hs
    have hnext := sameHead_indented rest
    by_cases hnew : c = '\n'
    · subst hnew
      have hpass := h.pass_endings hnext
      cases z with
      | visible => exact absurd rfl hvisible
      | literal => exact absurd rfl hliteral
      | code => exact ⟨h, .whole ('\n' :: rest) hstays rfl rfl, rfl, rfl⟩
      | lineComment => exact ⟨h.pass_ending, .within rest hs.2 rfl rfl rfl, rfl, rfl⟩
      | blockOpening b => exact ih (z := .blockComment b) hpass trivial (by simp) (by simp) hs.2
      | blockComment b => exact ih (z := .blockComment b) hpass trivial (by simp) (by simp) hs.2
      | blockClosing b => exact absurd (Option.some.inj hz) (by decide)
    · rw [endLines_cons _ hnew, endLines_cons _ hnew, sweep, sweep]
      rcases h.hide? z (Ne.symm hs.1) hnext with ⟨hp, hq⟩ | ⟨z', p', q', hp, hq, hlevel⟩
      · rw [hp, hq]
        exact ⟨h, .whole (c :: rest) hstays (endLines_cons _ hnew rest).symm
          (endLines_cons _ hnew rest).symm, rfl, rfl⟩
      · rw [hp, hq]
        exact ih hlevel (Zone.fits_of_hide? hp) (Zone.ne_visible_of_hide? hp)
          (Zone.hide?_eq_some hp).1 hs.2

namespace Abreast

variable {c d : Cursor}

theorem similar (h : c.Abreast d) : Similar c.current d.current := by
  rw [current, current]
  cases h.remains with
  | whole s _ hc hd =>
    rw [hc, hd]
    exact (sameHead_indented s).similar
  | within s _ hc hd _ =>
    rw [hc, hd]
    exact Or.inr ⟨rfl, rfl⟩

theorem advance (h : c.Abreast d) : c.advance.Abreast d.advance := by
  cases h.remains with
  | whole s hs hc hd =>
    cases s with
    | nil =>
      rw [endLines_nil] at hc hd
      refine ⟨?_, .whole [] hs ?_ ?_, ?_, ?_⟩
      · simp only [Cursor.advance, hc, hd]
        exact h.place.passEnd
      · simp only [Cursor.advance, hc, endLines_nil]
      · simp only [Cursor.advance, hd, endLines_nil]
      · rw [advance_inString, h.inString]
      · rw [advance_inString, h.inString']
    | cons ch s =>
      rw [List.mem_cons, not_or] at hs
      by_cases hnew : ch = '\n'
      · subst hnew
        rw [advance_eq_inCode h.inString hc, advance_eq_inCode h.inString' hd]
        exact ⟨h.place.pass_ending, .within s hs.2 rfl rfl rfl, rfl, rfl⟩
      · rw [endLines_cons _ hnew] at hc hd
        rw [advance_eq_inCode h.inString hc, advance_eq_inCode h.inString' hd]
        exact sweep_abreast (h.place.pass (Ne.symm hs.1) (sameHead_indented s)) trivial (by simp)
          (by simp) hs.2
  | within s hs hc hd hstart =>
    rw [advance_eq_inCode h.inString hc, advance_eq_inCode h.inString' hd]
    exact sweep_abreast (h.place.pass_indentation hstart (sameHead_indented s)) trivial (by simp)
      (by simp) hs

theorem skipWhile {c d : Cursor} (h : c.Abreast d) {keep : Char → Bool}
    (hkeep : WhitespaceBlind keep) :
    (c.skipWhile fun _ ch => keep ch).Abreast (d.skipWhile fun _ ch => keep ch) := by
  have hany := h.similar.any_eq hkeep
  by_cases hk : c.current.any keep = true
  · obtain ⟨ch, hcur, hch⟩ := (Option.any_eq_true _ _).mp hk
    obtain ⟨ch', hcur', hch'⟩ := (Option.any_eq_true _ _).mp (hany ▸ hk)
    have hless : c.advance.rest.length < c.rest.length := advance_lt hcur
    rw [skipWhile_eq_advance hcur hch, skipWhile_eq_advance hcur' hch']
    exact h.advance.skipWhile hkeep
  · rw [Bool.not_eq_true] at hk
    rwa [skipWhile_eq_self_of_any hk, skipWhile_eq_self_of_any (hany ▸ hk)]
termination_by c.rest.length

/-- At a quote the same literal opens on both sides. -/
theorem exists_opensLiteral (h : c.Abreast d) {quote : Char} (hcur : c.current = some quote)
    (hq : isQuote quote = true) :
    ∃ s text after, '\r' ∉ s ∧ c.rest = indented.endLines s ∧ d.rest = crlf.endLines s ∧
      OpensLiteral quote s text after := by
  cases h.remains with
  | whole s hs hc hd =>
    rw [current, hc, head?_indented] at hcur
    obtain ⟨text, after, hopens⟩ := ModuleScan.exists_opensLiteral hcur hq
    exact ⟨s, text, after, hs, hc, hd, hopens⟩
  | within s _ hc _ _ =>
    rw [current, hc] at hcur
    cases hcur
    exact absurd hq (by decide)

theorem afterLiteral (h : c.Abreast d) {quote : Char} (hcur : c.current = some quote)
    (hq : isQuote quote = true) : (c.afterLiteral quote).Abreast (d.afterLiteral quote) := by
  obtain ⟨s, text, after, hs, hc, hd, hopens⟩ := h.exists_opensLiteral hcur hq
  rw [hopens.afterLiteral_eq hc h.inString, hopens.afterLiteral_eq hd h.inString']
  rw [hopens.eq, List.mem_cons, List.mem_append, not_or, not_or] at hs
  have hliteral : '\r' ∉ quote :: text := by
    rw [List.mem_cons, not_or]
    exact ⟨hs.1, hs.2.1⟩
  have hplace := h.place.passAll_indented hliteral after
  rw [endLines_cons _ hopens.quote_ne, endLines_cons _ hopens.quote_ne] at hplace
  exact advance ⟨hplace, .whole after hs.2.2 rfl rfl, h.inString, h.inString'⟩

end Abreast

end Cursor

/-! ### The pairing -/

/-- The text without the blank behind every line feed. -/
def outdent : List Char → List Char
  | '\n' :: ' ' :: rest => '\n' :: outdent rest
  | c :: rest => c :: outdent rest
  | [] => []

theorem outdent_indented (text : List Char) : outdent (indented.endLines text) = text := by
  induction text with
  | nil => rfl
  | cons c text ih =>
    by_cases hc : c = '\n'
    · subst hc
      exact congrArg (List.cons '\n') ih
    · rw [endLines_cons _ hc]
      unfold outdent
      split
      next heq => exact absurd (List.cons.inj heq).1 hc
      next heq =>
        obtain ⟨rfl, rfl⟩ := List.cons.inj heq
        rw [ih]
      next heq => cases heq

/-- The text with a pair in place of every line feed and the blank behind it. -/
def toPairs (text : String) : String := crlf.endLinesText (String.ofList (outdent text.toList))

theorem toPairs_indented (text : List Char) :
    toPairs (String.ofList (indented.endLines text)) = String.ofList (crlf.endLines text) := by
  rw [toPairs, endLinesText, String.toList_ofList, String.toList_ofList, outdent_indented]

def Pairing.indentation : Pairing where
  text := toPairs
  line := id
  together c d := c.Abreast d
  near c d := c.Abreast d
  similar h := h.similar
  line_eq h := h.place.line
  interpolates_eq h := h.place.interpolates
  advance h _ := h.advance
  skipWhile h hkeep := h.skipWhile hkeep
  literal_error h hcur hq hr := by
    obtain ⟨s, text, after, -, hc, hd, hopens⟩ := h.exists_opensLiteral hcur hq
    exact hopens.literalText_error hc hd hr
  literal_ok h hcur hq hr := by
    obtain ⟨s, text, after, -, hc, hd, hopens⟩ := h.exists_opensLiteral hcur hq
    obtain ⟨rfl, hr'⟩ := hopens.literalText_ok hc hd hr
    rw [toPairs_indented]
    exact ⟨hr', h.afterLiteral hcur hq⟩
  near_of_together h := h
  near_advance h := h.advance
  near_skipWhitespace h := by
    have hskip := h.skipWhile whitespaceBlind_isWhitespace
    exact ⟨hskip, hskip.similar, hskip.place.line⟩

/-! ### The two scans -/

/-- Between rounds the scans stand abreast and have found the same. -/
structure Scan.Abreast (s t : Scan) : Prop where
  cursors : s.cursor.Abreast t.cursor
  found : Pairing.indentation.Found [] s t

theorem Cursor.Abreast.begins {c d : Cursor} (h : c.Abreast d) :
    Pairing.indentation.Begins c d where
  together := h
  statementStart := h.place.statementStart
  callBoundary := h.place.followsCallBoundary_eq

theorem Scan.Abreast.finish {s t : Scan} (h : s.Abreast t) (hs : s.Sited) (ht : t.Sited) :
    (s.finish hs).Abreast (t.finish ht) := by
  apply Scan.finish_related _ _ hs ht h
  · intro s t h hcur
    have hnone := h.cursors.similar.isNone_eq
    rw [hcur, Option.isNone_none, eq_comm, Option.isNone_iff_eq_none] at hnone
    exact ⟨t, .start, hnone, h⟩
  · intro s t lead hs ht h hcur
    obtain ⟨s', t', hreach, hreach', hpast, hnear, hfound⟩ :=
      h.cursors.begins.reaches hs ht h.found hcur
    exact ⟨s', t', hreach, hreach', hpast, hnear, hfound⟩

theorem LineEnding.scanFindings_crlf_indented {source : List Char} (hcr : '\r' ∉ source) :
    scanFindings (crlf.endLines source) =
      (scanFindings (indented.endLines source)).map (Finding.map toPairs id) := by
  have hstart : (Scan.ofSource (indented.endLines source)).Abreast
      (Scan.ofSource (crlf.endLines source)) :=
    ⟨Cursor.sweep_abreast (Place.Level.start (sameHead_indented source)) trivial (by simp)
      (by simp) hcr, rfl⟩
  have hfinish := hstart.finish (Scan.sited_ofSource _) (Scan.sited_ofSource _)
  rw [scanFindings, scanFindings, hfinish.found, List.append_nil, List.map_reverse]
  rfl

/-- Pairs at the ends of the lines do what a blank at the start of every line does. -/
theorem extract_crlf_indented {source : String} (label : String) (hcr : '\r' ∉ source.toList) :
    extract (crlf.endLinesText source) label =
      (extract (indented.endLinesText source) label).mapTexts toPairs :=
  extract_eq_mapTexts crlf indented label (scanFindings_crlf_indented hcr)

end ModuleScan
