/-
  ModuleScan/Proofs/References.lean
  =================================
  **Every reference is a literal of the source, in source order.**

  A round that notes a reference has seen its literal: the text stands in the
  source between two quotes of one kind, and one of the introducing words stands
  before it in what the attempt visited (`round_sees`).  A round looks only at text
  behind that of the rounds before, so the literals of a whole scan follow each
  other without touching (`scanFindings_sightings`).
-/
import ModuleScan.Proofs.Literal
import ModuleScan.Proofs.Outcomes
import ModuleScan.Proofs.Rounds
import ModuleScan.Extraction

namespace ModuleScan

/-! ### Sightings -/

structure Sighting where
  quote : Char
  text : String
  start : Nat
  stop : Nat
deriving DecidableEq, Repr

namespace Sighting

/-- The literal stands in the source: its text reaches from `start` to `stop`, with
    a quote on either side, and the second quote is the first that no odd number
    of backslashes escapes. -/
structure In (x : Sighting) (source : List Char) : Prop where
  isQuote : isQuote x.quote = true
  between : ∃ before after, source = before ++ x.quote :: (x.text.toList ++ x.quote :: after) ∧
    x.start = utf8Length (before ++ [x.quote])
  stop_eq : x.stop = x.start + utf8Length x.text.toList
  no_brace : '{' ∉ x.text.toList
  no_plus : '+' ∉ x.text.toList
  escaped : ∀ before after, x.text.toList = before ++ x.quote :: after →
    Odd (trailingBackslashes before)
  closing : ¬ Odd (trailingBackslashes x.text.toList)

/-- The literal opens at a cursor `q` that movements from `c` lead to, and what they
    visited introduces it. -/
def IntroducedFrom (x : Sighting) (c : Cursor) : Prop :=
  ∃ q visited, c.Leads q ∧ c.visits = visited ++ q.visits ∧ q.current = some x.quote ∧
    q.offset + x.quote.utf8Size = x.start ∧ EndsWithIntroducer (visited.map Prod.snd)

/-- The round from `s` to `t` read the literal and noted its text. -/
structure ReadBy (x : Sighting) (s t : Scan) : Prop where
  round : ∃ lead, s.cursor.current = some lead ∧ ScanM.round lead s = .ok ((), t)
  findings : t.findings = .reference x.text s.cursor.line :: s.findings
  introduced : x.IntroducedFrom s.cursor
  start_gt : s.cursor.offset < x.start
  stop_lt : x.stop < t.cursor.offset

end Sighting

/-! ### One round -/

theorem Cursor.Names.sighting {c d : Cursor} {text : String} (h : c.Names text d)
    {source : List Char} (hin : c.In source) (hc : c.inString = false) :
    ∃ x : Sighting, x.text = text ∧ x.In source ∧ x.IntroducedFrom c ∧
      c.offset < x.start ∧ x.stop < d.offset := by
  rcases h with ⟨q, quote, hi, hcur, hq, htext, hd⟩
  obtain ⟨after, hrest, hstays, hescaped, hend⟩ := literalText_eq_ok hcur hq htext
  obtain ⟨before, hsource, hoff⟩ := hin.onward hi.leads.onward
  have hsize : 0 < quote.utf8Size := quote.utf8Size_pos
  refine ⟨⟨quote, text, q.offset + quote.utf8Size,
    q.offset + quote.utf8Size + utf8Length text.toList⟩, rfl, ?_, ?_, ?_, ?_⟩
  · obtain ⟨hbrace, hplus, hodd⟩ := staysInLiteral_iff.mp hstays
    refine ⟨hq, ⟨before, after, by rw [hsource, hrest], ?_⟩, rfl, hbrace, hplus, hodd, ?_⟩
    · simp [hoff]
    · simpa [← escapedAfter_false_iff] using hescaped
  · -- both lists of visits end with those from the quote on
    obtain ⟨visited, hvisits⟩ := hi.leads.visits_suffix hc
    rcases hi.text with ⟨visited', hahead, hends⟩
    have hsame : visited.map Prod.snd = visited' := by
      rw [ahead, ← hvisits, List.map_append] at hahead
      exact List.append_cancel_right hahead
    exact ⟨q, visited, hi.leads, hvisits.symm, hcur, rfl, by rwa [hsame]⟩
  · have hle := hi.leads.onward.offset_le
    change c.offset < q.offset + quote.utf8Size
    omega
  · have hclose : ((q.endOfLiteral quote).setInString false).current = some quote := by
      rw [hend]
      rfl
    obtain ⟨comments, -, hadvance⟩ := advance_eq_of_current hclose
    have hoffset : ((q.endOfLiteral quote).setInString false).offset =
        q.offset + (quote.utf8Size + utf8Length text.toList) := by
      rw [hend]
      simp only [setInString_past, past_offset, utf8Length_cons]
      rfl
    have hle := hd.offset_le
    change q.offset + quote.utf8Size + utf8Length text.toList < d.offset
    omega

namespace ScanM

variable {s : Scan} {lead : Char}

theorem round_notes (hs : s.Sited) (hc : s.cursor.inString = false) {t : Scan}
    (hr : round lead s = .ok ((), t)) : t.findings = s.findings ∨
      ∃ outcome u, s.Accounts s.cursor outcome u ∧ t.cursor = u.cursor ∧
        t.findings = (outcome.finding? s.cursor.line).toList ++ u.findings := by
  cases h : attempt? lead with
  | none =>
    rw [round_of_attempt?_eq_none h] at hr
    cases hr
    exact Or.inl rfl
  | some attempt =>
    obtain ⟨outcome, u, -, hacc, hround⟩ := round_accounts h hs hc
    rw [hround] at hr
    cases hr
    exact Or.inr ⟨outcome, u, hacc, rfl, rfl⟩

theorem Reports.references {s t : Scan} (h : s.Reports t) :
    t.findings.filterMap Finding.reference? = s.findings.filterMap Finding.reference? := by
  rcases h with h | ⟨kind, line, h, -⟩
  · rw [h]
  · rw [h]
    rfl

/-- A round notes no reference, or one whose literal it has read. -/
theorem round_sees (hs : s.Sited) (hc : s.cursor.inString = false)
    (hcur : s.cursor.current = some lead) {t : Scan} (hr : round lead s = .ok ((), t)) :
    t.findings.filterMap Finding.reference? = s.findings.filterMap Finding.reference? ∨
      ∃ x : Sighting, x.In s.source ∧ x.ReadBy s t := by
  rcases round_notes hs hc hr with hnone | ⟨outcome, u, hacc, hcursor, hfind⟩
  · exact Or.inl (by rw [hnone])
  cases outcome with
  | reference text =>
    rcases hacc with ⟨hu, hnames⟩
    obtain ⟨x, rfl, hin, hintro, hstart, hstop⟩ := hnames.sighting hs hc
    refine Or.inr ⟨x, hin, ⟨lead, hcur, hr⟩, ?_, hintro, hstart, by rwa [hcursor]⟩
    rw [hfind, hu]
    rfl
  | noMatch =>
    have hu : u.findings = s.findings := hacc
    exact Or.inl (by rw [hfind, hu]; rfl)
  | typeOnly =>
    have hu : u.findings = s.findings := hacc
    exact Or.inl (by rw [hfind, hu]; rfl)
  | rejected =>
    have hu := Reports.references hacc
    exact Or.inl (by rw [hfind, ← hu]; rfl)

end ScanM

/-! ### All rounds -/

/-- The literals are read in the source by rounds of its scan, in this order, and
    none begins before the one before it has ended. -/
structure Sightings (source : List Char) (xs : List Sighting) : Prop where
  read : ∀ x ∈ xs, x.In source ∧ ∃ s t, (Scan.ofSource source).Reaches s ∧ x.ReadBy s t
  apart : xs.Pairwise fun x y => x.stop < y.start

theorem Scan.Reaches.sightings {source : List Char} {s : Scan}
    (h : (Scan.ofSource source).Reaches s) :
    ∃ xs, xs.map Sighting.text = s.findings.reverse.filterMap Finding.reference? ∧
      Sightings source xs ∧ ∀ x ∈ xs, x.stop < s.cursor.offset := by
  have hsited := Scan.sited_ofSource source
  induction h with
  | start => exact ⟨[], rfl, ⟨by simp, List.Pairwise.nil⟩, by simp⟩
  | @round s t lead hreach hcur hround ih =>
    rcases ih with ⟨xs, htexts, hxs, hbefore⟩
    have hon := hreach.onward hsited
    have hs := hreach.sited hsited
    have hle := ((Scan.Reaches.start.round hcur hround).onward hs).cursor.offset_le
    rcases ScanM.round_sees hs (hon.inString rfl) hcur hround with hnone | ⟨x, hin, hread⟩
    · refine ⟨xs, ?_, hxs, fun x hx => Nat.lt_of_lt_of_le (hbefore x hx) hle⟩
      rw [htexts, List.filterMap_reverse, List.filterMap_reverse, hnone]
    · refine ⟨xs ++ [x], ?_, ⟨?_, ?_⟩, ?_⟩
      · rw [List.map_append, htexts, hread.findings, List.reverse_cons, List.filterMap_append]
        rfl
      · intro y hy
        rcases List.mem_append.mp hy with hy | hy
        · exact hxs.read y hy
        · obtain rfl := List.mem_singleton.mp hy
          rw [hon.source] at hin
          exact ⟨hin, s, t, hreach, hread⟩
      · refine List.pairwise_append.mpr ⟨hxs.apart, List.pairwise_singleton _ _, ?_⟩
        intro y hy z hz
        obtain rfl := List.mem_singleton.mp hz
        exact Nat.lt_trans (hbefore y hy) hread.start_gt
      · intro y hy
        rcases List.mem_append.mp hy with hy | hy
        · exact Nat.lt_of_lt_of_le (hbefore y hy) hle
        · obtain rfl := List.mem_singleton.mp hy
          exact hread.stop_lt

/-- **Every reference of a scan is a literal of the source, in source order.**  The
    texts of the references are those of literals that stand in the source one
    after the other, each read in a round of the scan and introduced by what that
    round visited. -/
theorem scanFindings_sightings (source : List Char) :
    ∃ xs, xs.map Sighting.text = (scanFindings source).filterMap Finding.reference? ∧
      Sightings source xs := by
  have hreach := Scan.reaches_finish _ (Scan.sited_ofSource source)
  rcases hreach.sightings with ⟨xs, htexts, hxs, -⟩
  exact ⟨xs, htexts, hxs⟩

end ModuleScan
