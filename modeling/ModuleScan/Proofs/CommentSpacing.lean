/-
  ModuleScan/Proofs/CommentSpacing.lean
  =====================================
  **Line comments behind whitespace.**

  A line comment takes the line terminator with it: the next line follows directly
  on what stands before the comment.  If that is whitespace
  (`Cursor.CommentsSpaced`), the lines of a source may as well end with pairs of a
  carriage return and a line feed.  Of a pair the comment takes the carriage return
  alone, and the line feed is left to be passed; so one scan is at times some
  whitespace behind the other (`Cursor.Trails`), but never within a word or a name.
  Elsewhere the answers may differ (`extract_crlf_comment`).
-/
import ModuleScan.Proofs.Indentation
import ModuleScan.Proofs.PartialKeyword

namespace ModuleScan

open LineEnding

/-! ### Places -/

namespace Place.Level

variable {p q : Place} (h : p.Level q)

include h

/-- One line feed, and the pair that stands for it. -/
theorem pass_pair {next next' : Option Char} (hnext : SameHead next next') :
    (p.pass '\n' next).Level ((q.pass '\r' (some '\n')).pass '\n' next') where
  line := by
    have hpair : beginsLine (some '\r') (some '\n') = false := rfl
    have hbegins : beginsLine (some '\n') next' = beginsLine (some '\n') next :=
      hnext.beginsLine_eq (by decide) (by decide)
    simp only [Place.pass, hbegins, hpair, Bool.false_eq_true, if_false, h.line]
  escaped := by simp [Place.pass]
  statementStart := rfl
  prev := Or.inl rfl
  interpolates := rfl

theorem passAll {text : List Char} (htext : '\r' ∉ text) (after : List Char) :
    (p.passAll text after).Level (q.passAll (crlf.endLines text) (crlf.endLines after)) := by
  induction text generalizing p q with
  | nil => exact h
  | cons c text ih =>
    rw [List.mem_cons, not_or] at htext
    have hnext := sameHead_crlf (text ++ after)
    rw [endLines_append] at hnext
    by_cases hc : c = '\n'
    · subst hc
      exact ih (h.pass_pair hnext) htext.2
    · rw [endLines_cons _ hc]
      exact ih (h.pass (Ne.symm htext.1) hnext) htext.2

end Place.Level

/-! ### Cursors -/

namespace Cursor

/-- The cursors stand at the same character, outside literals. -/
structure Level (c d : Cursor) : Prop where
  rest : d.rest = crlf.endLines c.rest
  place : c.toPlace.Level d.toPlace
  inString : c.inString = false
  inString' : d.inString = false

/-- The cursor `d` has some whitespace to pass before it stands where `c` does. -/
inductive Trails (c : Cursor) : Cursor → Prop
  | level {d : Cursor} : c.Level d → Trails c d
  | lag {d : Cursor} : d.current.any isWhitespace = true → Trails c d.advance → Trails c d

/-- **Sweeping on both sides.**  The sweep through pairs stops early at the line feed
    after a line comment, and else comes to the same character. -/
theorem sweep_trails {z : Zone} {p q : Place} (h : p.Level q) {s : List Char} (hz : z.Fits s)
    (hvisible : z ≠ .visible) (hliteral : z ≠ .literal) (hs : '\r' ∉ s) :
    (inCode (sweep (fun _ _ => false) z p s)).Trails
        (inCode (sweep (fun _ _ => false) z q (crlf.endLines s))) ∧
      (lineEndsBefore z p s = false → (inCode (sweep (fun _ _ => false) z p s)).Level
        (inCode (sweep (fun _ _ => false) z q (crlf.endLines s)))) := by
  induction s generalizing z p q with
  | nil =>
    have hlevel : (inCode (z.atEnd p, [])).Level (inCode (z.atEnd q, [])) :=
      ⟨rfl, h.atEnd z, rfl, rfl⟩
    exact ⟨.level hlevel, fun _ => hlevel⟩
  | cons c rest ih =>
    rw [List.mem_cons, not_or] at hs
    rcases hs with ⟨hc, hrest⟩
    have hnext := sameHead_crlf rest
    by_cases hnew : c = '\n'
    · subst hnew
      have hpass := h.pass_pair hnext
      cases z with
      | visible => exact absurd rfl hvisible
      | literal => exact absurd rfl hliteral
      | code =>
        have hlevel : (inCode (p, '\n' :: rest)).Level (inCode (q, crlf.endLines ('\n' :: rest))) :=
          ⟨rfl, h, rfl, rfl⟩
        exact ⟨.level hlevel, fun _ => hlevel⟩
      | lineComment =>
        obtain ⟨htrails, -⟩ := ih (z := .code) hpass trivial (by simp) (by simp) hrest
        exact ⟨.lag rfl htrails, nofun⟩
      | blockOpening b => exact ih (z := .blockComment b) hpass trivial (by simp) (by simp) hrest
      | blockComment b => exact ih (z := .blockComment b) hpass trivial (by simp) (by simp) hrest
      | blockClosing b => exact absurd (Option.some.inj hz) (by decide)
    · rw [endLines_cons _ hnew, lineEndsBefore, sweep, sweep]
      rcases h.hide? z (Ne.symm hc) hnext with ⟨hp, hq⟩ | ⟨z', p', q', hp, hq, hlevel⟩
      · rw [hp, hq]
        have hlevel : (inCode (p, c :: rest)).Level (inCode (q, c :: crlf.endLines rest)) :=
          ⟨(endLines_cons _ hnew rest).symm, h, rfl, rfl⟩
        exact ⟨.level hlevel, fun _ => hlevel⟩
      · obtain ⟨htrails, hfree⟩ := ih hlevel (Zone.fits_of_hide? hp) (Zone.ne_visible_of_hide? hp)
          (Zone.hide?_eq_some hp).1 hrest
        rw [hp, hq]
        refine ⟨htrails, ?_⟩
        intro hends
        exact hfree (Bool.or_eq_false_iff.mp hends).2

variable {c d : Cursor}

theorem Level.sameHead (h : c.Level d) : SameHead c.current d.current := by
  rw [current, current, h.rest]
  exact sameHead_crlf c.rest

/-- **Advancing on both sides.**  The cursors part only behind a line feed or a line
    comment. -/
theorem Level.advance (h : c.Level d) (hrest : '\r' ∉ c.rest) :
    c.advance.Trails d.advance ∧
      (c.current ≠ some '\n' → c.crossesLine = false → c.advance.Level d.advance) := by
  have hd := h.rest
  cases hr : c.rest with
  | nil =>
    rw [hr, endLines_nil] at hd
    have hlevel : c.advance.Level d.advance := by
      refine ⟨?_, ?_, by rw [advance_inString, h.inString], by rw [advance_inString, h.inString']⟩
      · simp only [Cursor.advance, hr, hd, endLines_nil]
      · simp only [Cursor.advance, hr, hd]
        exact h.place.passEnd
    exact ⟨.level hlevel, fun _ _ => hlevel⟩
  | cons ch rest =>
    rw [hr] at hrest hd
    rw [List.mem_cons, not_or] at hrest
    have hnext := sameHead_crlf rest
    by_cases hnew : ch = '\n'
    · subst hnew
      obtain ⟨htrails, -⟩ := sweep_trails (z := .code) (h.place.pass_pair hnext) trivial (by simp)
        (by simp) hrest.2
      refine ⟨?_, fun hne => absurd (by rw [Cursor.current, hr]; rfl) hne⟩
      rw [advance_eq_inCode h.inString hr, advance_eq_inCode h.inString' hd]
      exact .lag rfl htrails
    · rw [endLines_cons _ hnew] at hd
      obtain ⟨htrails, hlevel⟩ := sweep_trails (z := .code)
        (h.place.pass (Ne.symm hrest.1) hnext) trivial (by simp) (by simp) hrest.2
      rw [advance_eq_inCode h.inString hr, advance_eq_inCode h.inString' hd]
      refine ⟨htrails, fun _ hcross => hlevel ?_⟩
      rw [crossesLine, hr] at hcross
      exact hcross

/-- Skipping whitespace, the second cursor catches up. -/
theorem Trails.exists_level (h : c.Trails d) (keep : Char → Bool)
    (hkeep : ∀ ch, isWhitespace ch = true → keep ch = true) :
    ∃ e, c.Level e ∧ (d.skipWhile fun _ ch => keep ch) = (e.skipWhile fun _ ch => keep ch) := by
  induction h with
  | @level d h => exact ⟨d, h, rfl⟩
  | @lag d hws _ ih =>
    obtain ⟨e, he, heq⟩ := ih
    obtain ⟨ch, hcur, hch⟩ := (Option.any_eq_true _ _).mp hws
    exact ⟨e, he, (skipWhile_eq_advance hcur (hkeep ch hch)).trans heq⟩

/-! ### Where comments stand -/

/-- Advancing and passing literals lead from `c` to the cursor. -/
inductive Meets (c : Cursor) : Cursor → Prop
  | start : Meets c c
  | advance {d : Cursor} : Meets c d → Meets c d.advance
  | afterLiteral {d : Cursor} (quote : Char) : Meets c d → Meets c (d.afterLiteral quote)

theorem Meets.trans {c d e : Cursor} (h : c.Meets d) (h' : d.Meets e) : c.Meets e := by
  induction h' with
  | start => exact h
  | advance _ ih => exact ih.advance
  | afterLiteral quote _ ih => exact ih.afterLiteral quote

/-- Where a line comment ends before the next character, the current one is
    whitespace. -/
def CommentsSpaced (c : Cursor) : Prop :=
  ∀ d, c.Meets d → d.crossesLine = true → d.current.any isWhitespace = true

/-- No carriage return is left to read, and line comments stand behind whitespace. -/
structure Tidy (c : Cursor) : Prop where
  noReturn : '\r' ∉ c.rest
  spaced : c.CommentsSpaced

theorem Tidy.of_meets (h : c.Tidy) (hmeets : c.Meets d) (hon : c.Onward d) : d.Tidy where
  noReturn hmem := h.noReturn (hon.suffix.subset hmem)
  spaced e he := h.spaced e (hmeets.trans he)

theorem Tidy.advance (h : c.Tidy) : c.advance.Tidy :=
  h.of_meets Meets.start.advance (onward_advance c)

theorem onward_afterLiteral (c : Cursor) (quote : Char) : c.Onward (c.afterLiteral quote) := by
  have henter : c.Onward c.enterLiteral := (onward_setInString c true).trans (onward_advance _)
  have hend : c.Onward (c.endOfLiteral quote) := henter.trans (onward_skipWhile _ _)
  exact (hend.trans (onward_setInString _ false)).trans (onward_advance _)

theorem Tidy.afterLiteral (h : c.Tidy) (quote : Char) : (c.afterLiteral quote).Tidy :=
  h.of_meets (Meets.start.afterLiteral quote) (onward_afterLiteral c quote)

theorem Tidy.skipWhile (h : c.Tidy) (keep : Place → Char → Bool) : (c.skipWhile keep).Tidy :=
  skipWhile_induction (fun _ hc => hc.advance) keep c h

/-! ### Movements -/

theorem Level.advance_of_tidy (h : c.Level d) (hc : c.Tidy)
    (hsolid : c.current.any isWhitespace = false) : c.advance.Level d.advance := by
  apply (h.advance hc.noReturn).2
  · intro hnew
    rw [hnew] at hsolid
    exact absurd hsolid (by decide)
  · rw [← Bool.not_eq_true]
    intro hcross
    rw [hc.spaced c .start hcross] at hsolid
    cases hsolid

/-- Whitespace that one side passes the other does too, line feed or pair. -/
theorem Level.skipWhile {c d : Cursor} (h : c.Level d) (hc : c.Tidy) {keep : Char → Bool}
    (hkeep : WhitespaceBlind keep) :
    (c.skipWhile fun _ ch => keep ch).Level (d.skipWhile fun _ ch => keep ch) := by
  have hany := h.sameHead.similar.any_eq hkeep
  by_cases hk : c.current.any keep = true
  · obtain ⟨ch, hcur, hch⟩ := (Option.any_eq_true _ _).mp hk
    obtain ⟨ch', hcur', hch'⟩ := (Option.any_eq_true _ _).mp (hany ▸ hk)
    have hless : c.advance.rest.length < c.rest.length := advance_lt hcur
    rw [skipWhile_eq_advance hcur hch, skipWhile_eq_advance hcur' hch']
    cases hw : c.current.any isWhitespace with
    | false => exact (h.advance_of_tidy hc hw).skipWhile hc.advance hkeep
    | true =>
      have hall : ∀ e, isWhitespace e = true → keep e = true := by
        rcases hkeep with ⟨answer, hanswer⟩
        rw [hcur] at hw
        intro e he
        rw [hanswer e he, ← hanswer ch hw, hch]
      obtain ⟨e, he, heq⟩ := (h.advance hc.noReturn).1.exists_level keep hall
      rw [heq]
      exact he.skipWhile hc.advance hkeep
  · rw [Bool.not_eq_true] at hk
    rwa [skipWhile_eq_self_of_any hk, skipWhile_eq_self_of_any (hany ▸ hk)]
termination_by c.rest.length

/-- The source itself ends its lines with line feeds. -/
theorem rest_eq_lf (c : Cursor) : c.rest = lf.endLines c.rest := (lf_endLines c.rest).symm

theorem Level.literalText_error (h : c.Level d) {quote : Char} (hcur : c.current = some quote)
    (hq : isQuote quote = true) {kind : DiagnosticKind} (hr : c.literalText quote = .error kind) :
    d.literalText quote = .error kind := by
  obtain ⟨text, after, hopens⟩ := exists_opensLiteral hcur hq
  exact hopens.literalText_error c.rest_eq_lf h.rest hr

theorem Level.literalText_ok (h : c.Level d) {quote : Char} (hcur : c.current = some quote)
    (hq : isQuote quote = true) {result : String} (hr : c.literalText quote = .ok result) :
    d.literalText quote = .ok (crlf.endLinesText result) := by
  obtain ⟨text, after, hopens⟩ := exists_opensLiteral hcur hq
  obtain ⟨rfl, hr'⟩ := hopens.literalText_ok c.rest_eq_lf h.rest hr
  rw [hr', endLinesText, String.toList_ofList, lf_endLines]

theorem Level.afterLiteral (h : c.Level d) (hc : '\r' ∉ c.rest) {quote : Char}
    (hcur : c.current = some quote) (hq : isQuote quote = true) :
    (c.afterLiteral quote).Trails (d.afterLiteral quote) := by
  obtain ⟨text, after, hopens⟩ := exists_opensLiteral hcur hq
  rw [hopens.afterLiteral_eq c.rest_eq_lf h.inString, hopens.afterLiteral_eq h.rest h.inString',
    lf_endLines, lf_endLines]
  rw [hopens.eq, ← List.cons_append, List.mem_append, not_or] at hc
  have hplace := h.place.passAll hc.1 after
  rw [endLines_cons _ hopens.quote_ne] at hplace
  have hlevel : (c.past (quote :: text) after).Level
      (d.past (quote :: crlf.endLines text) (crlf.endLines after)) :=
    ⟨rfl, hplace, h.inString, h.inString'⟩
  exact (hlevel.advance hc.2).1

end Cursor

/-! ### The pairing -/

/-- The two scans stand at the same character, or the second one has whitespace to
    pass before it does. -/
def Pairing.lineEndings : Pairing where
  text := crlf.endLinesText
  line := id
  together c d := c.Level d ∧ c.Tidy
  near c d := c.Trails d ∧ c.Tidy
  similar h := h.1.sameHead.similar
  line_eq h := h.1.place.line
  interpolates_eq h := h.1.place.interpolates
  advance h hsolid := ⟨h.1.advance_of_tidy h.2 hsolid, h.2.advance⟩
  skipWhile h hkeep := ⟨h.1.skipWhile h.2 hkeep, h.2.skipWhile _⟩
  literal_error h hcur hq hr := h.1.literalText_error hcur hq hr
  literal_ok h hcur hq hr :=
    ⟨h.1.literalText_ok hcur hq hr, h.1.afterLiteral h.2.noReturn hcur hq, h.2.afterLiteral _⟩
  near_of_together h := ⟨.level h.1, h.2⟩
  near_advance h := ⟨(h.1.advance h.2.noReturn).1, h.2.advance⟩
  near_skipWhitespace := by
    rintro c d ⟨htrails, hc⟩
    obtain ⟨e, he, heq⟩ := htrails.exists_level isWhitespace fun _ h => h
    have hskip := he.skipWhile hc whitespaceBlind_isWhitespace
    rw [Cursor.skipWhitespace, Cursor.skipWhitespace, heq]
    exact ⟨⟨.level hskip, hc.skipWhile _⟩, hskip.sameHead.similar, hskip.place.line⟩

/-! ### The two scans -/

/-- Rounds lead the second scan over the whitespace it has to pass. -/
theorem Cursor.Trails.exists_reaches {c : Cursor} {t : Scan} (h : c.Trails t.cursor) :
    ∃ d, t.Reaches { t with cursor := d } ∧ c.Level d := by
  generalize hd : t.cursor = d at h
  induction h generalizing t with
  | @level d h =>
    subst hd
    exact ⟨t.cursor, .start, h⟩
  | @lag d hws _ ih =>
    subst hd
    obtain ⟨ch, hcur, hch⟩ := (Option.any_eq_true _ _).mp hws
    have hround := ScanM.round_of_attempt?_eq_none (ScanM.attempt?_of_isWhitespace hch) t
    obtain ⟨d, hreach, hlevel⟩ := ih (t := { t with cursor := t.cursor.advance }) rfl
    exact ⟨d, (Scan.Reaches.start.round hcur hround).trans hreach, hlevel⟩

/-- Between rounds the second scan has found what the first has, and has at most
    some whitespace to pass before it stands where the first does. -/
structure Scan.KeepsUp (s t : Scan) : Prop where
  trails : s.cursor.Trails t.cursor
  tidy : s.cursor.Tidy
  found : Pairing.lineEndings.Found [] s t

theorem Cursor.Level.begins {c d : Cursor} (h : c.Level d) (hc : c.Tidy) :
    Pairing.lineEndings.Begins c d where
  together := ⟨h, hc⟩
  statementStart := h.place.statementStart
  callBoundary := h.place.followsCallBoundary_eq

theorem Scan.KeepsUp.finish {s t : Scan} (h : s.KeepsUp t) (hs : s.Sited) (ht : t.Sited) :
    (s.finish hs).KeepsUp (t.finish ht) := by
  apply Scan.finish_related _ _ hs ht h
  · intro s t h hcur
    obtain ⟨d, hreach, hlevel⟩ := h.trails.exists_reaches
    have hnone := hlevel.sameHead.similar.isNone_eq
    rw [hcur, Option.isNone_none, eq_comm, Option.isNone_iff_eq_none] at hnone
    exact ⟨_, hreach, hnone, .level hlevel, h.tidy, h.found⟩
  · intro s t lead hs ht h hcur
    obtain ⟨d, hreach, hlevel⟩ := h.trails.exists_reaches
    obtain ⟨s', t', hreaches, hreaches', hpast, hnear, hfound⟩ :=
      (hlevel.begins h.tidy).reaches (t := { t with cursor := d }) hs (hreach.sited ht) h.found hcur
    exact ⟨s', t', hreaches, hreach.trans hreaches', hpast, hnear.1, hnear.2, hfound⟩

theorem keepsUp_ofSource {source : List Char} (hcr : '\r' ∉ source)
    (hspaced : (Cursor.ofSource source).CommentsSpaced) :
    (Scan.ofSource source).KeepsUp (Scan.ofSource (crlf.endLines source)) where
  trails := (Cursor.sweep_trails (z := .code) (Place.Level.start (sameHead_crlf source)) trivial
    (by simp) (by simp) hcr).1
  tidy := by
    obtain ⟨text, htext, -⟩ :=
      sweep_onward (fun _ _ => false) .code (Place.start source) source
    refine ⟨fun hmem => hcr ?_, hspaced⟩
    exact List.IsSuffix.subset ⟨text, htext.symm⟩ hmem
  found := rfl

theorem LineEnding.scanFindings_crlf {source : List Char} (hcr : '\r' ∉ source)
    (hspaced : (Cursor.ofSource source).CommentsSpaced) :
    scanFindings (crlf.endLines source) =
      (scanFindings source).map (Finding.map crlf.endLinesText id) := by
  have hfinish := (keepsUp_ofSource hcr hspaced).finish (Scan.sited_ofSource _)
    (Scan.sited_ofSource _)
  rw [scanFindings, scanFindings, hfinish.found, List.append_nil, List.map_reverse]
  rfl

theorem extract_crlf_of_spaced {source : String} (label : String) (hcr : '\r' ∉ source.toList)
    (hspaced : (Cursor.ofSource source.toList).CommentsSpaced) :
    extract (crlf.endLinesText source) label =
      (extract source label).mapTexts crlf.endLinesText := by
  have hsource : lf.endLinesText source = source := by
    rw [endLinesText, lf_endLines, String.ofList_toList]
  have hfindings : scanFindings (crlf.endLines source.toList) =
      (scanFindings (lf.endLines source.toList)).map (Finding.map crlf.endLinesText id) := by
    rw [lf_endLines]
    exact scanFindings_crlf hcr hspaced
  have hextract := extract_eq_mapTexts crlf lf label hfindings
  rwa [hsource] at hextract

/-! ### Sources that space their comments -/

/-- Wherever two slashes stand together, nothing, whitespace or another slash comes
    before them. -/
def slashesSpaced : Option Char → List Char → Bool
  | _, [] => true
  | prev, c :: rest =>
    (c != '/' || rest.head? != some '/' || prev.all fun d => isWhitespace d || d == '/') &&
      slashesSpaced (some c) rest

theorem slashesSpaced_tail {prev : Option Char} {c : Char} {rest : List Char}
    (h : slashesSpaced prev (c :: rest) = true) : slashesSpaced (some c) rest = true := by
  rw [slashesSpaced, Bool.and_eq_true] at h
  exact h.2

theorem all_of_slashesSpaced {prev : Option Char} {rest : List Char}
    (h : slashesSpaced prev ('/' :: '/' :: rest) = true) :
    (prev.all fun d => isWhitespace d || d == '/') = true := by
  rw [slashesSpaced, Bool.and_eq_true] at h
  simpa using h.1

theorem slashesSpaced_sweep (keep : Place → Char → Bool) {z : Zone} {p : Place} {s : List Char}
    (h : slashesSpaced p.prev s = true) :
    slashesSpaced (sweep keep z p s).1.prev (sweep keep z p s).2 = true := by
  induction s generalizing z p with
  | nil => rfl
  | cons c rest ih =>
    have hrest := slashesSpaced_tail h
    rw [sweep]
    split
    next z' p' hhide =>
      obtain ⟨-, mark, rfl⟩ := Zone.hide?_eq_some hhide
      exact ih hrest
    · split
      · exact ih hrest
      · exact h

/-- A zone outside line comments from which none is entered: where it is code, no two
    slashes follow, and a block comment closes behind an asterisk. -/
def Zone.Unlined (p : Place) (s : List Char) : Zone → Prop
  | .lineComment => False
  | .code => ∀ rest, s ≠ '/' :: '/' :: rest
  | .blockClosing _ => p.prev = some '*'
  | _ => True

/-- Where slashes are spaced, what hides a character leads into no line comment. -/
theorem Zone.Unlined.hide? {z z' : Zone} {p p' : Place} {c : Char} {rest : List Char}
    (h : z.Unlined p (c :: rest)) (hz : z.Fits (c :: rest))
    (hspaced : slashesSpaced p.prev (c :: rest) = true)
    (hhide : z.hide? p c rest.head? = some (z', p')) : z'.Unlined p' rest := by
  cases z with
  | visible => cases hhide
  | literal => cases hhide
  | lineComment => exact h.elim
  | code =>
    simp only [Zone.hide?] at hhide
    split at hhide
    next hslash =>
      split at hhide
      next hnext =>
        obtain ⟨rest', rfl⟩ := List.head?_eq_some_iff.mp (beq_iff_eq.mp hnext)
        obtain rfl : c = '/' := by simpa using (Bool.and_eq_true_iff.mp hslash).1
        exact absurd rfl (h rest')
      · split at hhide
        · cases hhide
          trivial
        · cases hhide
    · cases hhide
  | blockOpening b =>
    cases hhide
    trivial
  | blockComment b =>
    cases hhide
    split
    next hclose =>
      obtain rfl : c = '*' := by simpa using (Bool.and_eq_true_iff.mp hclose).1
      rfl
    · trivial
  | blockClosing b =>
    cases hhide
    rintro rest' rfl
    obtain rfl : c = '/' := Option.some.inj hz
    have hprev : p.prev = some '*' := h
    have hall := all_of_slashesSpaced hspaced
    rw [hprev] at hall
    exact absurd hall (by decide)

theorem lineEndsBefore_of_unlined {z : Zone} {p : Place} {s : List Char} (h : z.Unlined p s)
    (hz : z.Fits s) (hspaced : slashesSpaced p.prev s = true) : lineEndsBefore z p s = false := by
  induction s generalizing z p with
  | nil => rfl
  | cons c rest ih =>
    rw [lineEndsBefore]
    cases hhide : z.hide? p c rest.head? with
    | none => rfl
    | some next =>
      have hends : z.endsLine c = false := by
        cases z with
        | lineComment => exact h.elim
        | _ => rfl
      obtain ⟨-, mark, hplace⟩ := Zone.hide?_eq_some hhide
      have hrest : slashesSpaced next.2.prev rest = true := by
        rw [hplace]
        exact slashesSpaced_tail hspaced
      simp only [hends, Bool.false_or]
      exact ih (h.hide? hz hspaced hhide) (Zone.fits_of_hide? hhide) hrest

namespace Cursor

/-- What the cursor remembers is true, and slashes are spaced from it on. -/
structure Spaced (c : Cursor) : Prop where
  faithful : c.Faithful
  slashes : slashesSpaced c.prev c.rest = true

variable {c d : Cursor}

theorem slashesSpaced_advance (h : slashesSpaced c.prev c.rest = true) :
    slashesSpaced c.advance.prev c.advance.rest = true := by
  unfold Cursor.advance
  split
  next hr =>
    rw [hr]
    rfl
  next ch rest hr =>
    rw [hr] at h
    exact slashesSpaced_sweep _ (slashesSpaced_tail h)

theorem Spaced.advance (h : c.Spaced) : c.advance.Spaced :=
  ⟨h.faithful.advance, slashesSpaced_advance h.slashes⟩

theorem Spaced.afterLiteral (h : c.Spaced) (quote : Char) : (c.afterLiteral quote).Spaced := by
  have henter : slashesSpaced c.enterLiteral.prev c.enterLiteral.rest = true :=
    slashesSpaced_advance (c := c.setInString true) h.slashes
  have hend : slashesSpaced (c.endOfLiteral quote).prev (c.endOfLiteral quote).rest = true :=
    slashesSpaced_sweep _ henter
  exact ⟨c.faithful_afterLiteral quote,
    slashesSpaced_advance (c := (c.endOfLiteral quote).setInString false) hend⟩

theorem Spaced.of_meets (h : c.Spaced) (hmeets : c.Meets d) : d.Spaced := by
  induction hmeets with
  | start => exact h
  | advance _ ih => exact ih.advance
  | afterLiteral quote _ ih => exact ih.afterLiteral quote

/-- The slash before two others would open a comment itself, unless it is escaped. -/
theorem Spaced.isWhitespace_of_crossesLine (h : c.Spaced) (hcross : c.crossesLine = true) :
    c.current.any isWhitespace = true := by
  cases hr : c.rest with
  | nil =>
    rw [crossesLine, hr] at hcross
    cases hcross
  | cons ch rest =>
    have hslashes := h.slashes
    simp only [crossesLine, hr] at hcross
    rw [current, hr, List.head?_cons, Option.any_some]
    rw [hr] at hslashes
    by_cases hopens : ∃ rest', rest = '/' :: '/' :: rest'
    · obtain ⟨rest', rfl⟩ := hopens
      have hall := all_of_slashesSpaced (slashesSpaced_tail hslashes)
      rw [Option.all_some, Bool.or_eq_true, beq_iff_eq] at hall
      rcases hall with hw | rfl
      · exact hw
      · have hescaped : c.escaped = true := by
          have hshows := h.faithful.shows '/' _ hr
          simpa [Zone.hide?] using hshows
        have hprev := (h.faithful.remembers (by simp [hr])).escaped hescaped
        rw [hprev] at hslashes
        exact absurd (all_of_slashesSpaced hslashes) (by decide)
    · have hunlined : Zone.code.Unlined (c.toPlace.pass ch rest.head?) rest :=
        fun rest' heq => hopens ⟨rest', heq⟩
      rw [lineEndsBefore_of_unlined hunlined trivial (slashesSpaced_tail hslashes)] at hcross
      cases hcross

end Cursor

theorem commentsSpaced_of_slashesSpaced {source : List Char}
    (h : slashesSpaced none source = true) : (Cursor.ofSource source).CommentsSpaced := by
  have hspaced : (Cursor.ofSource source).Spaced :=
    ⟨Cursor.faithful_ofSource source, slashesSpaced_sweep (p := Place.start source) _ h⟩
  intro d hmeets hcross
  exact (hspaced.of_meets hmeets).isWhitespace_of_crossesLine hcross

/-! ### The result -/

/-- **What pairs at the ends of the lines change.**  As much as a blank at the start
    of every line does, and nothing where line comments stand behind whitespace: the
    answer is the same but for the line ends within the texts of the references. -/
theorem extract_crlf {source : String} (label : String) (hcr : '\r' ∉ source.toList) :
    extract (crlf.endLinesText source) label =
        (extract (indented.endLinesText source) label).mapTexts toPairs ∧
      ((Cursor.ofSource source.toList).CommentsSpaced →
        extract (crlf.endLinesText source) label =
          (extract source label).mapTexts crlf.endLinesText) :=
  ⟨extract_crlf_indented label hcr, extract_crlf_of_spaced label hcr⟩

/-- A commented import whose literal goes on over a line feed. -/
theorem extract_crlf_commented_import :
    '\r' ∉ "import // c\n'a\\\nb'".toList ∧
      (Cursor.ofSource "import // c\n'a\\\nb'".toList).CommentsSpaced ∧
      extract (crlf.endLinesText "import // c\n'a\\\nb'") "x.js" = ⟨["a\\\r\nb"], []⟩ := by
  have hcr : '\r' ∉ "import // c\n'a\\\nb'".toList := by decide +kernel
  have hspaced : (Cursor.ofSource "import // c\n'a\\\nb'".toList).CommentsSpaced :=
    commentsSpaced_of_slashesSpaced (by decide +kernel)
  refine ⟨hcr, hspaced, ?_⟩
  rw [(extract_crlf "x.js" hcr).2 hspaced]
  decide +kernel

/-- Directly behind a word, a line comment makes the difference: the line feed of a
    pair divides what a line feed alone does not. -/
theorem extract_crlf_comment :
    extract "require//\n('a')" "x.js" = ⟨["a"], []⟩ ∧
      extract (crlf.endLinesText "require//\n('a')") "x.js" = ⟨[], []⟩ ∧
      extract "import//\nx from 'a'" "x.js" = ⟨[], []⟩ ∧
      extract (crlf.endLinesText "import//\nx from 'a'") "x.js" = ⟨["a"], []⟩ := by
  decide +kernel

end ModuleScan
