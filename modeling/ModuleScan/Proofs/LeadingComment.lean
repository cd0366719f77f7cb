/-
  ModuleScan/Proofs/LeadingComment.lean
  =====================================
  **A block comment before everything else.**

  A source may begin with a block comment, and the scan finds what it finds without
  the comment, on lines further down by as many as the comment has
  (`scanFindings_blockComment`).  There is one exception: the slash that closes the
  comment stays behind as the character before the first one, and no call begins
  after a slash.  So a call that follows the comment directly is not found
  (`extract_call_behind_comment`), though a statement is.
-/
import ModuleScan.Proofs.Inert
import ModuleScan.Proofs.Lines
import ModuleScan.Proofs.PartialKeyword
import ModuleScan.Proofs.Shifting

namespace ModuleScan

/-! ### The comment -/

/-- The text of a block comment runs up to the first place where it may close. -/
def CommentBody (body : List Char) : Prop := ¬ ['*', '/'] <:+: body

def blockComment (body : List Char) : List Char := '/' :: '*' :: (body ++ ['*', '/'])

theorem commentBody_cons {c : Char} {body : List Char} :
    CommentBody (c :: body) ↔ CommentBody body ∧ (c = '*' → body.head? ≠ some '/') := by
  rw [CommentBody, CommentBody, List.infix_cons_iff, not_or, and_comm]
  refine and_congr_right fun _ => ?_
  rw [List.cons_prefix_cons]
  constructor
  · rintro h rfl hhead
    obtain ⟨rest, rfl⟩ := List.head?_eq_some_iff.mp hhead
    exact h ⟨rfl, List.cons_prefix_cons.mpr ⟨rfl, List.nil_prefix⟩⟩
  · rintro h ⟨rfl, hslash⟩
    obtain ⟨rest, rfl⟩ := hslash
    exact h rfl rfl

/-- A sweep leaves a block comment behind its closing slash, with the mark of the
    place before it. -/
theorem sweep_blockComment (keep : Place → Char → Bool) (b : Bool) (p : Place) {body : List Char}
    (hbody : CommentBody body) (s : List Char) :
    sweep keep (.blockComment b) p (body ++ '*' :: '/' :: s) =
      sweep keep .code { p.passAll (body ++ ['*', '/']) s with statementStart := b } s := by
  induction body generalizing p with
  | nil => rfl
  | cons c body ih =>
    obtain ⟨hrest, hclose⟩ := commentBody_cons.mp hbody
    have hgoes : (c == '*' && (body ++ '*' :: '/' :: s).head? == some '/') = false := by
      rw [Bool.and_eq_false_iff]
      by_cases hc : c = '*'
      · right
        cases body with
        | nil => rfl
        | cons d body => simpa using hclose hc
      · left
        simpa using hc
    rw [List.cons_append, sweep]
    simp only [Zone.hide?, hgoes, Bool.false_eq_true, if_false]
    rw [ih _ hrest, List.cons_append, Place.passAll, List.append_assoc]
    rfl

/-- Behind the comment a cursor stands where one would stand without it, but for the
    slash before it. -/
theorem place_blockComment (body s : List Char) :
    ({ (Place.start (blockComment body ++ s)).passAll (blockComment body) s with
        statementStart := true } : Place) =
      ((Place.start s).follow (some '/') false).shift (utf8Length (blockComment body))
        (lineBreaks none body) := by
  have hline : ((Place.start (blockComment body ++ s)).passAll (blockComment body) s).line =
      (Place.start s).line + lineBreaks none body := by
    have hfirst : lineBreaks none ((blockComment body ++ s).head?.toList) = 0 := rfl
    rw [blockComment, Place.passAll_line, ← blockComment, Place.start_line, Place.start_line,
      hfirst, List.cons_append, List.append_assoc, List.cons_append, List.singleton_append,
      lineBreaks_cons rfl, lineBreaks_append_cons rfl, lineBreaks_cons rfl,
      lineBreaks_some (by decide), lineBreaks_some (by decide), ← UInt32.ofNat_add,
      ← UInt32.ofNat_add]
    exact congrArg UInt32.ofNat (by omega)
  have hplace := (Place.start (blockComment body ++ s)).passAll_eq_shift ('/' :: '*' :: body)
    (by decide) (by decide) hline
  rw [show (Place.start (blockComment body ++ s)).offset = 0 from rfl, Nat.zero_add] at hplace
  exact hplace

theorem sweep_source_blockComment {body : List Char} (hbody : CommentBody body) (s : List Char) :
    sweep (fun _ _ => false) .code (Place.start (blockComment body ++ s)) (blockComment body ++ s) =
      sweep (fun _ _ => false) .code (((Place.start s).follow (some '/') false).shift
        (utf8Length (blockComment body)) (lineBreaks none body)) s := by
  have htext : blockComment body ++ s = '/' :: '*' :: (body ++ '*' :: '/' :: s) := by
    simp [blockComment]
  have hcomment : sweep (fun _ _ => false) .code (Place.start (blockComment body ++ s))
      ('/' :: '*' :: (body ++ '*' :: '/' :: s)) =
        sweep (fun _ _ => false) .code { (Place.start (blockComment body ++ s)).passAll
          (blockComment body) s with statementStart := true } s := by
    have hbodies : body ++ '*' :: '/' :: s = (body ++ ['*', '/']) ++ s := by simp
    have hsweep := sweep_blockComment (fun _ _ => false) true
      (((Place.start (blockComment body ++ s)).pass '/' (some '*')).pass '*'
        (body ++ '*' :: '/' :: s).head?) hbody s
    rw [sweep, sweep]
    refine hsweep.trans ?_
    rw [hbodies]
    rfl
  rw [← place_blockComment, ← hcomment, ← htext]

/-! ### The first round -/

/-- A source, and the same source behind a block comment. -/
def commentShift (body s : List Char) : Shift :=
  .behind '/' (by decide) false (utf8Length (blockComment body)) (lineBreaks none body) s

theorem length_ofSource_of_comment {s : List Char} (hopens : opensComment s = true) :
    (Cursor.ofSource s).rest.length < s.length := by
  obtain ⟨c, rest, rfl, hhide⟩ := hide?_start_of_opensComment hopens
  obtain ⟨next, hnext⟩ := Option.ne_none_iff_exists'.mp hhide
  obtain ⟨text, htext, -⟩ := sweep_onward (fun _ _ => false) next.1 next.2 rest
  have hrest : (Cursor.ofSource (c :: rest)).rest =
      (sweep (fun _ _ => false) next.1 next.2 rest).2 := by
    simp only [Cursor.ofSource, Cursor.moveTo_rest, sweep, hnext]
  have hle : (Cursor.ofSource (c :: rest)).rest.length ≤ rest.length := by
    rw [hrest]
    exact List.IsSuffix.length_le ⟨text, htext.symm⟩
  exact Nat.lt_succ_of_le hle

theorem ofSource_blockComment {body : List Char} (hbody : CommentBody body) (s : List Char) :
    Cursor.ofSource (blockComment body ++ s) =
      Cursor.behind '/' (utf8Length (blockComment body)) (lineBreaks none body) s :=
  congrArg (Cursor.moveTo (Cursor.ofSource (blockComment body ++ s)))
    (sweep_source_blockComment hbody s)

/-! ### Calls that begin with the source -/

/-- No call opens at the cursor, and no line comment stands within the part of the
    word `require` that does stand there. -/
structure Cursor.Callless (c : Cursor) : Prop where
  uncalled : ∀ callee : Callee, (c.eat callee.opening).1 = false
  undivided : ∀ n, c.Spells n Callee.require.word → ∀ i, i + 1 < n →
    (Cursor.advance^[i] c).crossesLine = false

namespace ScanM

/-- Where the first attempt fails, the second is as good as both. -/
theorem firstOf_eq_of_miss {first second : ScanM Outcome} {s : Scan} (hs : s.Sited)
    (hsecond : second.Steady) {d : Cursor}
    (h : first s.trial = .ok (.noMatch, { s.trial with cursor := d })) :
    firstOf first second s = second s := by
  obtain ⟨outcome, t, ht, -⟩ := hsecond s hs
  rw [ht]
  exact firstOf_eq_second h ht

end ScanM

section

variable {S : Shift} {s t : Scan} {before : List Finding} {lead : Char}

/-- At `i` and `e` a call is no match on either side, and statements begin on both. -/
theorem both_round_of_uncalled (h : S.Shifts s.cursor t.cursor)
    (hstart : t.cursor.statementStart = s.cursor.statementStart)
    (huncalled : (s.cursor.eat Callee.dynamicImport.opening).1 = false)
    (hidle : t.cursor.followsCallBoundary = false) (hlead : lead ≠ 'r') :
    S.pairing.Both (ScanM.round lead) (ScanM.round lead) s.cursor t.cursor
      fun _ _ => S.pairing.near := by
  apply Pairing.both_round h
  intro attempt hattempt
  rcases ScanM.attempt?_eq_some hattempt with ⟨rfl, -⟩ | ⟨-, rfl⟩ | ⟨-, rfl⟩
  · exact absurd rfl hlead
  · apply (Pairing.both_staticImport h hstart).of_eq
    · intro u hu hcursor
      obtain ⟨d, hd⟩ := ScanM.exists_call_of_uncalled (s := u.trial) (hcursor ▸ huncalled)
      exact ScanM.firstOf_eq_of_miss hu ScanM.steady_staticImport hd
    · intro u hu hcursor
      have hd := ScanM.call_idle (s := u.trial) (hcursor ▸ hidle) .dynamicImport
      exact ScanM.firstOf_eq_of_miss hu ScanM.steady_staticImport hd
  · exact Pairing.both_exportFrom h hstart

theorem Shift.Shifts.iterate_advance {c d : Cursor} (h : S.Shifts c d) (n : Nat) :
    S.Shifts (Cursor.advance^[n] c) (Cursor.advance^[n] d) := by
  induction n with
  | zero => exact h
  | succ n ih =>
    rw [Function.iterate_succ_apply', Function.iterate_succ_apply']
    exact ih.advance

theorem Shift.Shifts.spells {c d : Cursor} (h : S.Shifts c d) {n : Nat} {word : List Char}
    (hspells : c.Spells n word) : d.Spells n word := by
  refine ⟨hspells.le, ?_⟩
  intro i hi
  rw [(h.iterate_advance i).current_eq, hspells.current i hi]

/-- Behind the first character everything is the same on both sides. -/
theorem Shift.Shifts.mayBegin_advance {c d : Cursor} (h : S.Shifts c d) :
    d.advance.mayBegin = c.advance.mayBegin := by
  rcases h with ⟨-, rfl | ⟨-, rfl⟩⟩
  · rw [Cursor.shift_advance]
    rfl
  · rw [Cursor.shift_advance, Cursor.follow_advance]
    rfl

/-- At `r` the first scan passes the letters of `require` at once, and the second one
    by one. -/
theorem exists_inStep_of_require (h : S.Shifts s.cursor t.cursor)
    (hcur : s.cursor.current = some 'r') (hcode : s.cursor.inString = false)
    (hboundary : s.cursor.followsCallBoundary = true)
    (hidle : t.cursor.followsCallBoundary = false) (hcallless : s.cursor.Callless)
    (hfirst : s.cursor.rest.length ≤ S.first.rest.length) (hfound : S.pairing.Found before s t) :
    ∃ s' t', s.Reaches s' ∧ t.Reaches t' ∧ S.InStep before s' t' := by
  have hcur' : t.cursor.current = some 'r' := h.current_eq.trans hcur
  obtain ⟨n, heat, hspells, hmiss⟩ := s.cursor.exists_eat_spells Callee.require.opening
  have huncalled := hcallless.uncalled .require
  have hword : s.cursor.Spells n Callee.require.word :=
    hspells.of_append (Nat.le_of_lt_succ (hmiss huncalled))
  have hpos : 0 < n := Cursor.iterate_pos_of_eat hcur heat
  -- the first scan
  have hround : ScanM.round 'r' s = .ok ((), { s with cursor := Cursor.advance^[n] s.cursor }) := by
    have hresolve : (s.trial.cursor.eat Callee.requireResolve.opening).1 = false :=
      hcallless.uncalled .requireResolve
    obtain ⟨d, hd⟩ := ScanM.exists_call_of_uncalled hresolve
    rw [← heat]
    exact ScanM.round_of_noMatch rfl
      (ScanM.firstOf_eq_second hd (ScanM.call_of_uncalled huncalled hboundary))
  -- the second scan
  have hround' : ScanM.round 'r' t = .ok ((), { t with cursor := t.cursor.advance }) :=
    ScanM.round_of_noMatch rfl
      (ScanM.firstOf_eq_second (ScanM.call_idle (s := t.trial) hidle _) (ScanM.call_idle hidle _))
  have hrest : ({ t with cursor := t.cursor.advance } : Scan).Reaches
      { t with cursor := Cursor.advance^[n] t.cursor } := by
    apply Scan.reaches_of_spells (h.spells hword) hpos
    intro i hi
    have hletters : ∀ ch ∈ Callee.require.word, continuesName ch = true :=
      forall_mem_of_all (by decide +kernel)
    have hsame : (Cursor.advance^[i + 1] t.cursor).mayBegin =
        (Cursor.advance^[i + 1] s.cursor).mayBegin := by
      rw [Function.iterate_succ_apply', Function.iterate_succ_apply']
      exact (h.iterate_advance i).mayBegin_advance
    rw [hsame, hword.mayBegin hcode hletters hi]
    exact hcallless.undivided n hword i hi
  refine ⟨_, _, .round .start hcur hround, (Scan.Reaches.start.round hcur' hround').trans hrest,
    h.iterate_advance n, Or.inr ?_, hfound⟩
  have hless : (s.cursor.eat Callee.require.opening).2.rest.length < s.cursor.rest.length :=
    Cursor.eat_lt hcur Callee.require.opening.tail
  rw [heat] at hless
  exact Nat.lt_of_lt_of_le hless hfirst

end

/-! ### The whole scan -/

theorem shifts_blockComment {body : List Char} (hbody : CommentBody body) (s : List Char) :
    (commentShift body s).Shifts (Cursor.ofSource s)
      (Cursor.ofSource (blockComment body ++ s)) := by
  rw [ofSource_blockComment hbody]
  exact Shift.shifts_behind _ _ _ _ s

/-- After the first round the two scans go on alike. -/
theorem exists_inStep_blockComment {body : List Char} (hbody : CommentBody body) {s : List Char}
    (h : opensComment s = false → (Cursor.ofSource s).Callless) {lead : Char}
    (hcur : (Cursor.ofSource s).current = some lead) :
    ∃ u v, (Scan.ofSource s).Reaches u ∧ (Scan.ofSource (blockComment body ++ s)).Reaches v ∧
      (commentShift body s).InStep [] u v := by
  have hfound : (commentShift body s).pairing.Found [] (Scan.ofSource s)
      (Scan.ofSource (blockComment body ++ s)) := rfl
  have hshifts := shifts_blockComment hbody s
  cases hopens : opensComment s with
  | true =>
    exact ⟨_, _, .start, .start, hshifts, Or.inr (length_ofSource_of_comment hopens), hfound⟩
  | false =>
    have hcallless := h hopens
    have hcursor := (ofSource_blockComment hbody s).trans (Cursor.behind_of_code _ _ _ hopens)
    have hfirst := Cursor.ofSource_eq hopens
    have hle : (Cursor.ofSource s).rest.length ≤ (commentShift body s).first.rest.length := by
      rw [hfirst]
      exact Nat.le_refl _
    have hboundary : (Cursor.ofSource s).followsCallBoundary = true := by
      rw [hfirst]
      rfl
    -- the closing slash of the comment
    have hidle : (Cursor.ofSource (blockComment body ++ s)).followsCallBoundary = false := by
      rw [hcursor]
      rfl
    have hstart : (Cursor.ofSource (blockComment body ++ s)).statementStart =
        (Cursor.ofSource s).statementStart := by
      rw [hcursor]
      rfl
    by_cases hlead : lead = 'r'
    · subst hlead
      exact exists_inStep_of_require (s := Scan.ofSource s)
        (t := Scan.ofSource (blockComment body ++ s)) hshifts hcur rfl hboundary hidle hcallless
        hle hfound
    · have hboth := both_round_of_uncalled (s := Scan.ofSource s)
        (t := Scan.ofSource (blockComment body ++ s)) hshifts hstart
        (hcallless.uncalled .dynamicImport) hidle hlead
      obtain ⟨u, v, hreach, hreach', hpast, hnear, hfound'⟩ :=
        hboth.reaches (Scan.sited_ofSource _) (Scan.sited_ofSource _) hfound hcur
          (hshifts.current_eq.trans hcur)
      exact ⟨u, v, hreach, hreach', hnear, Or.inr (Nat.lt_of_lt_of_le hpast.less hle), hfound'⟩

/-- **A block comment before a source is invisible.**  The scan of the source behind
    the comment finds what the scan of the source finds, on lines further down by
    those that the comment has.  Unless a comment of its own comes first, the source
    must open no call with its first character. -/
theorem scanFindings_blockComment {body : List Char} (hbody : CommentBody body) {s : List Char}
    (h : opensComment s = false → (Cursor.ofSource s).Callless) :
    scanFindings (blockComment body ++ s) =
      (scanFindings s).map (Finding.map id (· + lineBreaks none body)) := by
  have hs := Scan.sited_ofSource s
  have ht := Scan.sited_ofSource (blockComment body ++ s)
  have hfound : (commentShift body s).pairing.Found [] ((Scan.ofSource s).finish hs)
      ((Scan.ofSource (blockComment body ++ s)).finish ht) := by
    cases hcur : (Cursor.ofSource s).current with
    | none =>
      have hend : (Cursor.ofSource (blockComment body ++ s)).current = none :=
        (shifts_blockComment hbody s).current_eq.trans hcur
      rw [Scan.finish_of_end hs hcur, Scan.finish_of_end ht hend]
      rfl
    | some lead =>
      obtain ⟨u, v, hreach, hreach', hstep⟩ := exists_inStep_blockComment hbody h hcur
      rw [hreach.finish_eq hs, hreach'.finish_eq ht]
      exact (hstep.finish _ _).found
  rw [scanFindings, scanFindings, hfound, List.append_nil, List.map_reverse]
  rfl

/-- A comment of two lines before an import without `from`. -/
theorem scanFindings_blockComment_import :
    CommentBody "a\nb".toList ∧
      (opensComment "import c".toList = false → (Cursor.ofSource "import c".toList).Callless) ∧
      scanFindings (blockComment "a\nb".toList ++ "import c".toList) =
        (scanFindings "import c".toList).map
          (Finding.map id (· + lineBreaks none "a\nb".toList)) := by
  have hbody : CommentBody "a\nb".toList := by
    rw [CommentBody, ← occursIn_iff]
    decide
  have hcallless : (Cursor.ofSource "import c".toList).Callless := by
    constructor
    · intro callee
      cases callee <;> rfl
    · intro n hspells i hi
      have hletter := hspells.current 0 (Nat.zero_lt_of_lt hi)
      exact absurd hletter (by decide)
  exact ⟨hbody, fun _ => hcallless, scanFindings_blockComment hbody fun _ => hcallless⟩

/-- A call directly behind a block comment is not found, and `import` is even taken
    for a statement there. -/
theorem extract_call_behind_comment :
    extract "require('a')" "x.js" = ⟨["a"], []⟩ ∧
      extract "/**/require('a')" "x.js" = ⟨[], []⟩ ∧
      extract "import('a')" "x.js" = ⟨["a"], []⟩ ∧
      extract "/**/import('a')" "x.js" = ⟨[], [⟨.missingFrom, "x.js", 1⟩]⟩ := by
  decide +kernel

end ModuleScan
