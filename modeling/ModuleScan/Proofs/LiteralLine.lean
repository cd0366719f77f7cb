/-
  ModuleScan/Proofs/LiteralLine.lean
  ==================================
  **A line with a literal before everything else.**

  A scan knows no literals but those that name a module, and reads the text of any
  other one as code.  So a line `x = '...'` before a source is passed and leaves
  nothing but the next line number, if its text opens no block comment that is still
  open at the end of the line, and does not end within the word of a callee
  (`scanFindings_literalLine`).  Otherwise the following lines are hidden, or read
  together with that word (`literalLine_changes_findings`).
-/
import ModuleScan.Extraction
import ModuleScan.Proofs.Shifting
import ModuleScan.Proofs.Silent

namespace ModuleScan

/-! ### Passing a text -/

/-- What passes `s`, from a zone and a place on, visits these characters and comes to
    a place in code, with `after` left to read. -/
inductive Passage : Zone → Place → List Char → List (Place × Char) → Place → List Char → Prop
  | refl (p : Place) (s : List Char) : Passage .code p s [] p s
  | hidden {z z' : Zone} {p p' q : Place} {c : Char} {rest after : List Char}
      {visited : List (Place × Char)} : z.hide? p c rest.head? = some (z', p') →
      Passage z' p' rest visited q after → Passage z p (c :: rest) visited q after
  | visible {z : Zone} {p q : Place} {c : Char} {rest after : List Char}
      {visited : List (Place × Char)} : z.hide? p c rest.head? = none →
      Passage z.afterVisible (p.pass c rest.head?) rest visited q after →
      Passage z p (c :: rest) ((p, c) :: visited) q after

namespace Passage

variable {z : Zone} {p q : Place} {s after : List Char} {visited : List (Place × Char)}

theorem visits_eq (h : Passage z p s visited q after) :
    visits z p s = visited ++ visits .code q after := by
  induction h with
  | refl => rfl
  | hidden hhide _ ih =>
    rw [visits, hhide]
    exact ih
  | visible hhide _ ih =>
    rw [visits, hhide, List.cons_append, ← ih]

theorem mem_of_visited (h : Passage z p s visited q after) {v : Place × Char}
    (hv : v ∈ visited) : v.2 ∈ s := by
  induction h with
  | refl => cases hv
  | hidden _ _ ih => exact List.mem_cons_of_mem _ (ih hv)
  | visible _ _ ih =>
    rcases List.mem_cons.mp hv with rfl | hv
    · exact List.mem_cons_self
    · exact List.mem_cons_of_mem _ (ih hv)

theorem iterate_advance (h : Passage z p s visited q after) (hz : z ≠ .literal) {c : Cursor}
    (hc : c.inString = false) :
    Cursor.advance^[visited.length] (c.entering z p s) = c.entering .code q after := by
  induction h with
  | refl => rfl
  | hidden hhide _ ih =>
    rw [Cursor.entering_of_hide? hhide]
    exact ih (Zone.hide?_eq_some hhide).1
  | visible hhide _ ih =>
    rw [Zone.afterVisible_of_ne_literal hz] at ih
    rw [List.length_cons, Function.iterate_succ_apply, Cursor.advance_entering hc hhide]
    exact ih (by simp)

end Passage

/-! ### Within a line -/

/-- Neither a backslash nor the end of a statement. -/
def staysMidway (c : Char) : Bool := c != '\\' && !endsStatement c

theorem isNewline_of_staysMidway {c : Char} (h : staysMidway c = true) : isNewline c = false := by
  simp only [staysMidway, endsStatement, Bool.and_eq_true, Bool.not_eq_true',
    Bool.or_eq_false_iff] at h
  exact h.2.1

/-- Nothing is escaped here, and no statement begins. -/
structure Place.Midway (p : Place) : Prop where
  escaped : p.escaped = false
  statementStart : p.statementStart = false

theorem Place.Midway.pass {p : Place} (h : p.Midway) {c : Char} (hc : staysMidway c = true)
    (next : Option Char) : (p.pass c next).Midway := by
  simp only [staysMidway, Bool.and_eq_true, bne_iff_ne, Bool.not_eq_true'] at hc
  constructor
  · simp [Place.pass, hc.1]
  · simp [Place.pass, hc.2, h.statementStart]

theorem Place.Midway.mark_eq_self {p : Place} (h : p.Midway) :
    ({ p with statementStart := false } : Place) = p := by
  rw [← h.statementStart]

/-- What passes the text and the line feed behind it comes to code, whatever follows. -/
def PassesLine (z : Zone) (p : Place) (text : List Char) (visited : List (Place × Char)) : Prop :=
  ∀ s, Passage z p (text ++ '\n' :: s) visited (p.passAll (text ++ ['\n']) s) s

namespace PassesLine

variable {z : Zone} {p : Place} {c : Char} {text : List Char} {visited : List (Place × Char)}

theorem head?_append_newline (text s : List Char) :
    (text ++ '\n' :: s).head? = (text ++ ['\n']).head? := by
  cases text <;> rfl

theorem passAll_cons (p : Place) (c : Char) (text s : List Char) :
    p.passAll (c :: text ++ ['\n']) s =
      (p.pass c (text ++ ['\n']).head?).passAll (text ++ ['\n']) s := by
  rw [List.cons_append, Place.passAll, List.append_assoc, List.singleton_append,
    head?_append_newline]

theorem hidden (z' : Zone) (hhide : z.hide? p c (text ++ ['\n']).head? =
      some (z', p.pass c (text ++ ['\n']).head?))
    (h : PassesLine z' (p.pass c (text ++ ['\n']).head?) text visited) :
    PassesLine z p (c :: text) visited := by
  intro s
  rw [passAll_cons, List.cons_append]
  rw [← head?_append_newline text s] at hhide
  exact .hidden hhide (by rw [head?_append_newline]; exact h s)

theorem visible (hhide : z.hide? p c (text ++ ['\n']).head? = none)
    (h : PassesLine z.afterVisible (p.pass c (text ++ ['\n']).head?) text visited) :
    PassesLine z p (c :: text) ((p, c) :: visited) := by
  intro s
  rw [passAll_cons, List.cons_append]
  rw [← head?_append_newline text s] at hhide
  exact .visible hhide (by rw [head?_append_newline]; exact h s)

end PassesLine

/-- A line comment hides the rest of its line. -/
theorem passesLine_lineComment {text : List Char} (htext : ∀ c ∈ text, staysMidway c = true)
    (p : Place) : PassesLine .lineComment p text [] := by
  induction text generalizing p with
  | nil => exact fun s => .hidden rfl (.refl _ s)
  | cons c text ih =>
    have hc := isNewline_of_staysMidway (htext c List.mem_cons_self)
    apply PassesLine.hidden .lineComment
    · simp [Zone.hide?, hc]
    · exact ih (fun d hd => htext d (List.mem_cons_of_mem c hd)) _

/-- Whether a text ends within a block comment if it is read as code; `inside` says
    whether it begins within one. -/
def leavesOpen : Bool → List Char → Bool
  | inside, [] => inside
  | true, '*' :: '/' :: text => leavesOpen false text
  | true, _ :: text => leavesOpen true text
  | false, '/' :: '/' :: _ => false
  | false, '/' :: '*' :: text => leavesOpen true text
  | false, _ :: text => leavesOpen false text

theorem not_comment_newline (d : Char) (hd : ['\n'].head? = some d) : d ≠ '/' ∧ d ≠ '*' := by
  obtain rfl := Option.some.inj hd
  decide

def Zone.withinLine (inside : Bool) : Zone := if inside then .blockComment false else .code

/-- A line that leaves no block comment open is passed, and no statement begins at a
    character visited in it. -/
theorem exists_passesLine (inside : Bool) {text : List Char}
    (htext : ∀ c ∈ text, staysMidway c = true) (hopen : leavesOpen inside text = false)
    {p : Place} (hp : p.Midway) :
    ∃ visited, PassesLine (.withinLine inside) p text visited ∧
      ∀ v ∈ visited, v.1.statementStart = false := by
  fun_induction leavesOpen inside text generalizing p with
  | case1 inside =>
    subst hopen
    refine ⟨[(p, '\n')], fun s => .visible rfl (.refl _ s), ?_⟩
    simpa using hp.statementStart
  | case2 text ih =>
    have hclosing := (hp.pass (c := '*') (by decide) (some '/')).pass (c := '/') (by decide)
      (text ++ ['\n']).head?
    obtain ⟨visited, hpasses, hvisited⟩ :=
      ih (fun c hc => htext c (by simp [hc])) hopen hclosing
    refine ⟨visited, .hidden (.blockClosing false) rfl (.hidden .code ?_ hpasses), hvisited⟩
    simp only [Zone.hide?, List.cons_append, List.head?_cons, hclosing.mark_eq_self]
  | case3 c text hclose ih =>
    have hnext := hp.pass (htext c List.mem_cons_self) (text ++ ['\n']).head?
    obtain ⟨visited, hpasses, hvisited⟩ :=
      ih (fun d hd => htext d (List.mem_cons_of_mem c hd)) hopen hnext
    exact ⟨visited, .hidden _ (Zone.hide?_blockComment_of_unclosed hclose not_comment_newline)
      hpasses, hvisited⟩
  | case4 text =>
    refine ⟨[], .hidden .lineComment ?_ (passesLine_lineComment ?_ _), ?_⟩
    · simp [Zone.withinLine, Zone.hide?, hp.escaped]
    · exact fun c hc => htext c (List.mem_cons_of_mem _ hc)
    · simp
  | case5 text ih =>
    have hopening := (hp.pass (c := '/') (by decide) (some '*')).pass (c := '*') (by decide)
      (text ++ ['\n']).head?
    obtain ⟨visited, hpasses, hvisited⟩ :=
      ih (fun c hc => htext c (by simp [hc])) hopen hopening
    refine ⟨visited, .hidden (.blockOpening false) ?_ (.hidden _ rfl hpasses), hvisited⟩
    simp [Zone.withinLine, Zone.hide?, hp.escaped, hp.statementStart]
  | case6 c text hline hblock ih =>
    have hnext := hp.pass (htext c List.mem_cons_self) (text ++ ['\n']).head?
    obtain ⟨visited, hpasses, hvisited⟩ :=
      ih (fun d hd => htext d (List.mem_cons_of_mem c hd)) hopen hnext
    have hvisible := Zone.hide?_code_eq_none (p := p)
      (opensComment_cons_append hline hblock not_comment_newline)
    refine ⟨(p, c) :: visited, .visible hvisible hpasses, ?_⟩
    intro v hv
    rcases List.mem_cons.mp hv with rfl | hv
    · exact hp.statementStart
    · exact hvisited v hv

/-! ### The line -/

/-- No quote, no backslash, no end of a line or a statement, and no parenthesis that
    opens a call. -/
def isPlain (c : Char) : Bool := !isQuote c && c != '\\' && !endsStatement c && c != '('

def PlainText (t : List Char) : Prop := ∀ c ∈ t, isPlain c = true

/-- What stands between the first character of the line and its line feed. -/
def literalTail (t : List Char) : List Char := [' ', '=', ' ', '\x27'] ++ t ++ ['\x27']

/-- A line that assigns a literal with the text `t`. -/
def literalLine (t : List Char) : List Char := 'x' :: literalTail t ++ ['\n']

section

variable {t : List Char} (ht : PlainText t)

theorem exists_cons_of_append_quote {t rest : List Char} {d : Char} (hd : d ≠ '\x27')
    (h : t ++ ['\x27'] = d :: rest) : ∃ t', t = d :: t' := by
  cases t with
  | nil =>
    cases h
    exact absurd rfl hd
  | cons e t =>
    obtain ⟨rfl, -⟩ := List.cons.inj h
    exact ⟨t, rfl⟩

/-- A quote neither opens nor closes a comment. -/
theorem leavesOpen_append_quote (inside : Bool) (t : List Char) :
    leavesOpen inside (t ++ ['\x27']) = leavesOpen inside t := by
  fun_induction leavesOpen inside t with
  | case1 inside => cases inside <;> rfl
  | case2 t ih => exact ih
  | case3 c t hclose ih =>
    rw [List.cons_append, leavesOpen, ih]
    intro rest hc hrest
    obtain ⟨t', ht'⟩ := exists_cons_of_append_quote (by decide) hrest
    exact hclose t' hc ht'
  | case4 t => rfl
  | case5 t ih => exact ih
  | case6 c t hline hblock ih =>
    rw [List.cons_append, leavesOpen, ih]
    · intro rest hc hrest
      obtain ⟨t', ht'⟩ := exists_cons_of_append_quote (by decide) hrest
      exact hline t' hc ht'
    · intro rest hc hrest
      obtain ⟨t', ht'⟩ := exists_cons_of_append_quote (by decide) hrest
      exact hblock t' hc ht'

theorem leavesOpen_literalTail (t : List Char) :
    leavesOpen false (literalTail t) = leavesOpen false t :=
  leavesOpen_append_quote false t

include ht

theorem isPlain_or_of_mem_literalTail {c : Char} (hc : c ∈ literalTail t) :
    isPlain c = true ∨ c ∈ [' ', '=', '\x27'] := by
  have hfirst : [' ', '=', ' ', '\x27'] ⊆ [' ', '=', '\x27'] := by decide
  rw [literalTail, List.mem_append, List.mem_append] at hc
  rcases hc with (hc | hc) | hc
  · exact Or.inr (hfirst hc)
  · exact Or.inl (ht c hc)
  · exact Or.inr (by simp_all)

theorem staysMidway_of_mem_literalTail {c : Char} (hc : c ∈ literalTail t) :
    staysMidway c = true := by
  have hall : ∀ d ∈ [' ', '=', '\x27'], staysMidway d = true := forall_mem_of_all (by decide)
  rcases isPlain_or_of_mem_literalTail ht hc with hc | hc
  · simp only [isPlain, Bool.and_eq_true] at hc
    rw [staysMidway, hc.1.1.2, hc.1.2, Bool.and_self]
  · exact hall c hc

theorem ne_open_of_mem_literalLine {c : Char} (hc : c ∈ literalLine t) : c ≠ '(' := by
  rintro rfl
  rw [literalLine, List.mem_append, List.mem_cons] at hc
  rcases hc with (hc | hc) | hc
  · exact absurd hc (by decide)
  · exact absurd (isPlain_or_of_mem_literalTail ht hc) (by decide)
  · exact absurd hc (by decide)

/-- The whole line is passed, and nothing begins in it. -/
theorem exists_passesLine_literalLine (hopen : leavesOpen false t = false) :
    ∃ visited, PassesLine .code (Place.start ['x']) ('x' :: literalTail t) visited ∧
      ∀ v ∈ visited, v.1.statementStart = true → ScanM.attempt? v.2 = none := by
  have hmidway : ((Place.start ['x']).pass 'x' (literalTail t ++ ['\n']).head?).Midway :=
    ⟨rfl, rfl⟩
  obtain ⟨visited, hpasses, hvisited⟩ :=
    exists_passesLine false (fun _ => staysMidway_of_mem_literalTail ht)
      ((leavesOpen_literalTail t).trans hopen) hmidway
  refine ⟨_, .visible rfl hpasses, ?_⟩
  intro v hv hstart
  rcases List.mem_cons.mp hv with rfl | hv
  · rfl
  · rw [hvisited v hv] at hstart
    cases hstart

/-- Behind the line a place is that at the start of the next one, one line down. -/
theorem passAll_literalLine (s : List Char) :
    (Place.start ['x']).passAll (literalLine t) s =
      ((Place.start s).follow (some '\n') false).shift (utf8Length (literalLine t)) 1 := by
  have hsplit : literalLine t = 'x' :: ([' ', '=', ' ', '\x27'] ++ t) ++ ['\x27', '\n'] := by
    simp [literalLine, literalTail]
  have htail : 'x' :: ([' ', '=', ' ', '\x27'] ++ t) ++ ['\x27'] = 'x' :: literalTail t := rfl
  have hnew : ∀ c ∈ 'x' :: ([' ', '=', ' ', '\x27'] ++ t) ++ ['\x27'], isNewline c = false := by
    intro c hc
    rw [htail] at hc
    rcases List.mem_cons.mp hc with rfl | hc
    · decide
    · exact isNewline_of_staysMidway (staysMidway_of_mem_literalTail ht hc)
  have hplace := Place.passAll_line_eq_shift (p := Place.start ['x']) rfl hnew (by decide) s
  have hoffset : (Place.start ['x']).offset = 0 := rfl
  rwa [← hsplit, hoffset, Nat.zero_add] at hplace

/-- Rounds lead over the line, and nothing is found on the way. -/
theorem reaches_behind_literalLine (hopen : leavesOpen false t = false)
    (hbreak : breaksOff (Cursor.ofSource (literalLine t)).visits = false) (s : List Char) :
    (Scan.ofSource (literalLine t ++ s)).Reaches
      { Scan.ofSource (literalLine t ++ s) with
        cursor := Cursor.behind '\n' (utf8Length (literalLine t)) 1 s } := by
  obtain ⟨visited, hpasses, hvisited⟩ := exists_passesLine_literalLine ht hopen
  have hpassage : ∀ after, Passage .code (Place.start (literalLine t ++ after))
      (literalLine t ++ after) visited ((Place.start ['x']).passAll (literalLine t) after)
      after := by
    intro after
    have h := hpasses after
    rw [List.append_cons] at h
    exact h
  -- the line alone tells what is visited in it
  have hline : (Cursor.ofSource (literalLine t)).visits = visited := by
    have hvisits := (hpassage []).visits_eq
    rw [List.append_nil] at hvisits
    rw [Cursor.visits_ofSource, hvisits]
    exact List.append_nil visited
  have hsilent : Silent visited := by
    rw [hline] at hbreak
    refine ⟨hvisited, ?_, hbreak⟩
    intro v hv
    have hmem := (hpassage []).mem_of_visited hv
    rw [List.append_nil] at hmem
    exact ne_open_of_mem_literalLine ht hmem
  have hvisits := (hpassage s).visits_eq
  rw [← Cursor.visits_ofSource] at hvisits
  have hreach := Scan.reaches_of_silent (s := Scan.ofSource (literalLine t ++ s)) rfl hvisits
    hsilent
  have hcursor : Cursor.advance^[visited.length] (Cursor.ofSource (literalLine t ++ s)) =
      Cursor.behind '\n' (utf8Length (literalLine t)) 1 s := by
    have hiterate := (hpassage s).iterate_advance (by simp)
      (c := Cursor.ofSource (literalLine t ++ s)) rfl
    rw [passAll_literalLine ht] at hiterate
    exact hiterate
  rw [← hcursor]
  exact hreach

end

/-- **A line with a literal leaves nothing but its line number.**  The text of the
    literal may hold the marks of comments.  If it leaves no block comment open, and
    no line comment in it begins within the word of a callee, the scan finds what it
    finds in the source behind the line, one line further down. -/
theorem scanFindings_literalLine {t : List Char} (ht : PlainText t)
    (hopen : leavesOpen false t = false)
    (hbreak : breaksOff (Cursor.ofSource (literalLine t)).visits = false) (s : List Char) :
    scanFindings (literalLine t ++ s) = (scanFindings s).map (Finding.map id (· + 1)) := by
  have hreach := reaches_behind_literalLine ht hopen hbreak s
  exact hreach.scanFindings_behind rfl

/-- A block comment and the address of a page in the literal. -/
theorem scanFindings_literalLine_comments :
    PlainText "a/**/re http://import".toList ∧
      leavesOpen false "a/**/re http://import".toList = false ∧
      breaksOff (Cursor.ofSource (literalLine "a/**/re http://import".toList)).visits = false ∧
      scanFindings (literalLine "a/**/re http://import".toList ++ "import 'a'; import b".toList) =
        (scanFindings "import 'a'; import b".toList).map (Finding.map id (· + 1)) := by
  have ht : PlainText "a/**/re http://import".toList := forall_mem_of_all (by decide)
  exact ⟨ht, by decide, by decide, scanFindings_literalLine ht (by decide) (by decide) _⟩

/-- Without the two conditions the line changes what is found behind it: a block comment
    hides the import there, and the word before a line comment makes a call of the
    parenthesis there. -/
theorem literalLine_changes_findings :
    PlainText "/*".toList ∧ PlainText " require//".toList ∧
      scanFindings (literalLine "/*".toList ++ "import 'a'".toList) = [] ∧
      (scanFindings "import 'a'".toList).map (Finding.map id (· + 1)) = [.reference "a" 2] ∧
      scanFindings (literalLine " require//".toList ++ "('a')".toList) = [.reference "a" 1] ∧
      (scanFindings "('a')".toList).map (Finding.map id (· + 1)) = [] := by
  refine ⟨forall_mem_of_all (by decide), forall_mem_of_all (by decide), ?_⟩
  decide +kernel

end ModuleScan
