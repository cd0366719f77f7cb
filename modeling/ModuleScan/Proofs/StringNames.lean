/-
  ModuleScan/Proofs/StringNames.lean
  ==================================
  **Names that are written as strings.**

  A clause may give a name as a string, as in `import { "a b" as c } from 'm'`.  A scan
  knows no strings there and reads the name as code: comments in it are passed, a brace
  closes the names, and whitespace ends the name behind `* as`.  Where the name leaves no
  comment open and shows no such character, the statement gives its module
  (`scanFindings_stringNames`); otherwise it may not (`stringNames_lose_module`).
-/
import ModuleScan.Proofs.SkippedNames

namespace ModuleScan

/-! ### What a text shows -/

/-- What a text is within that is read as code. -/
inductive Inside where
  | code
  | lineComment
  | blockComment
deriving DecidableEq

/-- What a text shows that is read as code, comments left out.  Nothing, if a comment goes
    on behind the text. -/
def shown? : Inside → List Char → Option (List Char)
  | .code, [] => some []
  | .lineComment, [] | .blockComment, [] => none
  | .blockComment, '*' :: '/' :: text => shown? .code text
  | .blockComment, _ :: text => shown? .blockComment text
  | .lineComment, c :: text => shown? (if isNewline c then .code else .lineComment) text
  | .code, '/' :: '/' :: text => shown? .lineComment text
  | .code, '/' :: '*' :: text => shown? .blockComment text
  | .code, c :: text => (shown? .code text).map (c :: ·)

/-- The zone in which a cursor reads on. -/
def Inside.zone (mark : Bool) : Inside → Zone
  | code => .code
  | lineComment => .lineComment
  | blockComment => .blockComment mark

theorem shown?_append_of_not_mem {front : List Char} (h : '/' ∉ front) (text : List Char) :
    shown? .code (front ++ text) = (shown? .code text).map (front ++ ·) := by
  induction front with
  | nil => simp
  | cons c front ih =>
    rw [List.mem_cons, not_or] at h
    have hcons : shown? .code (c :: (front ++ text)) =
        (shown? .code (front ++ text)).map (c :: ·) := by
      rw [shown?] <;> (rintro rest rfl; exact absurd rfl h.1)
    rw [List.cons_append, hcons, ih h.2, Option.map_map]
    rfl

namespace Cursor

variable {c : Cursor} {p : Place} {ch : Char} {rest : List Char}

theorem rest_entering (c : Cursor) (p : Place) (hch : ch ≠ '/') (rest : List Char) :
    (c.entering .code p (ch :: rest)).rest = ch :: rest := by
  rw [entering_of_visible (Zone.hide?_code_eq_none (opensComment_of_ne_slash hch rest))]
  rfl

/-- A visible character is walked. -/
theorem Walks.enter {text : List Char} {d : Cursor} (hc : c.inString = false)
    (h : Zone.code.hide? p ch rest.head? = none)
    (hrest : (c.entering .code (p.pass ch rest.head?) rest).Walks text d) :
    (c.entering .code p (ch :: rest)).Walks (ch :: text) d := by
  have hcur : (c.entering .code p (ch :: rest)).current = some ch := by
    rw [entering_of_visible h]
    rfl
  apply Walks.step hcur
  rwa [advance_entering hc h]

/-- Where a text shows characters, they are walked, and the cursor stands behind it. -/
theorem exists_walks_shown (hc : c.inString = false) {inside : Inside}
    {text shown after : List Char} (htext : '\\' ∉ text) (h : shown? inside text = some shown)
    (hafter : ∀ d, after.head? = some d → d ≠ '/' ∧ d ≠ '*') (hp : p.escaped = false)
    (mark : Bool) : ∃ q : Place, q.escaped = false ∧
      (c.entering (inside.zone mark) p (text ++ after)).Walks shown
        (c.entering .code q after) := by
  have hpass : ∀ (r : Place) (next : Option Char), ∀ d ∈ text, (r.pass d next).escaped = false := by
    intro r next d hd
    have hne : d ≠ '\\' := fun heq => htext (heq ▸ hd)
    simp [Place.pass, hne]
  clear htext
  -- the zone follows the text; nothing is escaped in between, so every mark of a comment counts
  fun_induction shown? inside text generalizing shown p mark with
  | case1 =>
    cases h
    exact ⟨p, hp, .stay⟩
  | case2 => cases h
  | case3 => cases h
  | case4 text ih =>
    have hescaped := hpass (p.pass '*' (some '/')) (text ++ after).head? '/' (by simp)
    obtain ⟨q, hq, hwalks⟩ := ih h
      (p := { (p.pass '*' (some '/')).pass '/' (text ++ after).head? with statementStart := mark })
      hescaped mark fun r next d hd => hpass r next d (by simp [hd])
    refine ⟨q, hq, ?_⟩
    have hclosing : c.entering (.blockComment mark) p ('*' :: '/' :: (text ++ after)) =
        c.entering (.blockClosing mark) (p.pass '*' (some '/')) ('/' :: (text ++ after)) :=
      entering_of_hide? rfl
    rw [Inside.zone, List.cons_append, List.cons_append, hclosing, entering_of_hide? rfl]
    exact hwalks
  | case5 d text hclose ih =>
    have hescaped := hpass p (text ++ after).head? d List.mem_cons_self
    obtain ⟨q, hq, hwalks⟩ := ih h hescaped mark fun r next e he =>
      hpass r next e (List.mem_cons_of_mem d he)
    refine ⟨q, hq, ?_⟩
    rw [Inside.zone, List.cons_append,
      entering_of_hide? (Zone.hide?_blockComment_of_unclosed hclose hafter)]
    exact hwalks
  | case6 d text ih =>
    have hescaped := hpass p (text ++ after).head? d List.mem_cons_self
    obtain ⟨q, hq, hwalks⟩ := ih h hescaped mark fun r next e he =>
      hpass r next e (List.mem_cons_of_mem d he)
    refine ⟨q, hq, ?_⟩
    have hzone : Zone.lineComment.hide? p d (text ++ after).head? =
        some ((if isNewline d then Inside.code else .lineComment).zone mark,
          p.pass d (text ++ after).head?) := by
      by_cases hnewline : isNewline d <;> simp [Zone.hide?, Inside.zone, hnewline]
    rw [Inside.zone, List.cons_append, entering_of_hide? hzone]
    exact hwalks
  | case7 text ih =>
    have hescaped := hpass (p.pass '/' (some '/')) (text ++ after).head? '/' (by simp)
    obtain ⟨q, hq, hwalks⟩ := ih h hescaped mark fun r next d hd => hpass r next d (by simp [hd])
    refine ⟨q, hq, ?_⟩
    have hopening : c.entering .code p ('/' :: '/' :: (text ++ after)) =
        c.entering .lineComment (p.pass '/' (some '/')) ('/' :: (text ++ after)) :=
      entering_of_hide? (by simp [Zone.hide?, hp])
    rw [Inside.zone, List.cons_append, List.cons_append, hopening, entering_of_hide? rfl]
    exact hwalks
  | case8 text ih =>
    have hescaped := hpass (p.pass '/' (some '*')) (text ++ after).head? '*' (by simp)
    obtain ⟨q, hq, hwalks⟩ := ih h hescaped p.statementStart fun r next d hd =>
      hpass r next d (by simp [hd])
    refine ⟨q, hq, ?_⟩
    have hopening : c.entering .code p ('/' :: '*' :: (text ++ after)) =
        c.entering (.blockOpening p.statementStart) (p.pass '/' (some '*'))
          ('*' :: (text ++ after)) :=
      entering_of_hide? (by simp [Zone.hide?, hp])
    rw [Inside.zone, List.cons_append, List.cons_append, hopening, entering_of_hide? rfl]
    exact hwalks
  | case9 d text hline hblock ih =>
    obtain ⟨shown, hshown, rfl⟩ := Option.map_eq_some_iff.mp h
    have hescaped := hpass p (text ++ after).head? d List.mem_cons_self
    obtain ⟨q, hq, hwalks⟩ := ih hshown hescaped mark fun r next e he =>
      hpass r next e (List.mem_cons_of_mem d he)
    have hvisible := Zone.hide?_code_eq_none (p := p)
      (opensComment_cons_append hline hblock hafter)
    exact ⟨q, hq, .enter hc hvisible hwalks⟩

end Cursor

/-! ### The statements -/

/-- The places where a clause takes a string for a name. -/
inductive StringName where
  /-- `import { "t" as a } from 'm'` -/
  | imported
  /-- `export { a as "t" } from 'm'` -/
  | exported
  /-- `export * as "t" from 'm'` -/
  | exportedAll

namespace StringName

def statement : StringName → Statement
  | imported => .importing
  | exported => .exporting
  | exportedAll => .exporting

/-- What stands between the word of the statement and the name, the quote included. -/
def before : StringName → List Char
  | imported => ['{', ' ', '\x22']
  | exported => ['{', ' ', 'a', ' ', 'a', 's', ' ', '\x22']
  | exportedAll => ['*', ' ', 'a', 's', ' ', '\x22']

/-- What stands between the name and `from`, the quote included. -/
def behind : StringName → List Char
  | imported => ['\x22', ' ', 'a', 's', ' ', 'a', ' ', '}', ' ']
  | exported => ['\x22', ' ', '}', ' ']
  | exportedAll => ['\x22', ' ']

/-- The clause, up to the literal. -/
def clause (form : StringName) (name : List Char) : List Char :=
  form.before ++ name ++ form.behind ++ ['f', 'r', 'o', 'm', ' ']

/-- The statement with a name and the text of its literal. -/
def print (form : StringName) (name text : List Char) : List Char :=
  form.statement.letters ++ [' '] ++ form.clause name ++ '\x27' :: (text ++ ['\x27'])

/-- The characters do not end the name before its quote does. -/
def Keeps (form : StringName) (shown : List Char) : Prop :=
  match form with
  | imported => '}' ∉ shown
  | exported => '}' ∉ shown
  | exportedAll => ∀ ch ∈ shown, isWhitespace ch = false

variable (form : StringName) {name shown text : List Char}

/-- What stands before the name shows as it is. -/
theorem shown?_before (hshown : shown? .code name = some shown) :
    shown? .code (form.statement.letters ++ [' '] ++ form.before ++ name) =
      some (form.statement.letters ++ [' '] ++ form.before ++ shown) := by
  have hslash : '/' ∉ form.statement.letters ++ [' '] ++ form.before := by cases form <;> decide
  rw [shown?_append_of_not_mem hslash, hshown]
  rfl

theorem shown?_behind :
    shown? .code (form.behind ++ ['f', 'r', 'o', 'm', ' ']) =
      some (form.behind ++ ['f', 'r', 'o', 'm', ' ']) := by
  cases form <;> rfl

/-- The statement shows its clause with what the name shows, up to the literal. -/
theorem exists_walks_print (text : List Char) (hname : '\\' ∉ name)
    (hshown : shown? .code name = some shown) :
    ∃ q, (Cursor.ofSource (form.print name text)).Walks
        (form.statement.letters ++ [' '] ++ form.clause shown) q ∧
      q.rest = '\x27' :: (text ++ ['\x27']) := by
  have hfront : '\\' ∉ form.statement.letters ++ [' '] ++ form.before ++ name := by
    rw [List.mem_append, not_or]
    exact ⟨by cases form <;> decide, hname⟩
  have hback : '\\' ∉ form.behind ++ ['f', 'r', 'o', 'm', ' '] := by cases form <;> decide
  have hquote : ∀ d, (form.behind ++ ['f', 'r', 'o', 'm', ' '] ++
      '\x27' :: (text ++ ['\x27'])).head? = some d → d ≠ '/' ∧ d ≠ '*' := by
    intro d hd
    obtain rfl : '\x22' = d := by
      cases form <;> exact Option.some.inj hd
    decide
  have hliteral : ∀ d, ('\x27' :: (text ++ ['\x27'])).head? = some d → d ≠ '/' ∧ d ≠ '*' := by
    intro d hd
    obtain rfl := Option.some.inj hd
    decide
  -- the name is walked up to its closing quote, and what stands behind it up to the literal
  let first : Cursor := {
    toPlace := Place.start (form.print name text)
    rest := form.print name text
    inString := false }
  obtain ⟨p, hp, hnames⟩ := Cursor.exists_walks_shown (c := first) rfl hfront
    (form.shown?_before hshown) hquote (p := first.toPlace) rfl false
  obtain ⟨q, -, hfrom⟩ := Cursor.exists_walks_shown (c := first) rfl hback form.shown?_behind
    hliteral hp false
  refine ⟨_, ?_, first.rest_entering q (by decide) (text ++ ['\x27'])⟩
  have hprint : form.statement.letters ++ [' '] ++ form.before ++ name ++
      (form.behind ++ ['f', 'r', 'o', 'm', ' '] ++ '\x27' :: (text ++ ['\x27'])) =
        form.print name text := by
    simp [print, clause]
  have hsource : first.entering .code first.toPlace (form.print name text) =
      Cursor.ofSource (form.print name text) := rfl
  have hboth := hnames.trans hfrom
  rw [hprint, Inside.zone, hsource] at hboth
  simpa [clause] using hboth

/-- The clause comes to the literal, with what the name shows in its place. -/
theorem ends_clause {s : Scan} {q : Cursor} {post : Outcome → Scan → Prop}
    (hkeeps : form.Keeps shown) (h : s.cursor.Undollared)
    (hvisible : q.current.any isWhitespace = false)
    (hwalks : s.cursor.Walks (form.clause shown) q) :
    (ScanM.clause form.statement).Ends s post ↔
      (ScanM.specifier form.statement).Ends { s with cursor := q } post := by
  have hblank := isGap_blank
  cases form with
  | imported =>
    have hnone : '}' ∉ ' ' :: '\x22' :: (shown ++ ['\x22', ' ', 'a', 's', ' ', 'a', ' ']) := by
      simpa using show '}' ∉ shown from hkeeps
    apply ScanM.ends_clause_of_braces .importing h List.nil_prefix hnone hblank hblank hvisible
    simpa [clause, before, behind] using hwalks
  | exported =>
    have hnone : '}' ∉ [' ', 'a', ' ', 'a', 's', ' ', '\x22'] ++ shown ++ ['\x22', ' '] := by
      simpa using show '}' ∉ shown from hkeeps
    apply ScanM.ends_clause_of_braces .exporting h List.nil_prefix hnone hblank hblank hvisible
    simpa [clause, before, behind] using hwalks
  | exportedAll =>
    have hname : IsSpacedName ([' '] ++ ('\x22' :: (shown ++ ['\x22'])) ++ [' ']) := by
      refine ⟨[' '], '\x22' :: (shown ++ ['\x22']), [' '], rfl, hblank, List.cons_ne_nil _ _, ?_,
        List.cons_ne_nil _ _, hblank⟩
      intro ch hch
      rcases List.mem_cons.mp hch with rfl | hch
      · decide
      rcases List.mem_append.mp hch with hch | hch
      · exact hkeeps ch hch
      · rw [List.mem_singleton.mp hch]
        decide
    have hstar : s.cursor.Walks ('*' :: ([' '] ++ ['a', 's'] ++
        ([' '] ++ ('\x22' :: (shown ++ ['\x22'])) ++ [' '])) ++
          (['f', 'r', 'o', 'm'] ++ [' '])) q := by
      simpa [clause, before, behind] using hwalks
    exact ScanM.ends_clause_of_star hblank hname hblank hvisible hstar

theorem exists_clause_eq_cons (name : List Char) :
    ∃ ch text, form.clause name = ch :: text ∧ isWhitespace ch = false ∧ isQuote ch = false := by
  cases form with
  | imported => exact ⟨'{', _, rfl, by decide⟩
  | exported => exact ⟨'{', _, rfl, by decide⟩
  | exportedAll => exact ⟨'*', _, rfl, by decide⟩

theorem begins_print (name text : List Char) : form.statement.letters <+: form.print name text := by
  simp only [print, List.append_assoc]
  exact List.prefix_append _ _

end StringName

/-! ### The theorem -/

/-- **A name that is a string is passed, if it reads as the code of a name.**  Where it
    leaves no comment open, and shows no character that ends the names early, each of the
    three statements gives its module and nothing else. -/
theorem scanFindings_stringNames (form : StringName) {name shown text : List Char}
    (hname : '\\' ∉ name) (hshown : shown? .code name = some shown) (hkeeps : form.Keeps shown)
    (htext : Unescaped '\x27' text) :
    scanFindings (form.print name text) = [.reference (String.ofList text) 1] := by
  obtain ⟨q, hwalks, hrest⟩ := form.exists_walks_print text hname hshown
  obtain ⟨ch, clause, hclause, hsolid⟩ := form.exists_clause_eq_cons shown
  have hvisible : q.current.any isWhitespace = false := by
    rw [Cursor.current, hrest]
    rfl
  have hends : ∀ s post, s.cursor.Undollared → s.cursor.Walks (form.clause shown) q →
      ((ScanM.clause form.statement).Ends s post ↔
        (ScanM.specifier form.statement).Ends { s with cursor := q } post) := by
    intro s post hs hnames
    exact form.ends_clause hkeeps hs hvisible hnames
  rw [hclause] at hwalks hends
  exact scanFindings_of_clause (l := htext.literal (by decide)) (form.begins_print name text) hwalks
    hsolid hends hrest

/-- A brace in a comment of the name closes nothing, whether the comment ends with its line or
    before. -/
theorem scanFindings_stringNames_comment :
    '\\' ∉ "a//\x7d\n b/*\x7d*/".toList ∧
      shown? .code "a//\x7d\n b/*\x7d*/".toList = some "a b".toList ∧
      StringName.imported.Keeps "a b".toList ∧ Unescaped '\x27' "./m.js".toList ∧
      scanFindings (StringName.imported.print "a//\x7d\n b/*\x7d*/".toList "./m.js".toList) =
        [.reference (String.ofList "./m.js".toList) 1] := by
  have hname : '\\' ∉ "a//\x7d\n b/*\x7d*/".toList := by decide
  have hshown : shown? .code "a//\x7d\n b/*\x7d*/".toList = some "a b".toList := by decide
  have hkeeps : StringName.imported.Keeps "a b".toList := show '}' ∉ "a b".toList by decide
  have htext : Unescaped '\x27' "./m.js".toList := forall_mem_of_all (by decide)
  exact ⟨hname, hshown, hkeeps, htext,
    scanFindings_stringNames .imported hname hshown hkeeps htext⟩

/-- A brace closes the names, whitespace ends the name of all, and what a comment hides is
    not found: in each case the module is lost. -/
theorem stringNames_lose_module :
    StringName.imported.print "\x7d".toList "m".toList =
        "import \x7b \"\x7d\" as a \x7d from 'm'".toList ∧
      scanFindings (StringName.imported.print "\x7d".toList "m".toList) =
        [.diagnostic .missingFrom 1, .rejected 1] ∧
      scanFindings (StringName.exported.print "\x7d".toList "m".toList) = [] ∧
      scanFindings (StringName.exportedAll.print "a b".toList "m".toList) = [] ∧
      scanFindings (StringName.exported.print "//".toList "m".toList) = [] ∧
      scanFindings (StringName.exported.print "/*".toList "m".toList) = [] := by
  decide +kernel

end ModuleScan
