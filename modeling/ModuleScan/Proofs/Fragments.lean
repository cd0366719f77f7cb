/-
  ModuleScan/Proofs/Fragments.lean
  ================================
  **What a cursor visits: a source without its comments.**

  Read from left to right, a source falls into comments and the characters between
  them (`fragments`).  A slash opens a comment if an even number of backslashes stands
  before it and another slash or an asterisk behind it.  A line comment goes on through
  the first line terminator and a block comment through the first `*/` that begins
  behind its two opening characters; where there is none they go on to the end.
  Nothing is lost (`flatMap_text_fragments`), and what a cursor visits as it advances
  from the start are the characters between the comments, each at its own offset
  (`advance_visits_fragments`).
-/
import ModuleScan.Proofs.Position
import ModuleScan.Proofs.Silent

namespace ModuleScan

/-! ### Comments -/

inductive CommentKind where
  | line
  | block
deriving DecidableEq, Repr

/-- The beginning of a text through its first line terminator. -/
def throughNewline : List Char → List Char
  | [] => []
  | c :: rest => if isNewline c then [c] else c :: throughNewline rest

/-- The beginning of a text through its first `*/`. -/
def throughClose : List Char → List Char
  | [] => []
  | c :: rest => if c = '*' ∧ rest.head? = some '/' then ['*', '/'] else c :: throughClose rest

namespace CommentKind

/-- The character that opens the comment, behind a slash. -/
def opener : CommentKind → Char
  | .line => '/'
  | .block => '*'

def through : CommentKind → List Char → List Char
  | .line => throughNewline
  | .block => throughClose

/-- The comment at the front of a text, its two opening characters included.  Nothing ends
    a comment before a character behind these two. -/
def textOf (kind : CommentKind) (s : List Char) : List Char :=
  s.take 2 ++ kind.through (s.drop 2)

end CommentKind

/-- The kind of the comment that opens at the front of a text, if `before` stands
    before the text. -/
def opened? (before : List Char) : List Char → Option CommentKind
  | '/' :: c :: _ =>
    if Odd (trailingBackslashes before) then none
    else if c = '/' then some .line
    else if c = '*' then some .block
    else none
  | _ => none

theorem opened?_eq_some {before s : List Char} {kind : CommentKind} :
    opened? before s = some kind ↔
      ¬ Odd (trailingBackslashes before) ∧ ∃ rest, s = '/' :: kind.opener :: rest := by
  constructor
  · intro h
    unfold opened? at h
    split at h
    next c rest =>
      split at h
      · cases h
      next hodd =>
        refine ⟨hodd, rest, ?_⟩
        split at h
        next hline =>
          cases h
          rw [hline, CommentKind.opener]
        next hline =>
          split at h
          next hblock =>
            cases h
            rw [hblock, CommentKind.opener]
          · cases h
    · cases h
  · rintro ⟨hodd, rest, rfl⟩
    rw [opened?, if_neg hodd]
    rcases kind with _ | _ <;> rfl

theorem throughNewline_prefix (s : List Char) : throughNewline s <+: s := by
  induction s with
  | nil => exact List.prefix_rfl
  | cons c rest ih =>
    rw [throughNewline]
    split
    · exact List.cons_prefix_cons.mpr ⟨rfl, List.nil_prefix⟩
    · exact List.cons_prefix_cons.mpr ⟨rfl, ih⟩

theorem throughClose_prefix (s : List Char) : throughClose s <+: s := by
  induction s with
  | nil => exact List.prefix_rfl
  | cons c rest ih =>
    rw [throughClose]
    split
    next hclose =>
      obtain ⟨rfl, hslash⟩ := hclose
      obtain ⟨after, rfl⟩ := List.head?_eq_some_iff.mp hslash
      exact ⟨after, rfl⟩
    · exact List.cons_prefix_cons.mpr ⟨rfl, ih⟩

namespace CommentKind

theorem through_prefix (kind : CommentKind) (s : List Char) : kind.through s <+: s := by
  cases kind with
  | line => exact throughNewline_prefix s
  | block => exact throughClose_prefix s

theorem textOf_prefix (kind : CommentKind) (s : List Char) : kind.textOf s <+: s := by
  obtain ⟨after, hafter⟩ := kind.through_prefix (s.drop 2)
  refine ⟨after, ?_⟩
  rw [textOf, List.append_assoc, hafter, List.take_append_drop]

theorem textOf_append_drop (kind : CommentKind) (s : List Char) :
    kind.textOf s ++ s.drop (kind.textOf s).length = s :=
  (List.prefix_iff_eq_append.mp (kind.textOf_prefix s))

end CommentKind

/-! ### Fragments -/

inductive Fragment where
  | character (c : Char)
  | comment (kind : CommentKind) (text : List Char)
deriving DecidableEq, Repr

def Fragment.text : Fragment → List Char
  | .character c => [c]
  | .comment _ text => text

/-- The fragments of a text that `before` stands before, from left to right. -/
def fragments (before : List Char) : List Char → List Fragment
  | [] => []
  | c :: rest =>
    match opened? before (c :: rest) with
    | some kind =>
      let text := kind.textOf (c :: rest)
      .comment kind text :: fragments (before ++ text) ((c :: rest).drop text.length)
    | none => .character c :: fragments (before ++ [c]) rest
termination_by s => s.length
decreasing_by
  · have hpos : 0 < (kind.textOf (c :: rest)).length := by simp [CommentKind.textOf]
    rw [List.length_drop, List.length_cons]
    exact Nat.sub_lt (Nat.succ_pos _) hpos
  · exact Nat.lt_succ_self _

/-- The characters between the comments and their offsets. -/
def charactersFrom : Nat → List Fragment → List (Char × Nat)
  | _, [] => []
  | offset, .character c :: later => (c, offset) :: charactersFrom (offset + c.utf8Size) later
  | offset, .comment _ text :: later => charactersFrom (offset + utf8Length text) later

theorem fragments_of_opened {before s : List Char} {kind : CommentKind}
    (h : opened? before s = some kind) :
    fragments before s = .comment kind (kind.textOf s) ::
      fragments (before ++ kind.textOf s) (s.drop (kind.textOf s).length) := by
  obtain ⟨-, rest, rfl⟩ := opened?_eq_some.mp h
  rw [fragments, h]

theorem fragments_of_not_opened {before rest : List Char} {c : Char}
    (h : opened? before (c :: rest) = none) :
    fragments before (c :: rest) = .character c :: fragments (before ++ [c]) rest := by
  rw [fragments, h]

theorem eq_nil_of_fragments_eq_nil {before s : List Char} (h : fragments before s = []) :
    s = [] := by
  cases s with
  | nil => rfl
  | cons c rest =>
    cases hopened : opened? before (c :: rest) with
    | none =>
      rw [fragments_of_not_opened hopened] at h
      cases h
    | some kind =>
      rw [fragments_of_opened hopened] at h
      cases h

/-- Every character of a text stands in one fragment, and all in their order. -/
theorem flatMap_text_fragments (before s : List Char) :
    (fragments before s).flatMap Fragment.text = s := by
  fun_induction fragments before s with
  | case1 before => rfl
  | case2 before c rest kind hopened text ih =>
    rw [List.flatMap_cons, ih]
    exact kind.textOf_append_drop (c :: rest)
  | case3 before c rest hopened ih =>
    rw [List.flatMap_cons, ih]
    rfl

theorem charactersFrom_append (offset : Nat) (front later : List Fragment) :
    charactersFrom offset (front ++ later) =
      charactersFrom offset front ++
        charactersFrom (offset + utf8Length (front.flatMap Fragment.text)) later := by
  induction front generalizing offset with
  | nil => rfl
  | cons f front ih =>
    cases f with
    | character c =>
      simp only [List.cons_append, charactersFrom, ih, List.flatMap_cons, Fragment.text,
        utf8Length_append, utf8Length_cons, utf8Length_nil, Nat.zero_add, Nat.add_assoc]
    | comment kind text =>
      simp only [List.cons_append, charactersFrom, ih, List.flatMap_cons, Fragment.text,
        utf8Length_append, Nat.add_assoc]

/-! ### Visits within a comment -/

theorem visits_lineComment (p : Place) {text after s : List Char} (htext : throughNewline s = text)
    (hs : s = text ++ after) :
    visits .lineComment p s =
      visits .code { p.passAll text after with statementStart := true } after := by
  induction s generalizing p text with
  | nil =>
    obtain ⟨rfl, rfl⟩ := List.append_eq_nil_iff.mp hs.symm
    rfl
  | cons c rest ih =>
    rw [throughNewline] at htext
    by_cases hc : isNewline c = true
    · rw [if_pos hc] at htext
      subst htext
      obtain ⟨-, rfl⟩ := List.cons.inj hs
      have hmark : (p.pass c rest.head?).statementStart = true := by
        simp [Place.pass, endsStatement, hc]
      simp only [visits, Zone.hide?, if_pos hc, Place.passAll, List.nil_append]
      rw [← hmark]
    · rw [if_neg hc] at htext
      subst htext
      have hrest : rest = throughNewline rest ++ after := (List.cons.inj hs).2
      have hvisits := ih (p.pass c rest.head?) rfl hrest
      simp only [visits, Zone.hide?, if_neg hc, Place.passAll, ← hrest]
      exact hvisits

theorem visits_blockComment (b : Bool) (p : Place) {text after s : List Char}
    (htext : throughClose s = text) (hs : s = text ++ after) :
    visits (.blockComment b) p s =
      visits .code { p.passAll text after with statementStart := b } after := by
  induction s generalizing p text with
  | nil =>
    obtain ⟨rfl, rfl⟩ := List.append_eq_nil_iff.mp hs.symm
    rfl
  | cons c rest ih =>
    rw [throughClose] at htext
    by_cases hclose : c = '*' ∧ rest.head? = some '/'
    · rw [if_pos hclose] at htext
      subst htext
      obtain ⟨-, rfl⟩ := List.cons.inj hs
      obtain ⟨rfl, -⟩ := hclose
      rfl
    · rw [if_neg hclose] at htext
      subst htext
      have hrest : rest = throughClose rest ++ after := (List.cons.inj hs).2
      have hgoes : (c == '*' && rest.head? == some '/') = false := by
        simpa using hclose
      have hvisits := ih (p.pass c rest.head?) rfl hrest
      simp only [visits, Zone.hide?, hgoes, Bool.false_eq_true, if_false, Place.passAll, ← hrest]
      exact hvisits

/-! ### Visits of a fragment -/

theorem Place.Tells.passAll {p : Place} {before text after : List Char}
    (h : p.Tells before (text ++ after).head?) :
    (p.passAll text after).Tells (before ++ text) after.head? := by
  induction text generalizing p before with
  | nil => rwa [List.append_nil]
  | cons c text ih =>
    have hpass : (p.pass c (text ++ after).head?).Tells (before ++ [c]) (text ++ after).head? :=
      Place.Tells.pass h _
    rw [Place.passAll, List.append_cons before c text]
    exact ih hpass

namespace Fragment

/-- Whether a statement may begin behind the fragment, if it might begin before it. -/
def mark (atStart : Bool) : Fragment → Bool
  | .character c => endsStatement c || (isBlank c && atStart)
  | .comment .line _ => true
  | .comment .block _ => atStart

def visitsAt (p : Place) : Fragment → List (Place × Char)
  | .character c => [(p, c)]
  | .comment _ _ => []

end Fragment

/-- The place behind a fragment. -/
def Place.passFragment (p : Place) (f : Fragment) (after : List Char) : Place :=
  { p.passAll f.text after with statementStart := f.mark p.statementStart }

theorem Place.Tells.passFragment {p : Place} {before after : List Char} {f : Fragment}
    (h : p.Tells before (f.text ++ after).head?) :
    (p.passFragment f after).Tells (before ++ f.text) after.head? :=
  (h.passAll).mark _

theorem not_escaped_of_opened {p : Place} {before s : List Char} {kind : CommentKind}
    (h : opened? before s = some kind) (hp : p.Tells before s.head?) : p.escaped = false := by
  obtain ⟨hodd, rest, rfl⟩ := opened?_eq_some.mp h
  rw [← Bool.not_eq_true, hp.escaped]
  intro hboth
  exact hodd hboth.2

/-- Nothing of a comment is visited. -/
theorem visits_of_opened {p : Place} {before s after : List Char} {kind : CommentKind}
    (h : opened? before s = some kind) (hp : p.Tells before s.head?)
    (hs : s = kind.textOf s ++ after) :
    visits .code p s =
      visits .code (p.passFragment (.comment kind (kind.textOf s)) after) after := by
  have hescaped := not_escaped_of_opened h hp
  obtain ⟨-, rest, rfl⟩ := opened?_eq_some.mp h
  have hrest : rest = kind.through rest ++ after := (List.cons.inj (List.cons.inj hs).2).2
  have hhead : rest.head? = (kind.through rest ++ after).head? := by rw [← hrest]
  rcases kind with _ | _
  · have hopen : visits .code p ('/' :: '/' :: rest) =
        visits .lineComment ((p.pass '/' (some '/')).pass '/' rest.head?) rest := by
      simp [visits, Zone.hide?, hescaped, isNewline]
    refine hopen.trans ?_
    rw [hhead]
    exact visits_lineComment _ rfl hrest
  · have hopen : visits .code p ('/' :: '*' :: rest) =
        visits (.blockComment p.statementStart)
          ((p.pass '/' (some '*')).pass '*' rest.head?) rest := by
      simp [visits, Zone.hide?, hescaped]
    refine hopen.trans ?_
    rw [hhead]
    exact visits_blockComment _ _ rfl hrest

/-- A character outside comments is visited. -/
theorem visits_of_not_opened {p : Place} {before rest : List Char} {c : Char}
    (h : opened? before (c :: rest) = none) (hp : p.Tells before (some c)) :
    visits .code p (c :: rest) = (p, c) :: visits .code (p.pass c rest.head?) rest := by
  have hnot : ∀ kind : CommentKind, c = '/' → p.escaped = false →
      rest.head? ≠ some kind.opener := by
    rintro kind rfl hescaped hhead
    obtain ⟨later, rfl⟩ := List.head?_eq_some_iff.mp hhead
    have hodd : ¬ Odd (trailingBackslashes before) := by
      intro hodd
      have hp' := hp.escaped.mpr ⟨rfl, hodd⟩
      rw [hescaped] at hp'
      cases hp'
    have hopened : opened? before ('/' :: kind.opener :: later) = some kind :=
      opened?_eq_some.mpr ⟨hodd, later, rfl⟩
    rw [h] at hopened
    cases hopened
  have hhide : Zone.code.hide? p c rest.head? = none := by
    by_cases hslash : c = '/' ∧ p.escaped = false
    · have hline := hnot .line hslash.1 hslash.2
      have hblock := hnot .block hslash.1 hslash.2
      simp only [CommentKind.opener] at hline hblock
      simp [Zone.hide?, hline, hblock]
    · have hcode : (c == '/' && !p.escaped) = false := by simpa using hslash
      simp [Zone.hide?, hcode]
  rw [visits, hhide]
  rfl

/-! ### Visits of all fragments -/

/-- The fragments `front` are read from the place `p` on, `visited` is visited on the
    way, and it goes on at the place `q` with the text `after`. -/
structure ReadThrough (before : List Char) (p : Place) (s : List Char) (front : List Fragment)
    (visited : List (Place × Char)) (q : Place) (after : List Char) : Prop where
  tells : q.Tells (before ++ front.flatMap Fragment.text) after.head?
  visits : visits .code p s = visited ++ visits .code q after
  offset : q.offset = p.offset + utf8Length (front.flatMap Fragment.text)
  characters : visited.map (fun v => (v.2, v.1.offset)) = charactersFrom p.offset front
  mark : q.statementStart = front.foldl Fragment.mark p.statementStart

theorem ReadThrough.trans {before s after rest : List Char} {p q r : Place}
    {front later : List Fragment} {visited visited' : List (Place × Char)}
    (h : ReadThrough before p s front visited q after)
    (h' : ReadThrough (before ++ front.flatMap Fragment.text) q after later visited' r rest) :
    ReadThrough before p s (front ++ later) (visited ++ visited') r rest where
  tells := by
    rw [List.flatMap_append, ← List.append_assoc]
    exact h'.tells
  visits := by rw [h.visits, h'.visits, List.append_assoc]
  offset := by rw [h'.offset, h.offset, List.flatMap_append, utf8Length_append, Nat.add_assoc]
  characters := by
    rw [List.map_append, h.characters, h'.characters, h.offset, charactersFrom_append]
  mark := by rw [h'.mark, h.mark, List.foldl_append]

/-- The first fragment of a text is read. -/
theorem exists_readThrough_first {before s : List Char} {f : Fragment} {later : List Fragment}
    (h : fragments before s = f :: later) {p : Place} (hp : p.Tells before s.head?) :
    ∃ after, fragments (before ++ f.text) after = later ∧
      ReadThrough before p s [f] (f.visitsAt p) (p.passFragment f after) after := by
  obtain ⟨after, hs, hlater, hvisits⟩ : ∃ after, s = f.text ++ after ∧
      fragments (before ++ f.text) after = later ∧
      visits .code p s = f.visitsAt p ++ visits .code (p.passFragment f after) after := by
    cases s with
    | nil =>
      rw [fragments] at h
      cases h
    | cons c rest =>
      cases hopened : opened? before (c :: rest) with
      | none =>
        rw [fragments_of_not_opened hopened] at h
        obtain ⟨rfl, hlater⟩ := List.cons.inj h
        exact ⟨rest, rfl, hlater, visits_of_not_opened hopened hp⟩
      | some kind =>
        rw [fragments_of_opened hopened] at h
        obtain ⟨rfl, hlater⟩ := List.cons.inj h
        have hs := (kind.textOf_append_drop (c :: rest)).symm
        exact ⟨_, hs, hlater, visits_of_opened hopened hp hs⟩
  refine ⟨after, hlater, ?_⟩
  rw [hs] at hp
  constructor
  · rw [List.flatMap_singleton]
    exact hp.passFragment
  · exact hvisits
  · rw [List.flatMap_singleton]
    exact Place.passAll_offset p f.text after
  · cases f <;> rfl
  · rfl

/-- Any number of fragments from the front of a text is read. -/
theorem exists_readThrough {before s : List Char} {front back : List Fragment}
    (h : fragments before s = front ++ back) {p : Place} (hp : p.Tells before s.head?) :
    ∃ visited q after, fragments (before ++ front.flatMap Fragment.text) after = back ∧
      ReadThrough before p s front visited q after := by
  induction front generalizing before s p with
  | nil =>
    refine ⟨[], p, s, ?_, ?_⟩
    · rw [List.flatMap_nil, List.append_nil]
      exact h
    · constructor
      · rwa [List.flatMap_nil, List.append_nil]
      · rfl
      · rfl
      · rfl
      · rfl
  | cons f front ih =>
    obtain ⟨mid, hmid, hfirst⟩ := exists_readThrough_first h hp
    have htells := hfirst.tells
    rw [List.flatMap_singleton] at htells
    obtain ⟨visited, q, after, hback, hread⟩ := ih hmid htells
    refine ⟨f.visitsAt p ++ visited, q, after, ?_, ?_⟩
    · rw [List.flatMap_cons, ← List.append_assoc]
      exact hback
    · apply ReadThrough.trans hfirst
      rwa [List.flatMap_singleton]

/-- What a cursor sees after a number of advances. -/
theorem Cursor.seen_iterate_advance (source : List Char) (n : Nat) :
    (advance^[n] (ofSource source)).current.map
        (fun c => (c, (advance^[n] (ofSource source)).offset)) =
      ((ModuleScan.visits .code (Place.start source) source)[n]?).map
        fun v => (v.2, v.1.offset) := by
  have hvisits := visits_iterate_advance (c := ofSource source) rfl n
  rw [visits_ofSource] at hvisits
  have hin := ((ofSource source).leads_iterate_advance n).inString
  rw [← List.head?_drop, ← hvisits]
  cases h : (advance^[n] (ofSource source)).visits with
  | nil =>
    rw [current_eq_head?_visits hin, h]
    rfl
  | cons v later =>
    obtain ⟨hplace, hcur⟩ := toPlace_of_visits hin h
    rw [hcur, hplace]
    rfl

/-- The cursor sees the characters between the comments, one with each advance. -/
theorem getElem?_charactersFrom_fragments (source : List Char) (n : Nat) :
    (charactersFrom 0 (fragments [] source))[n]? =
      (Cursor.advance^[n] (Cursor.ofSource source)).current.map
        fun c => (c, (Cursor.advance^[n] (Cursor.ofSource source)).offset) := by
  obtain ⟨visited, q, after, hback, hread⟩ :=
    exists_readThrough (List.append_nil (fragments [] source)).symm (Place.tells_start source)
  -- no fragment is left, so no text is left and nothing more is visited
  have hvisited : visits .code (Place.start source) source = visited := by
    rw [hread.visits, eq_nil_of_fragments_eq_nil hback]
    exact List.append_nil visited
  rw [Cursor.seen_iterate_advance, hvisited, ← List.getElem?_map, hread.characters]
  rfl

/-- **A cursor visits what no comment hides.**  The comments of a source and the characters
    between them make up the source; advancing from the start shows these characters in
    their order, each at its own offset, and then the end of the text. -/
theorem advance_visits_fragments (source : List Char) :
    (fragments [] source).flatMap Fragment.text = source ∧
      ∀ n, (charactersFrom 0 (fragments [] source))[n]? =
        (Cursor.advance^[n] (Cursor.ofSource source)).current.map
          fun c => (c, (Cursor.advance^[n] (Cursor.ofSource source)).offset) := by
  constructor
  · exact flatMap_text_fragments [] source
  · exact getElem?_charactersFrom_fragments source

end ModuleScan
