/-
  ModuleScan/Proofs/StatementStart.lean
  =====================================
  **The statement-start mark, read backwards.**

  A cursor carries the mark along from character to character, also through comments,
  and puts it back behind a block comment.  What it says can be read off the fragments
  before the current character: going back over blanks and block comments one comes to
  the start of the text or to something that ends a statement (`BeginsStatement`).  No
  character within a block comment counts, and none stands in the way.
-/
import ModuleScan.Proofs.Fragments

namespace ModuleScan

/-! ### The fragments before a statement -/

namespace Fragment

/-- Whether the fragment may stand between the beginning of a statement and what ended
    the statement before. -/
def isGap : Fragment → Bool
  | .character c => isBlank c
  | .comment .block _ => true
  | .comment .line _ => false

/-- Whether a statement ends with the fragment: a semicolon, a line terminator, or a
    line comment, of which the line terminator is a part. -/
def endsStatement : Fragment → Bool
  | .character c => ModuleScan.endsStatement c
  | .comment .block _ => false
  | .comment .line _ => true

theorem mark_eq (atStart : Bool) (f : Fragment) :
    f.mark atStart = (f.endsStatement || (f.isGap && atStart)) := by
  cases f with
  | character c => rfl
  | comment kind text => cases kind <;> rfl

end Fragment

/-- A statement may begin behind the fragments: before a gap there is nothing, or the end
    of a statement. -/
def BeginsStatement (before : List Fragment) : Prop :=
  ∃ front gap, before = front ++ gap ∧ (∀ f ∈ gap, f.isGap = true) ∧
    (front = [] ∨ ∃ start last, front = start ++ [last] ∧ last.endsStatement = true)

theorem beginsStatement_nil : BeginsStatement [] :=
  ⟨[], [], rfl, List.forall_mem_nil _, .inl rfl⟩

theorem beginsStatement_concat {before : List Fragment} {f : Fragment} :
    BeginsStatement (before ++ [f]) ↔
      f.endsStatement = true ∨ (f.isGap = true ∧ BeginsStatement before) := by
  constructor
  · rintro ⟨front, gap, hsplit, hgap, hfront⟩
    -- the last fragment is the end of a statement, or the last of the gap
    rcases List.eq_nil_or_concat gap with rfl | ⟨gap, last, rfl⟩
    · rw [List.append_nil] at hsplit
      subst hsplit
      rcases hfront with hnil | ⟨start, last, hstart, hends⟩
      · exact absurd hnil (by simp)
      · obtain ⟨-, hf⟩ := List.append_inj' hstart rfl
        cases hf
        exact .inl hends
    · rw [List.concat_eq_append] at hsplit hgap
      rw [← List.append_assoc] at hsplit
      obtain ⟨rfl, hf⟩ := List.append_inj' hsplit rfl
      cases hf
      refine .inr ⟨hgap f (by simp), front, gap, rfl, ?_, hfront⟩
      intro g hg
      exact hgap g (List.mem_append_left _ hg)
  · rintro (hends | ⟨hf, front, gap, rfl, hgap, hfront⟩)
    · exact ⟨before ++ [f], [], (List.append_nil _).symm, List.forall_mem_nil _,
        .inr ⟨before, f, rfl, hends⟩⟩
    · refine ⟨front, gap ++ [f], List.append_assoc .., ?_, hfront⟩
      intro g hg
      rcases List.mem_append.mp hg with hg | hg
      · exact hgap g hg
      · rw [List.mem_singleton.mp hg]
        exact hf

/-- Nothing within a block comment has a part in whether a statement begins behind it. -/
theorem beginsStatement_concat_block {before : List Fragment} {text : List Char} :
    BeginsStatement (before ++ [.comment .block text]) ↔ BeginsStatement before := by
  rw [beginsStatement_concat]
  constructor
  · rintro (hends | ⟨-, hbefore⟩)
    · cases hends
    · exact hbefore
  · intro hbefore
    exact .inr ⟨rfl, hbefore⟩

/-- The mark is carried over the fragments as a statement begins behind them. -/
theorem foldl_mark_iff (before : List Fragment) :
    before.foldl Fragment.mark true = true ↔ BeginsStatement before := by
  induction before using List.reverseRecOn with
  | nil => exact iff_of_true rfl beginsStatement_nil
  | append_singleton before f ih =>
    rw [List.foldl_append, List.foldl_cons, List.foldl_nil, Fragment.mark_eq, Bool.or_eq_true,
      Bool.and_eq_true, ih, beginsStatement_concat]

/-! ### The fragments before a visited character -/

/-- The character with a number among the fragments is one of them. -/
theorem exists_split_of_charactersFrom {offset n : Nat} {all : List Fragment} {seen : Char × Nat}
    (h : (charactersFrom offset all)[n]? = some seen) :
    ∃ before after, all = before ++ .character seen.1 :: after ∧
      (charactersFrom offset before).length = n := by
  induction all generalizing offset n with
  | nil => cases h
  | cons f all ih =>
    cases f with
    | character c =>
      cases n with
      | zero =>
        cases h
        exact ⟨[], all, rfl, rfl⟩
      | succ n =>
        obtain ⟨before, after, rfl, hn⟩ := ih h
        exact ⟨.character c :: before, after, rfl, congrArg (· + 1) hn⟩
    | comment kind text =>
      obtain ⟨before, after, rfl, hn⟩ := ih h
      exact ⟨.comment kind text :: before, after, rfl, hn⟩

/-- A cursor stands at a character with the mark that the fragments before it leave. -/
theorem Cursor.place_at_fragment {source : List Char} {before after : List Fragment} {c : Char}
    (h : fragments [] source = before ++ .character c :: after) :
    let cursor := advance^[(charactersFrom 0 before).length] (ofSource source)
    cursor.offset = utf8Length (before.flatMap Fragment.text) ∧
      cursor.statementStart = before.foldl Fragment.mark true := by
  intro cursor
  obtain ⟨visited, q, rest, hback, hread⟩ := exists_readThrough h (Place.tells_start source)
  obtain ⟨rest', -, hnext⟩ := exists_readThrough_first hback hread.tells
  have hcount : visited.length = (charactersFrom 0 before).length := by
    rw [← List.length_map (fun v : Place × Char => (v.2, v.1.offset)), hread.characters]
    rfl
  have hvisits : cursor.visits =
      (q, c) :: ModuleScan.visits .code (q.passFragment (.character c) rest') rest' := by
    rw [visits_iterate_advance rfl, visits_ofSource, hread.visits, ← hcount, List.drop_left,
      hnext.visits]
    rfl
  obtain ⟨hplace, -⟩ :=
    toPlace_of_visits ((ofSource source).leads_iterate_advance _).inString hvisits
  have hoffset := hread.offset
  rw [show (Place.start source).offset = 0 from rfl, Nat.zero_add] at hoffset
  rw [hplace]
  exact ⟨hoffset, hread.mark⟩

/-- **The statement-start mark means what it says.**  Where a cursor shows a character,
    the mark is set if and only if going back over blanks and whole block comments leads
    to the start of the text, to a semicolon or a line terminator outside comments, or to
    the end of a line comment.  If a block comment stands right before the character, the
    mark is the one from before the comment. -/
theorem statementStart_iff_beginsStatement {source : List Char} {n : Nat} {c : Char}
    (h : (Cursor.advance^[n] (Cursor.ofSource source)).current = some c) :
    let cursor := Cursor.advance^[n] (Cursor.ofSource source)
    ∃ before after, fragments [] source = before ++ .character c :: after ∧
      (charactersFrom 0 before).length = n ∧
      cursor.offset = utf8Length (before.flatMap Fragment.text) ∧
      (cursor.statementStart = true ↔ BeginsStatement before) ∧
      ∀ front text, before = front ++ [.comment .block text] →
        (cursor.statementStart = true ↔ BeginsStatement front) := by
  intro cursor
  obtain ⟨before, after, hsplit, rfl⟩ : ∃ before after,
      fragments [] source = before ++ .character c :: after ∧
        (charactersFrom 0 before).length = n := by
    have hseen := getElem?_charactersFrom_fragments source n
    rw [h, Option.map_some] at hseen
    exact exists_split_of_charactersFrom hseen
  obtain ⟨hoffset, hmark⟩ := Cursor.place_at_fragment hsplit
  refine ⟨before, after, hsplit, rfl, hoffset, ?_, ?_⟩
  · rw [hmark]
    exact foldl_mark_iff before
  · rintro front text rfl
    rw [hmark, foldl_mark_iff]
    exact beginsStatement_concat_block

/-- A semicolon and a line terminator in the block comment before a letter, which another
    letter and blanks keep from the start of a statement. -/
theorem statementStart_iff_beginsStatement_block :
    let source := ";/*\n*/ x /*;\n*/y".toList
    let cursor := Cursor.advance^[4] (Cursor.ofSource source)
    cursor.current = some 'y' ∧
      ∃ before after, fragments [] source = before ++ .character 'y' :: after ∧
        (charactersFrom 0 before).length = 4 ∧
        cursor.offset = utf8Length (before.flatMap Fragment.text) ∧
        (cursor.statementStart = true ↔ BeginsStatement before) ∧
        ∀ front text, before = front ++ [.comment .block text] →
          (cursor.statementStart = true ↔ BeginsStatement front) := by
  intro source cursor
  have hcurrent : cursor.current = some 'y' := by decide +kernel
  exact ⟨hcurrent, statementStart_iff_beginsStatement hcurrent⟩

end ModuleScan
