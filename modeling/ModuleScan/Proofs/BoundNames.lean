/-
  ModuleScan/Proofs/BoundNames.lean
  =================================
  **The bound names of an import are skipped up to what follows them.**

  The list is read clause by clause: names in braces, the name of a whole module,
  or a plain name, of which a beginning may have been read before.  In each of its
  forms it is complete, and the cursor stands behind its layout.
-/
import ModuleScan.Proofs.Reading

namespace ModuleScan

/-! ### One clause -/

theorem Braced.skipUntil_eq_past (names : Braced) {c : Cursor} {after : List Char}
    (hc : c.inString = false) (hr : c.rest = ['{'] ++ (names.text ++ (['}'] ++ after))) :
    c.skipUntil '}' = c.past (['{'] ++ names.text) (['}'] ++ after) := by
  have hbody : commentFree names.text (['}'] ++ after) = true := by
    apply commentFree_of_uncommented names.uncommented
    intro ch hch
    obtain rfl : '}' = ch := by simpa using hch
    decide
  have hfree : commentFree (['{'] ++ names.text) (['}'] ++ after) = true :=
    commentFree_append.mpr
      ⟨commentFree_of_not_mem (by decide) (opensComment_of_commentFree hbody), hbody⟩
  refine Cursor.skipWhile_eq_past hc (· != '}') (by simpa using hr) hfree ?_ (by simp)
  intro ch hch
  have hne : ch ≠ '}' := by
    rintro rfl
    exact names.unclosed (by simpa using hch)
  simpa using hne

namespace Clause

variable {c : Cursor} {gap after : List Char}

theorem afterNames_eq_last (hc : c.inString = false) (hr : c.rest = gap ++ after)
    (hgap : ∀ ch ∈ gap, isWhitespace ch = true) (hafter : Solid after)
    (hcomma : after.head? ≠ some ',') : afterNames c = .last .complete (c.past gap after) := by
  rw [afterNames, Cursor.skipWhitespace_eq_past hc hr hgap hafter, Cursor.past_current,
    if_neg (by simpa using hcomma)]

theorem afterNames_eq_more (hc : c.inString = false) (hr : c.rest = gap ++ ([','] ++ after))
    (hgap : ∀ ch ∈ gap, isWhitespace ch = true) :
    afterNames c = .more (c.past gap ([','] ++ after)) := by
  have hsolid : Solid ([','] ++ after) := solid_cons (by decide) (by decide) _
  rw [afterNames, Cursor.skipWhitespace_eq_past hc hr hgap hsolid, Cursor.past_current,
    if_pos (by simp)]

theorem braces_eq (hc : c.inString = false) (hprev : c.prev ≠ some '$') (names : Braced)
    (hr : c.rest = ['{'] ++ (names.text ++ (['}'] ++ after)))
    (hplain : opensComment after = false) :
    braces c = afterNames (c.past (['{'] ++ names.text ++ ['}']) after) := by
  have hguard : ¬ (c.prev == some '$' && !c.prevEscaped) = true := by
    simp [hprev]
  simp only [braces, if_neg hguard, names.skipUntil_eq_past hc hr, Cursor.past_advance hc hplain]
  rfl

theorem star_eq (hc : c.inString = false) (beforeAs : Gap) (afterAs : Break)
    (hr : c.rest = ['*'] ++ (beforeAs.text ++ (['a', 's'] ++ (afterAs.text ++ after))))
    (hafter : Solid after) :
    star c = .more (c.past (['*'] ++ (beforeAs.text ++ (['a', 's'] ++ afterAs.text))) after) := by
  have hplain := plain_append afterAs.allowed hafter.plain
  have hword : Solid (['a', 's'] ++ (afterAs.text ++ after)) :=
    solid_cons (by decide) (by decide) _
  have hstart : c = c.past [] (['*'] ++ (beforeAs.text ++ (['a', 's'] ++
      (afterAs.text ++ after)))) := by
    rw [← hr, Cursor.past_nil]
  have hafterAs : commentFree ['a', 's'] (afterAs.text ++ after) = true :=
    commentFree_of_not_mem (by decide) hplain
  rw [star, hstart, Cursor.past_advance hc (plain_append beforeAs.allowed hword.plain),
    Cursor.past_skipWhitespace hc beforeAs.allowed hword, Cursor.past_eat hc hafterAs]
  simp only [if_true, Cursor.past_skipWhitespace hc afterAs.allowed hafter, List.append_assoc]
  rfl

/-- A name, or the rest of one that was read in part. -/
theorem body_eq_of_name (hc : c.inString = false) {name : List Char} (hr : c.rest = name ++ after)
    (hname : ∀ ch ∈ name, isIdentContinue ch = true) (hplain : opensComment after = false)
    (hafter : ∀ ch, after.head? = some ch → isWhitespace ch = true ∨ ch = ',')
    (hcur : c.current ≠ none) : body c = afterNames (c.past name after) := by
  have hskip := Cursor.skipUntilWhitespaceOrComma_eq_past hc hr hname hplain hafter
  have hne : ∀ ch, c.current = some ch → ch ≠ '{' ∧ ch ≠ '*' := by
    intro ch hch
    rw [Cursor.current, hr] at hch
    cases name with
    | nil =>
      rcases hafter ch hch with hw | rfl
      · constructor
        · rintro rfl
          exact absurd hw (by decide)
        · rintro rfl
          exact absurd hw (by decide)
      · decide
    | cons d name =>
      obtain rfl : d = ch := by simpa using hch
      have hident := hname d (by simp)
      constructor
      · rintro rfl
        exact absurd hident (by decide)
      · rintro rfl
        exact absurd hident (by decide)
  unfold body
  split
  next hnone => exact absurd hnone hcur
  next hbrace => exact absurd rfl (hne _ hbrace).1
  next hstar => exact absurd rfl (hne _ hstar).2
  · rw [hskip]

theorem read_of_current_ne {ch : Char} (hcur : c.current = some ch) (hne : ch ≠ ',') :
    read c = body c := by
  rw [read, if_neg (by simp [hcur, hne])]

end Clause

/-! ### The list -/

theorem Cursor.exists_current_ne_comma {c : Cursor} {name gap after : List Char}
    (hname : ∀ ch ∈ name, isIdentContinue ch = true) (hgap : ∀ ch ∈ gap, isWhitespace ch = true)
    (hr : c.rest = name ++ (gap ++ after)) (hne : name ++ gap ≠ []) :
    ∃ ch, c.current = some ch ∧ ch ≠ ',' := by
  obtain ⟨ch, hmem, hcur⟩ : ∃ ch ∈ name ++ gap, c.current = some ch :=
    exists_current (by rw [hr, List.append_assoc]) hne
  refine ⟨ch, hcur, ?_⟩
  rintro rfl
  rcases List.mem_append.mp hmem with hmem | hmem
  · exact not_mem_of_isIdentContinue hname (by decide) hmem
  · exact not_mem_of_isWhitespace hgap (by decide) hmem

theorem head?_gap_append {gap after : List Char} (hgap : ∀ ch ∈ gap, isWhitespace ch = true)
    (hafter : gap = [] → after.head? = some ',') :
    ∀ ch, (gap ++ after).head? = some ch → isWhitespace ch = true ∨ ch = ',' := by
  intro ch hch
  cases gap with
  | nil => exact Or.inr (Option.some.inj (hch.symm.trans (hafter rfl)))
  | cons d gap => exact Or.inl (hgap ch (by simp_all))

theorem Layout.ne_nil {allowed : Char → Bool} (gap : Layout allowed 1) : gap.text ≠ [] :=
  List.ne_nil_of_length_pos gap.least_le

theorem Name.solid (name : Name) (after : List Char) : Solid (name.text ++ after) := by
  obtain ⟨ch, text, htext⟩ := List.exists_cons_of_ne_nil name.ne_nil
  have hident : isIdentContinue ch = true := name.ident ch (by simp [htext])
  rw [htext]
  refine solid_cons (isWhitespace_of_isIdentContinue hident) ?_ _
  rintro rfl
  exact absurd hident (by decide)

theorem Names.exists_head (bound : Names) :
    ∃ ch text, bound.print = ch :: text ∧ ch ∈ ['{', '*'] := by
  cases bound with
  | braces => exact ⟨'{', _, rfl, by simp⟩
  | star => exact ⟨'*', _, rfl, by simp⟩

theorem Names.solid (bound : Names) (after : List Char) : Solid (bound.print ++ after) := by
  obtain ⟨ch, text, hprint, hmem⟩ := bound.exists_head
  have hall : ∀ ch ∈ ['{', '*'], isWhitespace ch = false ∧ ch ≠ '/' :=
    forall_mem_of_all (by decide)
  rw [hprint]
  exact solid_cons (hall ch hmem).1 (hall ch hmem).2 _

namespace Bindings

variable {c d : Cursor} {after : List Char}

theorem read_congr (h : Clause.read c = Clause.read d) : read c = read d := by
  cases hd : Clause.read d with
  | last bindings e => rw [read_eq_last (h.trans hd), read_eq_last hd]
  | more e => rw [read_eq_more (h.trans hd), read_eq_more hd]

theorem read_name (hc : c.inString = false) {name : List Char}
    (hname : ∀ ch ∈ name, isIdentContinue ch = true) (gap : Break)
    (hr : c.rest = name ++ (gap.text ++ after)) (hafter : Solid after)
    (hcomma : after.head? ≠ some ',') : read c = (.complete, c.past (name ++ gap.text) after) := by
  obtain ⟨ch, hcur, hne⟩ := Cursor.exists_current_ne_comma hname gap.allowed hr
    (by simp [gap.ne_nil])
  apply read_eq_last
  rw [Clause.read_of_current_ne hcur hne, Clause.body_eq_of_name hc hr hname
    (plain_append gap.allowed hafter.plain)
    (head?_gap_append gap.allowed fun hnil => absurd hnil gap.ne_nil) (by simp [hcur]),
    Clause.afterNames_eq_last (c := c.past name (gap.text ++ after)) hc rfl gap.allowed hafter
      hcomma,
    Cursor.past_past]

theorem read_names (hc : c.inString = false) (hprev : c.prev ≠ some '$') (bound : Names)
    (hr : c.rest = bound.print ++ after) (hafter : Solid after)
    (hcomma : after.head? ≠ some ',') : read c = (.complete, c.past bound.print after) := by
  cases bound with
  | braces names gap =>
    have hr' : c.rest = ['{'] ++ (names.text ++ (['}'] ++ (gap.text ++ after))) := by
      simpa [Names.print] using hr
    have hcur : c.current = some '{' := by simp [Cursor.current, hr']
    have hlast : Clause.read c =
        .last .complete (c.past (['{'] ++ names.text ++ ['}'] ++ gap.text) after) := by
      rw [Clause.read_of_current_ne hcur (by decide), Clause.body, hcur]
      simp only
      rw [Clause.braces_eq hc hprev names hr' (plain_append gap.allowed hafter.plain),
        Clause.afterNames_eq_last (c := c.past _ (gap.text ++ after)) hc rfl gap.allowed hafter
          hcomma,
        Cursor.past_past]
    rw [read_eq_last hlast]
    simp [Names.print]
  | star beforeAs afterAs own gap =>
    have hr' : c.rest = ['*'] ++ (beforeAs.text ++ (['a', 's'] ++
        (afterAs.text ++ (own.text ++ (gap.text ++ after))))) := by
      simpa [Names.print] using hr
    have hcur : c.current = some '*' := by simp [Cursor.current, hr']
    have hown : Solid (own.text ++ (gap.text ++ after)) := own.solid _
    have hmore : Clause.read c = .more
        (c.past (['*'] ++ (beforeAs.text ++ (['a', 's'] ++ afterAs.text)))
        (own.text ++ (gap.text ++ after))) := by
      rw [Clause.read_of_current_ne hcur (by decide), Clause.body, hcur]
      simp only
      exact Clause.star_eq hc beforeAs afterAs hr' hown
    rw [read_eq_more hmore,
      read_name (c := c.past _ (own.text ++ (gap.text ++ after))) hc own.ident gap rfl hafter
        hcomma,
      Cursor.past_past_of_eq _ _ _ _ (List.append_assoc _ _ _).symm]
    simp [Names.print]

theorem read_comma (hc : c.inString = false) (gap : Gap) (bound : Names)
    (hr : c.rest = [','] ++ (gap.text ++ (bound.print ++ after))) (hafter : Solid after)
    (hcomma : after.head? ≠ some ',') :
    read c = (.complete, c.past ([','] ++ (gap.text ++ bound.print)) after) := by
  have hsolid := bound.solid after
  have hcur : c.current = some ',' := by simp [Cursor.current, hr]
  have hstart : c = c.past [] ([','] ++ (gap.text ++ (bound.print ++ after))) := by
    rw [← hr, Cursor.past_nil]
  have hskip : c.advance.skipWhitespace = c.past ([','] ++ gap.text) (bound.print ++ after) := by
    rw [hstart, Cursor.past_advance hc (plain_append gap.allowed hsolid.plain),
      Cursor.past_skipWhitespace hc gap.allowed hsolid]
    rfl
  have hprev : (c.past ([','] ++ gap.text) (bound.print ++ after)).prev ≠ some '$' := by
    refine Cursor.prev_past_of_not_mem _ _ _ (by simp) ?_
    simpa using not_mem_of_isWhitespace gap.allowed (by decide)
  have hnames := read_names (c := c.past ([','] ++ gap.text) (bound.print ++ after)) hc hprev bound
    rfl hafter hcomma
  rw [Cursor.past_past, List.append_assoc] at hnames
  obtain ⟨ch, text, hprint, hmem⟩ := bound.exists_head
  have hcur' : (c.past ([','] ++ gap.text) (bound.print ++ after)).current = some ch := by
    simp [hprint]
  have hne : ch ≠ ',' := by
    rintro rfl
    exact absurd hmem (by decide)
  -- the clause after the comma is read like one at the start of the list
  have hsame : Clause.read c = Clause.read (c.past ([','] ++ gap.text) (bound.print ++ after)) := by
    rw [Clause.read_of_current_ne hcur' hne, Clause.read, if_pos (by simp [hcur]), hskip]
  rw [read_congr hsame, hnames]

/-- A name, perhaps read in part, and more names after a comma. -/
theorem read_both (hc : c.inString = false) {name : List Char}
    (hname : ∀ ch ∈ name, isIdentContinue ch = true) (beforeComma afterComma : Gap) (bound : Names)
    (hr : c.rest = name ++ (beforeComma.text ++
      ([','] ++ (afterComma.text ++ (bound.print ++ after)))))
    (hafter : Solid after) (hcomma : after.head? ≠ some ',') :
    read c = (.complete, c.past
      (name ++ (beforeComma.text ++ ([','] ++ (afterComma.text ++ bound.print)))) after) := by
  by_cases hnil : name ++ beforeComma.text = []
  · obtain ⟨rfl, hgap⟩ := List.append_eq_nil_iff.mp hnil
    rw [hgap] at hr ⊢
    exact read_comma hc afterComma bound hr hafter hcomma
  · obtain ⟨ch, hcur, hne⟩ := Cursor.exists_current_ne_comma hname beforeComma.allowed hr hnil
    have hplain : opensComment (beforeComma.text ++
        ([','] ++ (afterComma.text ++ (bound.print ++ after)))) = false :=
      plain_append beforeComma.allowed rfl
    have hmore : Clause.read c = .more (c.past (name ++ beforeComma.text)
        ([','] ++ (afterComma.text ++ (bound.print ++ after)))) := by
      rw [Clause.read_of_current_ne hcur hne,
        Clause.body_eq_of_name hc hr hname hplain
          (head?_gap_append beforeComma.allowed fun _ => rfl) (by simp [hcur]),
        Clause.afterNames_eq_more (c := c.past name _) hc rfl beforeComma.allowed, Cursor.past_past]
    have hcommaNames := read_comma (c := c.past (name ++ beforeComma.text) _) hc afterComma bound
      rfl hafter hcomma
    rw [read_eq_more hmore, hcommaNames, Cursor.past_past_of_eq _ _ _ _ (by simp)]
    simp

end Bindings

end ModuleScan
