/-
  ModuleScan/Proofs/ReexportGrammar.lean
  ======================================
  **The re-exports that name a module, as a grammar over the visible text.**

  Between `export` and `from` stand names in braces, or an asterisk that `as` and a name
  may follow (`ReexportNames`).  Of the two optional words, `type` and `as`, the letters
  that do match are passed even if the word is not there, so a beginning of either may
  stand where the word may: a re-export is read from these texts and from no others
  (`exportFrom_exact`).  Where no such letters are left over this is the documented shape;
  `export t{a} from 'm'` is read as well (`exportFrom_keeps_letters`).
-/
import ModuleScan.Proofs.LiteralExact
import ModuleScan.Proofs.Outcomes
import ModuleScan.Proofs.Walking

namespace ModuleScan

/-! ### The grammar -/

/-- A name with whitespace behind it, and perhaps before it. -/
def IsSpacedName (text : List Char) : Prop :=
  ∃ before name gap, text = before ++ name ++ gap ∧ IsGap before ∧ name ≠ [] ∧
    (∀ ch ∈ name, isWhitespace ch = false) ∧ gap ≠ [] ∧ IsGap gap

/-- What may stand between the whitespace behind `export` and `from`, with `strayAs` left
    over from the word `as`.  Each run of whitespace is as long as it can be, because what
    follows is none, and so is the name behind `as`, because whitespace follows it. -/
inductive ReexportNames (strayAs : List Char) : List Char → Prop
  | braces {names gap : List Char} :
      '}' ∉ names → IsGap gap → ReexportNames strayAs ('{' :: (names ++ '}' :: gap))
  | all {gap : List Char} :
      IsGap gap → ReexportNames strayAs ('*' :: (gap ++ strayAs))
  | named {gap name : List Char} :
      IsGap gap → IsSpacedName name → ReexportNames strayAs ('*' :: (gap ++ ['a', 's'] ++ name))

/-- The letters that are left over from the optional words of a re-export. -/
structure StrayLetters where
  ofType : List Char
  ofAs : List Char
  begins_type : ofType <+: ['t', 'y', 'p', 'e']
  begins_as : ofAs <+: ['a']

def StrayLetters.none : StrayLetters := ⟨[], [], List.nil_prefix, List.nil_prefix⟩

namespace Cursor

/-- A literal opens at the cursor and closes again, with `m` between the quotes. -/
def HoldsLiteral (c : Cursor) (m : String) : Prop :=
  ∃ quote text j, c.OpensLiteral quote text ∧ FirstStop quote text j ∧ text[j]? = some quote ∧
    m = String.ofList (text.take j)

/-- The text goes on with `from` and the literal `m`. -/
def FromClause (c : Cursor) (m : String) : Prop :=
  ∃ gap q, c.Walks (['f', 'r', 'o', 'm'] ++ gap) q ∧ IsGap gap ∧ q.HoldsLiteral m

/-- A re-export of the module `m`, with some letters left over. -/
def Reexports (c : Cursor) (stray : StrayLetters) (m : String) : Prop :=
  ∃ gap names q, c.Walks (['e', 'x', 'p', 'o', 'r', 't'] ++ gap ++ stray.ofType ++ names) q ∧
    IsGap gap ∧ (stray.ofType ≠ [] → gap ≠ []) ∧ ReexportNames stray.ofAs names ∧ q.FromClause m

variable {c : Cursor} {m : String}

theorem HoldsLiteral.any_isWhitespace (h : c.HoldsLiteral m) :
    c.current.any isWhitespace = false := by
  obtain ⟨quote, text, j, hopens, -⟩ := h
  rw [current, hopens.rest, List.head?_cons, Option.any_some, isWhitespace_of_isQuote hopens.quoted]

theorem FromClause.current_eq (h : c.FromClause m) : c.current = some 'f' := by
  obtain ⟨gap, q, hwalks, -⟩ := h
  exact hwalks.current_eq

theorem FromClause.any_isWhitespace (h : c.FromClause m) :
    c.current.any isWhitespace = false := by
  rw [h.current_eq]
  rfl

end Cursor

/-! ### Names with whitespace around them -/

namespace Cursor

variable {c d : Cursor} {text : List Char}

theorem leads_skipName (c : Cursor) :
    c.Leads c.skipWhitespace.skipUntilWhitespace.skipWhitespace :=
  ((c.leads_skipWhile _).skipWhile _).skipWhile _

theorem exists_walks_spacedName {ch : Char}
    (hcur : c.skipWhitespace.skipUntilWhitespace.skipWhitespace.current = some ch)
    (hch : isWhitespace ch = false) :
    ∃ text, c.Walks text c.skipWhitespace.skipUntilWhitespace.skipWhitespace ∧
      IsSpacedName text := by
  obtain ⟨before, hbefore, hwhite, hvisible⟩ := exists_walks_skipWhitespace c
  obtain ⟨name, hname, hblack, hend⟩ :=
    exists_walks_skipWhile (fun ch => !isWhitespace ch) c.skipWhitespace
  obtain ⟨gap, hgap, hwhite', -⟩ := exists_walks_skipWhitespace c.skipWhitespace.skipUntilWhitespace
  have hgapne : gap ≠ [] := by
    rintro rfl
    have hend' : c.skipWhitespace.skipUntilWhitespace.current.any (fun ch => !isWhitespace ch) =
        false := hend
    rw [hgap.unique .stay] at hcur
    rw [hcur, Option.any_some, hch] at hend'
    cases hend'
  have hnamene : name ≠ [] := by
    rintro rfl
    obtain ⟨g, gap, rfl⟩ := List.exists_cons_of_ne_nil hgapne
    have hstays : c.skipWhitespace.skipUntilWhitespace = c.skipWhitespace := hname.unique .stay
    rw [← hstays, hgap.current_eq, Option.any_some, hwhite' g (List.mem_cons_self ..)] at hvisible
    cases hvisible
  exact ⟨_, (hbefore.trans hname).trans hgap, before, name, gap, rfl, hwhite, hnamene,
    by simpa using hblack, hgapne, hwhite'⟩

theorem Walks.skipName_eq (h : c.Walks text d) (ht : IsSpacedName text)
    (hd : d.current.any isWhitespace = false) :
    c.skipWhitespace.skipUntilWhitespace.skipWhitespace = d := by
  obtain ⟨before, name, gap, rfl, hbefore, hnamene, hname, hgapne, hgap⟩ := ht
  obtain ⟨e, hfront, hlast⟩ := h.exists_split
  obtain ⟨b, hfirst, hmid⟩ := hfront.exists_split
  obtain ⟨n, name, rfl⟩ := List.exists_cons_of_ne_nil hnamene
  obtain ⟨g, gap, rfl⟩ := List.exists_cons_of_ne_nil hgapne
  have hb : c.skipWhitespace = b := by
    apply hfirst.skipWhitespace_eq hbefore
    rw [hmid.current_eq, Option.any_some, hname n (List.mem_cons_self ..)]
  have he : b.skipUntilWhitespace = e := by
    apply hmid.skipWhile_eq fun ch => !isWhitespace ch
    · simpa using hname
    · rw [hlast.current_eq, Option.any_some, hgap g (List.mem_cons_self ..)]
      rfl
  rw [hb, he, hlast.skipWhitespace_eq hgap hd]

end Cursor

/-! ### The literal -/

namespace ScanM

variable {s : Scan} {m : String}

/-- The attempt ends, and gives the module `m`. -/
def Refers (attempt : ScanM Outcome) (s : Scan) (m : String) : Prop :=
  attempt.Ends s fun outcome _ => outcome = .reference m

/-- A literal is accepted, or reported. -/
theorem literal_cases (hs : s.Sited) (hquote : s.cursor.current.any isQuote = true) :
    (∃ m d, s.cursor.HoldsLiteral m ∧ literal s = .ok (some m, { s with cursor := d })) ∨
      ∃ t, literal s = .ok (none, t) := by
  obtain ⟨quote, text, hopens⟩ := Cursor.exists_opensLiteral hquote
  rcases exists_firstStop_or quote text with ⟨j, hj⟩ | hnone
  · rcases hj.1 with hch | hch | ⟨hch, -⟩
    · exact Or.inr ⟨_, literal_of_computed hs hopens.rest hopens.quoted hj (Or.inl hch)⟩
    · exact Or.inr ⟨_, literal_of_computed hs hopens.rest hopens.quoted hj (Or.inr hch)⟩
    · exact Or.inl ⟨_, _, ⟨quote, text, j, hopens, hj, hch, rfl⟩,
        literal_of_closes hs hopens.rest hopens.quoted hj hch⟩
  · exact Or.inr ⟨_, literal_of_endless hs hopens.rest hopens.quoted hnone⟩

theorem refers_specifier_iff {statement : Statement} (hs : s.Sited) :
    (specifier statement).Refers s m ↔ s.cursor.HoldsLiteral m := by
  constructor
  · intro h
    simp only [Refers, specifier, ends_bind, ends_onQuote] at h
    split at h
    next hquote =>
      rw [ends_bind] at h
      rcases literal_cases hs hquote with ⟨m', d, hholds, hliteral⟩ | ⟨t, hliteral⟩
      · rw [ends_of_eq hliteral] at h
        obtain rfl : m' = m := by simpa using h
        exact hholds
      · rw [ends_of_eq hliteral] at h
        simp at h
    · simp at h
  · rintro ⟨quote, text, j, hopens, hj, hch, rfl⟩
    have hliteral := literal_of_closes hs hopens.rest hopens.quoted hj hch
    simp [Refers, specifier, hopens.any_isQuote, ends_of_eq hliteral]

/-! ### The clauses -/

section

variable {names gap : List Char} {q : Cursor} {post : Outcome → Scan → Prop}

theorem ends_exportSource_of_walks (hwalks : s.cursor.Walks (['f', 'r', 'o', 'm'] ++ gap) q)
    (hgap : IsGap gap) (hvisible : q.current.any isWhitespace = false) :
    exportSource.Ends s post ↔ (specifier .exporting).Ends { s with cursor := q } post := by
  obtain ⟨d, hfrom, hrest⟩ := hwalks.exists_split
  rw [exportSource, ends_bind, ends_eat, Cursor.eat_eq_true_iff.mpr hfrom, if_pos rfl, ends_bind,
    ends_move, hrest.skipWhitespace_eq hgap hvisible]

theorem ends_exportBraces_of_walks (hwalks : s.cursor.Walks ('{' :: (names ++ '}' :: gap)) q)
    (hnone : '}' ∉ names) (hgap : IsGap gap) (hvisible : q.current.any isWhitespace = false) :
    exportBraces.Ends s post ↔ exportSource.Ends { s with cursor := q } post := by
  rw [← List.cons_append] at hwalks
  obtain ⟨e, hnames, hrest⟩ := hwalks.exists_split
  have hskip : s.cursor.skipUntil '}' = e :=
    hnames.skipUntil_eq (by simpa using hnone) hrest.current_eq
  simp only [exportBraces, ends_bind, ends_speculate, ends_read, Scan.trial, id_eq, ends_move,
    hskip, hrest.current_eq, Option.isSome_some, if_true, Scan.commit,
    hrest.of_cons.skipWhitespace_eq hgap hvisible]

theorem ends_exportStar_of_named {name : List Char}
    (hwalks : s.cursor.Walks ('*' :: (gap ++ ['a', 's'] ++ name)) q) (hgap : IsGap gap)
    (hname : IsSpacedName name) (hvisible : q.current.any isWhitespace = false) :
    exportStar.Ends s post ↔ exportSource.Ends { s with cursor := q } post := by
  obtain ⟨e, hfront, hrest⟩ := hwalks.of_cons.exists_split
  obtain ⟨d, hd, has⟩ := hfront.exists_split
  have hskip : s.cursor.advance.skipWhitespace = d :=
    hd.skipWhitespace_eq hgap (by rw [has.current_eq]; rfl)
  simp only [exportStar, ends_bind, ends_move, ends_eat, hskip, Cursor.eat_eq_true_iff.mpr has,
    if_true, hrest.skipName_eq hname hvisible]

/-- The letters of `type` are passed, and the first character behind them says what the
    clause is. -/
theorem ends_exportClause_of_current {e : Cursor} {ofType : List Char} {ch : Char}
    {clause : ScanM Outcome} (hbegins : ofType <+: ['t', 'y', 'p', 'e'])
    (htype : s.cursor.Walks ofType e) (hcur : e.current = some ch)
    (hclause : ch = '{' ∧ clause = exportBraces ∨ ch = '*' ∧ clause = exportStar) :
    exportClause.Ends s post ↔ clause.Ends { s with cursor := e } post := by
  have hletters : ∀ d ∈ ['t', 'y', 'p', 'e'], e.current ≠ some d := by
    rw [hcur]
    rcases hclause with ⟨rfl, -⟩ | ⟨rfl, -⟩ <;> simp
  have heat : (s.cursor.eat ['t', 'y', 'p', 'e']).2 = e := htype.eat_snd hbegins hletters
  simp only [exportClause, ends_bind, ends_eat, ends_look, heat, hcur]
  rcases hclause with ⟨rfl, rfl⟩ | ⟨rfl, rfl⟩
  · rw [if_neg (by simp [isWhitespace, isNewline, isBlank])]
    exact Iff.rfl
  · rw [if_neg (by simp [isWhitespace, isNewline, isBlank])]
    exact Iff.rfl

end

theorem refers_exportSource_iff (hs : s.Sited) :
    exportSource.Refers s m ↔ s.cursor.FromClause m := by
  constructor
  · intro h
    simp only [Refers, exportSource, ends_bind, ends_eat] at h
    split at h
    next hfrom =>
      obtain ⟨gap, hgap, hwhite, -⟩ :=
        Cursor.exists_walks_skipWhitespace (s.cursor.eat ['f', 'r', 'o', 'm']).2
      have hboth := (Cursor.walks_of_eat hfrom).trans hgap
      rw [ends_bind, ends_move] at h
      exact ⟨gap, _, hboth, hwhite, (refers_specifier_iff (hs.of_leads hboth.leads)).mp h⟩
    · simp at h
  · rintro ⟨gap, q, hwalks, hgap, hholds⟩
    have hspecifier : (specifier .exporting).Refers { s with cursor := q } m :=
      (refers_specifier_iff (hs.of_leads hwalks.leads)).mpr hholds
    exact (ends_exportSource_of_walks hwalks hgap hholds.any_isWhitespace).mpr hspecifier

/-- Braces that close are passed, and the whitespace behind them. -/
theorem refers_exportBraces_iff_closed : exportBraces.Refers s m ↔
    (s.cursor.skipUntil '}').current.isSome = true ∧
      exportSource.Refers
        { s with cursor := (s.cursor.skipUntil '}').advance.skipWhitespace } m := by
  simp only [Refers, exportBraces, ends_bind, ends_speculate, ends_read, Scan.trial, id_eq,
    ends_move]
  cases hclosed : (s.cursor.skipUntil '}').current.isSome with
  | true => simp [Scan.commit]
  | false => simp

theorem refers_exportBraces_iff (hs : s.Sited) (hcur : s.cursor.current = some '{') :
    exportBraces.Refers s m ↔ ∃ names gap q, s.cursor.Walks ('{' :: (names ++ '}' :: gap)) q ∧
      '}' ∉ names ∧ IsGap gap ∧ q.FromClause m := by
  constructor
  · intro h
    obtain ⟨hclosed, hsource⟩ := refers_exportBraces_iff_closed.mp h
    obtain ⟨names, hnames, hnone⟩ := Cursor.exists_walks_skipUntil hcur (show '{' ≠ '}' by decide)
    obtain ⟨ch, hch⟩ := Option.isSome_iff_exists.mp hclosed
    obtain rfl := Cursor.skipUntil_current hch
    obtain ⟨gap, hgap, hwhite, -⟩ :=
      Cursor.exists_walks_skipWhitespace (s.cursor.skipUntil '}').advance
    have hwalks := hnames.trans (.step hch hgap)
    rw [refers_exportSource_iff (hs.of_leads hwalks.leads)] at hsource
    exact ⟨names, gap, _, hwalks, hnone, hwhite, hsource⟩
  · rintro ⟨names, gap, q, hwalks, hnone, hgap, hfrom⟩
    have hsource : exportSource.Refers { s with cursor := q } m :=
      (refers_exportSource_iff (hs.of_leads hwalks.leads)).mpr hfrom
    exact (ends_exportBraces_of_walks hwalks hnone hgap hfrom.any_isWhitespace).mpr hsource

theorem exists_reexportNames_of_exportStar (hs : s.Sited) (hcur : s.cursor.current = some '*')
    (h : exportStar.Refers s m) : ∃ strayAs names q, strayAs <+: ['a'] ∧ s.cursor.Walks names q ∧
      ReexportNames strayAs names ∧ q.FromClause m := by
  obtain ⟨gap, hgap, hwhite, -⟩ := Cursor.exists_walks_skipWhitespace s.cursor.advance
  simp only [Refers, exportStar, ends_bind, ends_move, ends_eat] at h
  split at h
  next hnamed =>
    simp only [ends_bind, ends_move] at h
    have hstar := Cursor.Walks.step hcur (hgap.trans (Cursor.walks_of_eat hnamed))
    have hleads := hstar.leads.trans (Cursor.leads_skipName _)
    have hfrom := (refers_exportSource_iff (hs.of_leads hleads)).mp h
    obtain ⟨name, hname, hspaced⟩ := Cursor.exists_walks_spacedName hfrom.current_eq rfl
    exact ⟨[], _, _, List.nil_prefix, hstar.trans hname, .named hwhite hspaced, hfrom⟩
  next hnamed =>
    rw [Bool.not_eq_true] at hnamed
    obtain ⟨strayAs, ch, back, hword, hstray, -⟩ := Cursor.exists_walks_of_eat hnamed
    have hwalks := Cursor.Walks.step hcur (hgap.trans hstray)
    refine ⟨strayAs, _, _, ?_, hwalks, .all hwhite, ?_⟩
    · have hdrop : ['a'] = (strayAs ++ ch :: back).dropLast := by rw [← hword]; rfl
      rw [hdrop, List.dropLast_append_cons]
      exact List.prefix_append _ _
    · exact (refers_exportSource_iff (hs.of_leads hwalks.leads)).mp h

theorem refers_exportStar_of_all {strayAs gap : List Char} {q : Cursor} (hs : s.Sited)
    (hstray : strayAs <+: ['a']) (hwalks : s.cursor.Walks ('*' :: (gap ++ strayAs)) q)
    (hgap : IsGap gap) (hfrom : q.FromClause m) : exportStar.Refers s m := by
  have hletters : ∀ ch ∈ strayAs, isWhitespace ch = false := by
    intro ch hch
    obtain rfl := List.mem_singleton.mp (hstray.subset hch)
    rfl
  obtain ⟨d, hd, hrest⟩ := hwalks.of_cons.exists_split
  have hvisible := hrest.any_current_eq_false hletters hfrom.any_isWhitespace
  have hskip := hd.skipWhitespace_eq hgap hvisible
  have heat : d.eat ['a', 's'] = (false, q) := by
    apply hrest.eat_eq_false_of_begins (hstray.trans (by simp))
    · rintro rfl
      exact absurd hstray (by decide)
    · rw [hfrom.current_eq]
      simp
  have hsource : exportSource.Refers { s with cursor := q } m :=
    (refers_exportSource_iff (hs.of_leads hwalks.leads)).mpr hfrom
  simp only [Refers, exportStar, ends_bind, ends_move, ends_eat, hskip, heat]
  exact hsource

theorem refers_exportStar_of_named {gap name : List Char} {q : Cursor} (hs : s.Sited)
    (hwalks : s.cursor.Walks ('*' :: (gap ++ ['a', 's'] ++ name)) q)
    (hgap : IsGap gap) (hname : IsSpacedName name) (hfrom : q.FromClause m) :
    exportStar.Refers s m := by
  have hsource : exportSource.Refers { s with cursor := q } m :=
    (refers_exportSource_iff (hs.of_leads hwalks.leads)).mpr hfrom
  exact (ends_exportStar_of_named hwalks hgap hname hfrom.any_isWhitespace).mpr hsource

/-! ### The statement -/

theorem exists_reexportNames_of_exportClause (hs : s.Sited) (h : exportClause.Refers s m) :
    ∃ (stray : StrayLetters) (names : List Char) (q : Cursor),
      s.cursor.Walks (stray.ofType ++ names) q ∧ ReexportNames stray.ofAs names ∧
        q.FromClause m := by
  obtain ⟨ofType, hbegins, htype⟩ := s.cursor.exists_walks_eat ['t', 'y', 'p', 'e']
  have hsited := hs.of_leads htype.leads
  simp only [Refers, exportClause, ends_bind, ends_eat, ends_look] at h
  split at h
  · simp at h
  · split at h
    next hcur =>
      obtain ⟨names, gap, q, hwalks, hnone, hgap, hfrom⟩ :=
        (refers_exportBraces_iff hsited hcur).mp h
      have hnames : ReexportNames [] ('{' :: (names ++ '}' :: gap)) := .braces hnone hgap
      exact ⟨⟨ofType, [], hbegins, List.nil_prefix⟩, _, q, htype.trans hwalks, hnames, hfrom⟩
    next hcur =>
      obtain ⟨ofAs, names, q, hbegins', hwalks, hnames, hfrom⟩ :=
        exists_reexportNames_of_exportStar hsited hcur h
      exact ⟨⟨ofType, ofAs, hbegins, hbegins'⟩, names, q, htype.trans hwalks, hnames, hfrom⟩
    · simp at h

theorem refers_exportClause_of_reexportNames {stray : StrayLetters} {names : List Char} {q : Cursor}
    (hs : s.Sited) (hwalks : s.cursor.Walks (stray.ofType ++ names) q)
    (hnames : ReexportNames stray.ofAs names) (hfrom : q.FromClause m) :
    exportClause.Refers s m := by
  obtain ⟨e, htype, hrest⟩ := hwalks.exists_split
  have hsited := hs.of_leads htype.leads
  cases hnames with
  | @braces names gap hnone hgap =>
    apply (ends_exportClause_of_current stray.begins_type htype hrest.current_eq
      (Or.inl ⟨rfl, rfl⟩)).mpr
    exact (refers_exportBraces_iff hsited hrest.current_eq).mpr ⟨names, gap, q, hrest, hnone, hgap,
      hfrom⟩
  | all hgap =>
    apply (ends_exportClause_of_current stray.begins_type htype hrest.current_eq
      (Or.inr ⟨rfl, rfl⟩)).mpr
    exact refers_exportStar_of_all hsited stray.begins_as hrest hgap hfrom
  | named hgap hname =>
    apply (ends_exportClause_of_current stray.begins_type htype hrest.current_eq
      (Or.inr ⟨rfl, rfl⟩)).mpr
    exact refers_exportStar_of_named hsited hrest hgap hname hfrom

/-- A clause begins with a letter of `type`, or else with the names. -/
theorem exists_cons_of_reexportNames {stray : StrayLetters} {names : List Char}
    (h : ReexportNames stray.ofAs names) : ∃ ch rest, stray.ofType ++ names = ch :: rest ∧
      (stray.ofType ≠ [] ∧ ch ∈ ['t', 'y', 'p', 'e'] ∨ stray.ofType = [] ∧ ch ∈ ['{', '*']) := by
  cases htype : stray.ofType with
  | nil =>
    cases h with
    | braces _ _ => exact ⟨'{', _, rfl, Or.inr ⟨rfl, by simp⟩⟩
    | all _ => exact ⟨'*', _, rfl, Or.inr ⟨rfl, by simp⟩⟩
    | named _ _ => exact ⟨'*', _, rfl, Or.inr ⟨rfl, by simp⟩⟩
  | cons ch ofType =>
    have hmem : ch ∈ ['t', 'y', 'p', 'e'] := stray.begins_type.subset (by rw [htype]; simp)
    exact ⟨ch, ofType ++ names, rfl, Or.inl ⟨by simp, hmem⟩⟩

theorem any_isWhitespace_of_reexportNames {f q : Cursor} {stray : StrayLetters}
    {names : List Char} (hwalks : f.Walks (stray.ofType ++ names) q)
    (h : ReexportNames stray.ofAs names) : f.current.any isWhitespace = false := by
  obtain ⟨ch, rest, hcons, hch⟩ := exists_cons_of_reexportNames h
  have hall : ∀ ch ∈ ['t', 'y', 'p', 'e', '{', '*'], isWhitespace ch = false :=
    forall_mem_of_all (by decide)
  rw [hcons] at hwalks
  rw [hwalks.current_eq, Option.any_some]
  apply hall
  rcases hch with ⟨-, hch⟩ | ⟨-, hch⟩
  · exact List.mem_append_left ['{', '*'] hch
  · exact List.mem_append_right ['t', 'y', 'p', 'e'] hch

/-- Behind `export` a letter of `type` would go on with the word, and nothing else that
    may follow does. -/
theorem atWordEnd_iff_of_walks {e f q : Cursor} {gap names : List Char} {stray : StrayLetters}
    (hskip : e.Walks gap f) (hgap : IsGap gap) (hclause : f.Walks (stray.ofType ++ names) q)
    (hnames : ReexportNames stray.ofAs names) :
    e.atWordEnd = true ↔ (stray.ofType ≠ [] → gap ≠ []) := by
  have hletters : ∀ ch ∈ ['t', 'y', 'p', 'e'], (isIdentContinue ch || ch == '.') = true :=
    forall_mem_of_all (by decide +kernel)
  have hothers : ∀ ch ∈ ['{', '*', '\r', '\n', '\u2028', '\u2029', ' ', '\t'],
      (isIdentContinue ch || ch == '.') = false := forall_mem_of_all (by decide +kernel)
  obtain ⟨ch, rest, hcons, hch⟩ := exists_cons_of_reexportNames hnames
  rw [hcons] at hclause
  cases gap with
  | nil =>
    obtain rfl := hskip.unique .stay
    rw [Cursor.atWordEnd, hclause.current_eq, Option.any_some]
    rcases hch with ⟨htype, hch⟩ | ⟨htype, hch⟩
    · simp [htype, hletters ch hch]
    · rw [hothers ch (List.mem_append_left _ hch), htype]
      simp
  | cons g gap =>
    have hwhite := mem_of_isWhitespace (hgap g (List.mem_cons_self ..))
    rw [Cursor.atWordEnd, hskip.current_eq, Option.any_some,
      hothers g (List.mem_append_right ['{', '*'] hwhite)]
    simp

theorem exists_reexports_of_exportFrom (hs : s.Sited) (hstart : s.cursor.statementStart = true)
    (h : exportFrom.Refers s m) : ∃ stray, s.cursor.Reexports stray m := by
  simp only [Refers, exportFrom, ends_bind, ends_look, hstart, if_true, ends_eat] at h
  split at h
  next hexport =>
    obtain ⟨heat, hend⟩ := Bool.and_eq_true_iff.mp hexport
    have hword := Cursor.walks_of_eat heat
    obtain ⟨gap, hgap, hwhite, -⟩ := Cursor.exists_walks_skipWhitespace
      (s.cursor.eat ['e', 'x', 'p', 'o', 'r', 't']).2
    rw [ends_bind, ends_move] at h
    obtain ⟨stray, names, q, hwalks, hnames, hfrom⟩ :=
      exists_reexportNames_of_exportClause (hs.of_leads (hword.trans hgap).leads) h
    refine ⟨stray, gap, names, q, ?_, hwhite, ?_, hnames, hfrom⟩
    · rw [List.append_assoc]
      exact (hword.trans hgap).trans hwalks
    · exact (atWordEnd_iff_of_walks hgap hwhite hwalks hnames).mp hend
  · simp at h

theorem refers_exportFrom_of_reexports {stray : StrayLetters} (hs : s.Sited)
    (hstart : s.cursor.statementStart = true) (h : s.cursor.Reexports stray m) :
    exportFrom.Refers s m := by
  obtain ⟨gap, names, q, hwalks, hgap, hstray, hnames, hfrom⟩ := h
  rw [List.append_assoc] at hwalks
  obtain ⟨f, hfront, hrest⟩ := hwalks.exists_split
  obtain ⟨e, hword, hskip⟩ := hfront.exists_split
  have hend := (atWordEnd_iff_of_walks hskip hgap hrest hnames).mpr hstray
  have hvisible := any_isWhitespace_of_reexportNames hrest hnames
  have hclause : exportClause.Refers { s with cursor := f } m :=
    refers_exportClause_of_reexportNames (hs.of_leads hfront.leads) hrest hnames hfrom
  simp only [Refers, exportFrom, ends_bind, ends_look, hstart, if_true, ends_eat,
    Cursor.eat_eq_true_iff.mpr hword, hend, Bool.and_self, ends_move,
    hskip.skipWhitespace_eq hgap hvisible]
  exact hclause

/-- **A re-export accepts exactly its grammar.**  At the start of a statement the attempt
    ends, it names a module if and only if the visible text is a re-export of it, with
    letters of the optional words left over or not, and then it reports nothing. -/
theorem exportFrom_exact (hs : s.Sited) (hc : s.cursor.inString = false)
    (hstart : s.cursor.statementStart = true) :
    exportFrom.Ends s fun outcome t =>
      (∀ m, outcome = .reference m ↔ ∃ stray, s.cursor.Reexports stray m) ∧
      ∀ m, outcome = .reference m → t.findings = s.findings := by
  obtain ⟨outcome, t, hrun, haccounts⟩ := exportFrom_accounts hs hc
  refine ⟨outcome, t, hrun, ?_, ?_⟩
  · intro m
    have hrefers : exportFrom.Refers s m ↔ outcome = .reference m := ends_of_eq hrun
    rw [← hrefers]
    constructor
    · exact exists_reexports_of_exportFrom hs hstart
    · rintro ⟨stray, h⟩
      exact refers_exportFrom_of_reexports hs hstart h
  · rintro m rfl
    exact haccounts.1

/-- A name for all that the module exports. -/
theorem exportFrom_exact_named :
    ∃ stray, (Cursor.ofSource "export * as n from 'm'".toList).Reexports stray "m" := by
  have hsited := Scan.sited_ofSource "export * as n from 'm'".toList
  obtain ⟨outcome, t, hrun, hrefers, -⟩ := exportFrom_exact hsited rfl rfl
  have hname : (exportFrom (Scan.ofSource "export * as n from 'm'".toList)).map Prod.fst =
      .ok (.reference "m") := rfl
  rw [hrun] at hname
  exact (hrefers "m").mp (Except.ok.inj hname)

/-- Letters of `type` before the names: the statement has none of the documented shapes, and
    gives its module. -/
theorem exportFrom_keeps_letters :
    let c := Cursor.ofSource "export t{a} from 'm'".toList
    c.inString = false ∧ c.statementStart = true ∧ (∀ m, ¬ c.Reexports .none m) ∧
      (exportFrom (Scan.ofSource "export t{a} from 'm'".toList)).map Prod.fst =
        .ok (.reference "m") ∧
      extract "export t{a} from 'm'" "x.js" = ⟨["m"], []⟩ := by
  refine ⟨rfl, rfl, ?_, rfl, by decide +kernel⟩
  rintro m ⟨gap, names, q, hwalks, hgap, -, hnames, -⟩
  have hshape : ReexportNames StrayLetters.none.ofAs names := hnames
  obtain ⟨ch, rest, hcons, hch⟩ := exists_cons_of_reexportNames hshape
  have hnames : ch ∈ ['{', '*'] := by
    rcases hch with ⟨hne, -⟩ | ⟨-, hch⟩
    · exact absurd rfl hne
    · exact hch
  rw [List.append_assoc, hcons] at hwalks
  have hahead := hwalks.ahead_eq rfl
  have htext : (Cursor.ofSource "export t{a} from 'm'".toList).ahead =
    "export t{a} from 'm'".toList := rfl
  rw [htext] at hahead
  -- the names would begin with the blank or with the letter behind it
  rcases gap with _ | ⟨g, _ | ⟨g', gap⟩⟩
  · have hch : some ' ' = some ch := congrArg (·[6]?) hahead
    obtain rfl := Option.some.inj hch
    exact absurd hnames (by decide)
  · have hch : some 't' = some ch := congrArg (·[7]?) hahead
    obtain rfl := Option.some.inj hch
    exact absurd hnames (by decide)
  · have hletter : some 't' = some g' := congrArg (·[7]?) hahead
    obtain rfl := Option.some.inj hletter
    exact absurd (hgap 't' (by simp)) (by decide)

end ScanM

end ModuleScan
