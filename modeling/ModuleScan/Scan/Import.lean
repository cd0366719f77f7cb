/-
  ModuleScan/Scan/Import.lean
  ===========================
  **Static imports.**

  `import 'm'`, `import x from 'm'`, `import { a, b as c } from 'm'`,
  `import * as ns from 'm'`, and combinations of these.  The bound names do not
  matter; they are skipped up to `from`.
-/
import ModuleScan.Scan.Literal
import ModuleScan.Cursor.Progress

namespace ModuleScan

/-! ### The bound names -/

inductive Bindings where
  | complete
  /-- A brace after an unescaped dollar sign opens an interpolation: this was no
      statement at all. -/
  | interpolated
  | namespaceWithoutAlias
  | unterminated
deriving DecidableEq, Repr

/-- What one pass over a clause of the list leads to. -/
inductive Clause where
  | last (bindings : Bindings) (cursor : Cursor)
  | more (cursor : Cursor)
deriving DecidableEq, Repr

namespace Clause

/-- After the names of a clause: a comma asks for another clause, and anything
    else ends the list. -/
def afterNames (c : Cursor) : Clause :=
  if c.skipWhitespace.current == some ',' then .more c.skipWhitespace
  else .last .complete c.skipWhitespace

def braces (c : Cursor) : Clause :=
  if c.prev == some '$' && !c.prevEscaped then .last .interpolated c.advance
  else
    let closing := c.skipUntil '}'
    if closing.current.isNone then .last .unterminated closing else afterNames closing.advance

/-- An asterisk asks for `as`; the name after it is a clause of its own. -/
def star (c : Cursor) : Clause :=
  let afterAs := c.advance.skipWhitespace.eat ['a', 's']
  if afterAs.1 then .more afterAs.2.skipWhitespace else .last .namespaceWithoutAlias afterAs.2

def body (c : Cursor) : Clause :=
  match c.current with
  | none => .last .unterminated c
  | some '{' => braces c
  | some '*' => star c
  | some _ => afterNames c.skipUntilWhitespaceOrComma

/-- One pass: the separating comma, if there is one, and a clause. -/
def read (c : Cursor) : Clause :=
  body (if c.current == some ',' then c.advance.skipWhitespace else c)

end Clause

/-! ### The list ends -/

namespace Clause

def cursor : Clause → Cursor
  | .last _ c => c
  | .more c => c

theorem afterNames_leads (c : Cursor) : c.Leads (afterNames c).cursor := by
  unfold afterNames
  split <;> exact c.leads_skipWhile _

theorem braces_leads (c : Cursor) : c.Leads (braces c).cursor := by
  unfold braces
  split
  · exact c.leads_advance
  · have hskip : c.Leads (c.skipUntil '}') := c.leads_skipWhile _
    simp only
    split
    · exact hskip
    · exact hskip.advance.trans (afterNames_leads _)

theorem star_leads (c : Cursor) : c.Leads (star c).cursor := by
  have heat : c.Leads (c.advance.skipWhitespace.eat ['a', 's']).2 :=
    (c.leads_advance.skipWhile _).trans (Cursor.leads_eat _ _)
  unfold star
  simp only
  split
  · exact heat.skipWhile _
  · exact heat

theorem body_leads (c : Cursor) : c.Leads (body c).cursor := by
  unfold body
  split
  · exact Cursor.Leads.refl
  · exact braces_leads c
  · exact star_leads c
  · exact (c.leads_skipWhile _).trans (afterNames_leads _)

theorem read_leads (c : Cursor) : c.Leads (read c).cursor := by
  unfold read
  split
  · exact (c.leads_advance.skipWhile _).trans (body_leads _)
  · exact body_leads c

theorem braces_lt {c d : Cursor} (h : braces c = .more d) : d.rest.length < c.rest.length := by
  unfold braces at h
  split at h
  · cases h
  · simp only at h
    split at h
    · cases h
    next hc =>
      have hsome : (c.skipUntil '}').current.isSome := by
        simpa [Option.isSome_iff_ne_none] using hc
      obtain ⟨ch, hch⟩ := Option.isSome_iff_exists.mp hsome
      have hafter := (afterNames_leads (c.skipUntil '}').advance).onward.length_le
      have hskip : (c.skipUntil '}').rest.length ≤ c.rest.length :=
        (Cursor.onward_skipWhile c _).length_le
      rw [h] at hafter
      exact Nat.lt_of_le_of_lt hafter (Nat.lt_of_lt_of_le (Cursor.advance_lt hch) hskip)

theorem star_lt {c d : Cursor} (hc : c.current = some '*') (h : star c = .more d) :
    d.rest.length < c.rest.length := by
  unfold star at h
  simp only at h
  split at h
  · cases h
    have heat : c.advance.Leads (c.advance.skipWhitespace.eat ['a', 's']).2 :=
      (Cursor.leads_skipWhile _ _).trans (Cursor.leads_eat _ _)
    exact Nat.lt_of_le_of_lt (heat.skipWhile _).onward.length_le (Cursor.advance_lt hc)
  · cases h

/-- The names of a clause never stand still: a name, a blank before the comma
    or the comma itself is passed. -/
theorem afterNames_skip_lt {c d : Cursor} {ch : Char} (hc : c.current = some ch) (hch : ch ≠ ',')
    (h : afterNames c.skipUntilWhitespaceOrComma = .more d) : d.rest.length < c.rest.length := by
  by_cases hw : isWhitespace ch
  · have hstop : c.skipUntilWhitespaceOrComma = c := by
      obtain ⟨rest, hr⟩ := Cursor.current_eq_some hc
      simp only [Cursor.skipUntilWhitespaceOrComma, Cursor.skipWhile, hr, sweep,
        Cursor.hide?_zone, hw]
      simp [Cursor.moveTo, ← hr]
    rw [hstop] at h
    unfold afterNames at h
    split at h
    · cases h
      exact Cursor.skipWhile_lt hc _ hw
    · cases h
  · have hafter := (afterNames_leads c.skipUntilWhitespaceOrComma).onward.length_le
    rw [h] at hafter
    exact Nat.lt_of_le_of_lt hafter <|
      Cursor.skipWhile_lt hc _ (by simp [hw, hch])

theorem body_lt {c d : Cursor} (hc : c.current ≠ some ',') (h : body c = .more d) :
    d.rest.length < c.rest.length := by
  unfold body at h
  split at h
  · cases h
  · exact braces_lt h
  next hs => exact star_lt hs h
  next ch _ _ hs =>
    have hcomma : ch ≠ ',' := by
      rintro rfl
      exact hc hs
    exact afterNames_skip_lt hs hcomma h

theorem read_lt {c d : Cursor} (h : read c = .more d) : d.rest.length < c.rest.length := by
  unfold read at h
  split at h
  next hc =>
    have hbody := (body_leads c.advance.skipWhitespace).onward.length_le
    have hskip : c.advance.skipWhitespace.rest.length ≤ c.advance.rest.length :=
      (Cursor.onward_skipWhile _ _).length_le
    have hcomma : c.current = some ',' := by simpa using hc
    have hadvance := Cursor.advance_lt hcomma
    rw [h] at hbody
    exact Nat.lt_of_le_of_lt (Nat.le_trans hbody hskip) hadvance
  next hc => exact body_lt (by simpa using hc) h

end Clause

/-- Skips the list of bound names: how it ended, and where. -/
def Bindings.read (c : Cursor) : Bindings × Cursor :=
  match _h : Clause.read c with
  | .last bindings d => (bindings, d)
  | .more d => Bindings.read d
termination_by c.rest.length
decreasing_by exact Clause.read_lt _h

theorem Bindings.read_eq_last {c d : Cursor} {bindings : Bindings}
    (h : Clause.read c = .last bindings d) : Bindings.read c = (bindings, d) := by
  rw [Bindings.read]
  split <;> simp_all

theorem Bindings.read_eq_more {c d : Cursor} (h : Clause.read c = .more d) :
    Bindings.read c = Bindings.read d := by
  rw [Bindings.read]
  split <;> simp_all

theorem Bindings.read_leads (c : Cursor) : c.Leads (Bindings.read c).2 := by
  fun_induction Bindings.read c with
  | case1 c bindings d h =>
    have hs := Clause.read_leads c
    rwa [h] at hs
  | case2 c d h ih =>
    have hs := Clause.read_leads c
    rw [h] at hs
    exact hs.trans ih

/-! ### The statement -/

/-- Whether a word that was just read is complete, and not the head of a longer
    name or of a property access. -/
def Cursor.atWordEnd (c : Cursor) : Bool :=
  !c.current.any fun ch => isIdentContinue ch || ch == '.'

namespace ScanM

/-- Skips the bound names of an import and reports malformed ones; says whether
    `from` may follow.  Names that run to the end of the text are read as if
    they had ended after their first character. -/
def importBindings : ScanM Bool := do
  match ← speculate (read Bindings.read) (· != .unterminated) with
  | .complete => return true
  | .interpolated => return false
  | .namespaceWithoutAlias =>
    report .namespaceWithoutAlias
    return false
  | .unterminated =>
    report .unterminatedImport
    move Cursor.advance
    return false

/-- The word `type`, alone or going on with `o` or `of`, makes an import one of
    types if a blank or a line terminator follows. -/
def importsTypes : ScanM Bool := do
  let isType ← eat ['t', 'y', 'p', 'e']
  if isType then
    let _ ← eat ['o', 'f']
    let c ← look
    return c.current.any isWhitespace
  else return false

def importClause : ScanM Outcome := do
  let typesOnly ← importsTypes
  if typesOnly then return .typeOnly
  else
    let bound ← importBindings
    if bound then
      let hasFrom ← eat ['f', 'r', 'o', 'm']
      if hasFrom then
        move Cursor.skipWhitespace
        specifier .importing
      else
        report .missingFrom
        return .rejected
    else return .rejected

/-- A static import, which only the start of a statement can hold. -/
def staticImport : ScanM Outcome := do
  let c ← look
  if c.statementStart then
    let matched ← eat ['i', 'm', 'p', 'o', 'r', 't']
    let after ← look
    if matched && after.atWordEnd then
      move Cursor.skipWhitespace
      let quoted ← onQuote
      if quoted then specifier .importing else importClause
    else return .noMatch
  else
    move Cursor.advance
    return .noMatch

end ScanM

end ModuleScan
