/-
  ModuleScan/Cursor/Progress.lean
  ===============================
  **A cursor only moves forward.**

  Every movement is made of two: passing the current character, and skipping.
  `c.Leads d` says that such movements lead from `c` to `d`; what holds of the two
  then holds of matching a word and of every clause and list of names.  A movement
  passes some text and counts its bytes (`Cursor.Onward`); one that passes the current
  character leaves strictly less to read.  These are the facts by which the loops of
  a scan end.
-/
import ModuleScan.Cursor.Basic

namespace ModuleScan

/-! ### UTF-8 lengths and boundaries -/

@[simp] theorem utf8Length_nil : utf8Length [] = 0 := rfl

@[simp] theorem utf8Length_cons (c : Char) (text : List Char) :
    utf8Length (c :: text) = c.utf8Size + utf8Length text := rfl

@[simp] theorem utf8Length_append (text after : List Char) :
    utf8Length (text ++ after) = utf8Length text + utf8Length after := by
  induction text with
  | nil => simp
  | cons c text ih =>
    rw [List.cons_append, utf8Length_cons, utf8Length_cons, ih, Nat.add_assoc]

theorem isBoundary_iff {s : List Char} {offset : Nat} :
    isBoundary s offset = true ↔
      ∃ before after, s = before ++ after ∧ utf8Length before = offset := by
  induction s generalizing offset with
  | nil =>
    simp only [isBoundary, beq_iff_eq]
    constructor
    · intro h
      exact ⟨[], [], rfl, h.symm⟩
    · rintro ⟨before, after, hs, rfl⟩
      rw [(List.append_eq_nil_iff.mp hs.symm).1, utf8Length_nil]
  | cons c rest ih =>
    simp only [isBoundary, Bool.or_eq_true, beq_iff_eq, Bool.and_eq_true, decide_eq_true_eq, ih]
    constructor
    · rintro (rfl | ⟨hle, before, after, hs, hlen⟩)
      · exact ⟨[], c :: rest, rfl, rfl⟩
      · refine ⟨c :: before, after, by rw [hs, List.cons_append], ?_⟩
        rw [utf8Length_cons]
        omega
    · rintro ⟨before, after, hs, rfl⟩
      cases before with
      | nil => exact Or.inl rfl
      | cons d before =>
        obtain ⟨rfl, hrest⟩ := List.cons.inj hs
        refine Or.inr ⟨?_, before, after, hrest, ?_⟩ <;> rw [utf8Length_cons] <;> omega

/-! ### Sweeps -/

/-- Hiding a character passes it, only sets the statement-start mark, and leads into
    no literal. -/
theorem Zone.hide?_eq_some {z z' : Zone} {p p' : Place} {c : Char} {next : Option Char}
    (h : z.hide? p c next = some (z', p')) :
    z' ≠ .literal ∧ ∃ mark, p' = { p.pass c next with statementStart := mark } := by
  unfold hide? at h
  split at h
  · cases h
  · cases h
  · split at h
    · split at h
      · cases h
        exact ⟨by simp, _, rfl⟩
      · split at h
        · cases h
          exact ⟨by simp, _, rfl⟩
        · cases h
    · cases h
  all_goals
    cases h
    refine ⟨?_, _, rfl⟩
    first
    | split <;> simp
    | simp

theorem Zone.ne_visible_of_hide? {z z' : Zone} {p p' : Place} {c : Char} {next : Option Char}
    (h : z.hide? p c next = some (z', p')) : z' ≠ .visible := by
  rintro rfl
  unfold hide? at h
  grind

/-- What passing a character keeps, however the statement-start mark is set, a sweep
    keeps. -/
theorem sweep_keeps {I : Place → List Char → Prop}
    (hmark : ∀ {p s} (mark : Bool), I p s → I { p with statementStart := mark } s)
    (hpass : ∀ {p c rest}, I p (c :: rest) → I (p.pass c rest.head?) rest)
    (keep : Place → Char → Bool) (z : Zone) {p : Place} {s : List Char} (h : I p s) :
    I (sweep keep z p s).1 (sweep keep z p s).2 := by
  induction s generalizing z p with
  | nil =>
    rw [sweep]
    cases z with
    | blockOpening mark => exact hmark mark h
    | blockComment mark => exact hmark mark h
    | blockClosing mark => exact hmark mark h
    | visible => exact h
    | code => exact h
    | literal => exact h
    | lineComment => exact h
  | cons c rest ih =>
    rw [sweep]
    split
    next z' p' hz =>
      obtain ⟨-, mark, rfl⟩ := Zone.hide?_eq_some hz
      exact ih z' (hmark mark (hpass h))
    · split
      · exact ih _ (hpass h)
      · exact h

/-- A sweep passes a beginning of its text. -/
theorem sweep_onward (keep : Place → Char → Bool) (z : Zone) (p : Place) (s : List Char) :
    ∃ text, s = text ++ (sweep keep z p s).2 ∧
      (sweep keep z p s).1.offset = p.offset + utf8Length text := by
  apply sweep_keeps (I := fun q after =>
    ∃ text, s = text ++ after ∧ q.offset = p.offset + utf8Length text)
  · intro q after mark h
    exact h
  · rintro q c rest ⟨text, hs, hoff⟩
    refine ⟨text ++ [c], by rw [hs, List.append_assoc, List.singleton_append], ?_⟩
    change q.offset + c.utf8Size = _
    rw [hoff, utf8Length_append, utf8Length_cons, utf8Length_nil, Nat.add_zero, Nat.add_assoc]
  · exact ⟨[], rfl, rfl⟩

theorem sweep_cons_of_keep {keep : Place → Char → Bool} {z : Zone} {p : Place} {c : Char}
    {rest : List Char} (hz : z.hide? p c rest.head? = none) (hk : keep p c = true) :
    sweep keep z p (c :: rest) = sweep keep z.afterVisible (p.pass c rest.head?) rest := by
  simp [sweep, hz, hk]

/-- A sweep that does not come to the end stops on a character that is not kept. -/
theorem sweep_stops (keep : Place → Char → Bool) (z : Zone) (p : Place) (s : List Char) {ch : Char}
    (h : (sweep keep z p s).2.head? = some ch) : keep (sweep keep z p s).1 ch = false := by
  induction s generalizing z p with
  | nil => cases h
  | cons c rest ih =>
    rw [sweep] at h ⊢
    split at h
    next z' p' hz => exact ih z' p' h
    next hz =>
      split at h
      next hk =>
        rw [if_pos hk]
        exact ih _ _ h
      next hk =>
        rw [if_neg hk]
        obtain rfl : c = ch := Option.some.inj h
        simpa using hk

theorem Zone.afterVisible_of_ne_literal {z : Zone} (h : z ≠ .literal) : z.afterVisible = .code := by
  cases z <;> simp_all [afterVisible]

/-- A sweep first comes to a visible character, and goes on from there. -/
theorem sweep_sweep (keep : Place → Char → Bool) {z : Zone} (hz : z ≠ .literal) (p : Place)
    (s : List Char) :
    sweep keep .visible (sweep (fun _ _ => false) z p s).1 (sweep (fun _ _ => false) z p s).2 =
      sweep keep z p s := by
  induction s generalizing z p with
  | nil => rfl
  | cons c rest ih =>
    cases hhide : z.hide? p c rest.head? with
    | some next =>
      simp only [sweep, hhide]
      exact ih (Zone.hide?_eq_some hhide).1 next.2
    | none =>
      simp only [sweep, hhide, Bool.false_eq_true, if_false, Zone.afterVisible_of_ne_literal hz]
      rfl

theorem sweep_literal_stays (p : Place) (s : List Char) :
    sweep (fun _ _ => false) .literal p s = (p, s) := by
  cases s <;> rfl

namespace Cursor

/-- The current character of a cursor is never hidden. -/
theorem hide?_zone (c : Cursor) (p : Place) (ch : Char) (next : Option Char) :
    c.zone.hide? p ch next = none := by
  unfold zone
  split <;> rfl

/-! ### What every movement does -/

@[simp] theorem moveTo_rest (c : Cursor) (target : Place × List Char) :
    (c.moveTo target).rest = target.2 := rfl

@[simp] theorem moveTo_toPlace (c : Cursor) (target : Place × List Char) :
    (c.moveTo target).toPlace = target.1 := rfl

@[simp] theorem moveTo_inString (c : Cursor) (target : Place × List Char) :
    (c.moveTo target).inString = c.inString := rfl

@[simp] theorem setInString_rest (c : Cursor) (b : Bool) : (c.setInString b).rest = c.rest := rfl

@[simp] theorem setInString_inString (c : Cursor) (b : Bool) : (c.setInString b).inString = b := rfl

@[simp] theorem skipWhile_inString (c : Cursor) (keep : Place → Char → Bool) :
    (c.skipWhile keep).inString = c.inString := rfl

@[simp] theorem advance_inString (c : Cursor) : c.advance.inString = c.inString := by
  unfold advance
  split <;> rfl

theorem current_eq_some {c : Cursor} {ch : Char} (h : c.current = some ch) :
    ∃ rest, c.rest = ch :: rest := List.head?_eq_some_iff.mp h

theorem current_eq_none {c : Cursor} : c.current = none ↔ c.rest = [] := List.head?_eq_none_iff

/-- The cursor `d` stands after some text that `c` has left to read. -/
def Onward (c d : Cursor) : Prop :=
  ∃ text, c.rest = text ++ d.rest ∧ d.offset = c.offset + utf8Length text

theorem Onward.refl (c : Cursor) : c.Onward c := ⟨[], rfl, rfl⟩

theorem Onward.trans {c d e : Cursor} (h : c.Onward d) (h' : d.Onward e) : c.Onward e := by
  rcases h with ⟨text, hrest, hoff⟩
  rcases h' with ⟨text', hrest', hoff'⟩
  refine ⟨text ++ text', by rw [hrest, hrest', List.append_assoc], ?_⟩
  rw [hoff', hoff, utf8Length_append, Nat.add_assoc]

theorem Onward.suffix {c d : Cursor} (h : c.Onward d) : d.rest <:+ c.rest := by
  rcases h with ⟨text, hrest, -⟩
  exact ⟨text, hrest.symm⟩

theorem Onward.length_le {c d : Cursor} (h : c.Onward d) : d.rest.length ≤ c.rest.length :=
  h.suffix.length_le

theorem Onward.offset_le {c d : Cursor} (h : c.Onward d) : c.offset ≤ d.offset := by
  rcases h with ⟨text, -, hoff⟩
  omega

theorem onward_setInString (c : Cursor) (b : Bool) : c.Onward (c.setInString b) :=
  ⟨[], rfl, rfl⟩

theorem onward_skipWhile (c : Cursor) (keep : Place → Char → Bool) :
    c.Onward (c.skipWhile keep) :=
  sweep_onward keep c.zone c.toPlace c.rest

theorem skipWhile_current {c : Cursor} {keep : Place → Char → Bool} {ch : Char}
    (h : (c.skipWhile keep).current = some ch) : keep (c.skipWhile keep).toPlace ch = false :=
  sweep_stops keep c.zone c.toPlace c.rest h

theorem skipUntil_current {c : Cursor} {target ch : Char}
    (h : (c.skipUntil target).current = some ch) : ch = target := by
  have hstop := skipWhile_current h
  simpa using hstop

/-- Skipping is advancing as long as the current character is to be skipped. -/
theorem skipWhile_eq_advance {c : Cursor} {keep : Place → Char → Bool} {ch : Char}
    (h : c.current = some ch) (hk : keep c.toPlace ch = true) :
    c.skipWhile keep = c.advance.skipWhile keep := by
  obtain ⟨rest, hr⟩ := current_eq_some h
  cases hc : c.inString with
  | false =>
    have hsweep := sweep_sweep keep (z := .code) (by simp) (c.toPlace.pass ch rest.head?) rest
    simp only [skipWhile, advance, moveTo, zone, hr, hc, Bool.false_eq_true, if_false,
      Zone.afterVisible, hsweep]
    rw [sweep_cons_of_keep rfl hk]
    rfl
  | true =>
    simp only [skipWhile, advance, moveTo, zone, hr, hc, if_true, Zone.afterVisible,
      sweep_literal_stays]
    rw [sweep_cons_of_keep rfl hk]
    rfl

theorem skipWhile_eq_self {c : Cursor} {keep : Place → Char → Bool}
    (h : ∀ ch, c.current = some ch → keep c.toPlace ch = false) : c.skipWhile keep = c := by
  unfold skipWhile
  cases hr : c.rest with
  | nil =>
    have hend : c.zone.atEnd c.toPlace = c.toPlace := by
      unfold zone
      split <;> rfl
    rw [sweep, hend, moveTo, ← hr]
  | cons ch rest =>
    have hk : keep c.toPlace ch = false := h ch (by rw [current, hr, List.head?_cons])
    simp only [sweep, hide?_zone, hk, Bool.false_eq_true, if_false]
    rw [moveTo, ← hr]

theorem skipWhile_eq_self_of_any {c : Cursor} {keep : Char → Bool}
    (h : c.current.any keep = false) : (c.skipWhile fun _ ch => keep ch) = c := by
  apply skipWhile_eq_self
  intro ch hcur
  rwa [hcur] at h

theorem advance_eq_of_current {c : Cursor} {ch : Char} (h : c.current = some ch) :
    ∃ text, c.rest = ch :: (text ++ c.advance.rest) ∧
      c.advance.offset = c.offset + ch.utf8Size + utf8Length text := by
  obtain ⟨rest, hr⟩ := current_eq_some h
  obtain ⟨text, htext, hoff⟩ := sweep_onward (fun _ _ => false) c.zone.afterVisible
    (c.toPlace.pass ch rest.head?) rest
  simp only [advance, hr, moveTo_rest, moveTo_toPlace]
  exact ⟨text, by rw [← htext], hoff⟩

theorem onward_advance (c : Cursor) : c.Onward c.advance := by
  cases h : c.current with
  | none =>
    have hr : c.rest = [] := current_eq_none.mp h
    refine ⟨[], ?_, ?_⟩ <;> simp [advance, hr, Place.passEnd]
  | some ch =>
    obtain ⟨text, hrest, hoff⟩ := advance_eq_of_current h
    exact ⟨ch :: text, hrest, by rw [hoff, utf8Length_cons, Nat.add_assoc]⟩

/-! ### Movements -/

/-- Advancing and skipping lead from `c` to `d`. -/
inductive Leads (c : Cursor) : Cursor → Prop
  | refl : Leads c c
  | advance {d : Cursor} : Leads c d → Leads c d.advance
  | skipWhile {d : Cursor} (keep : Place → Char → Bool) : Leads c d → Leads c (d.skipWhile keep)

theorem Leads.trans {c d e : Cursor} (h : c.Leads d) (h' : d.Leads e) : c.Leads e := by
  induction h' with
  | refl => exact h
  | advance _ ih => exact ih.advance
  | skipWhile keep _ ih => exact ih.skipWhile keep

theorem leads_advance (c : Cursor) : c.Leads c.advance := Leads.refl.advance

theorem leads_skipWhile (c : Cursor) (keep : Place → Char → Bool) : c.Leads (c.skipWhile keep) :=
  Leads.refl.skipWhile keep

theorem eat_of_current {c : Cursor} {ch : Char} (h : c.current = some ch) (word : List Char) :
    c.eat (ch :: word) = c.advance.eat word := by
  rw [eat, h, beq_self_eq_true, if_pos rfl]

theorem eat_of_current_ne {c : Cursor} {ch : Char} (h : c.current ≠ some ch) (word : List Char) :
    c.eat (ch :: word) = (false, c) := by
  rw [eat, if_neg (by simpa using h)]

theorem leads_eat (c : Cursor) (word : List Char) : c.Leads (c.eat word).2 := by
  induction word generalizing c with
  | nil => exact Leads.refl
  | cons ch word ih =>
    rw [eat]
    split
    · exact c.leads_advance.trans (ih c.advance)
    · exact Leads.refl

theorem Leads.inString {c d : Cursor} (h : c.Leads d) : d.inString = c.inString := by
  induction h with
  | refl => rfl
  | advance _ ih => rw [advance_inString, ih]
  | skipWhile keep _ ih => rw [skipWhile_inString, ih]

theorem Leads.onward {c d : Cursor} (h : c.Leads d) : c.Onward d := by
  induction h with
  | refl => exact Onward.refl c
  | advance _ ih => exact ih.trans (onward_advance _)
  | skipWhile keep _ ih => exact ih.trans (onward_skipWhile _ keep)

/-! ### Strict progress -/

theorem advance_lt {c : Cursor} {ch : Char} (h : c.current = some ch) :
    c.advance.rest.length < c.rest.length := by
  obtain ⟨text, hrest, -⟩ := advance_eq_of_current h
  rw [hrest, List.length_cons, List.length_append]
  omega

theorem skipWhile_lt {c : Cursor} {ch : Char} (h : c.current = some ch)
    (keep : Place → Char → Bool) (hk : keep c.toPlace ch = true) :
    (c.skipWhile keep).rest.length < c.rest.length := by
  obtain ⟨rest, hr⟩ := current_eq_some h
  obtain ⟨text, htext, -⟩ := sweep_onward keep c.zone.afterVisible
    (c.toPlace.pass ch rest.head?) rest
  have hle : (c.skipWhile keep).rest.length ≤ rest.length := by
    simp only [skipWhile, moveTo_rest, hr]
    rw [sweep_cons_of_keep (hide?_zone _ _ _ _) hk]
    exact List.IsSuffix.length_le ⟨text, htext.symm⟩
  rw [hr, List.length_cons]
  omega

/-- What advancing keeps, skipping keeps. -/
theorem skipWhile_induction {I : Cursor → Prop} (hadvance : ∀ c, I c → I c.advance)
    (keep : Place → Char → Bool) (c : Cursor) (h : I c) : I (c.skipWhile keep) := by
  by_cases hk : ∃ ch, c.current = some ch ∧ keep c.toPlace ch = true
  · obtain ⟨ch, hcur, hch⟩ := hk
    have hless : c.advance.rest.length < c.rest.length := advance_lt hcur
    rw [skipWhile_eq_advance hcur hch]
    exact skipWhile_induction hadvance keep c.advance (hadvance c h)
  · rw [skipWhile_eq_self]
    · exact h
    · intro ch hcur
      rw [← Bool.not_eq_true]
      intro hch
      exact hk ⟨ch, hcur, hch⟩
termination_by c.rest.length

/-- Eating a word whose first character is the current one leaves strictly less
    to read, whether the rest of the word matches or not. -/
theorem eat_lt {c : Cursor} {ch : Char} (h : c.current = some ch) (word : List Char) :
    (c.eat (ch :: word)).2.rest.length < c.rest.length := by
  rw [eat_of_current h]
  exact Nat.lt_of_le_of_lt (leads_eat _ _).onward.length_le (advance_lt h)

end Cursor

end ModuleScan
