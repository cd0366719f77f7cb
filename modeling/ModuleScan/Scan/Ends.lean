/-
  ModuleScan/Scan/Ends.lean
  =========================
  **What a program over a scan comes to.**

  `m.Ends s post` says that `m`, started in `s`, meets no fault and ends with a
  result and a scan of which `post` holds.  There is one rule for each way to
  build a program, so a property of an attempt follows its text.
-/
import ModuleScan.Scan.Basic

namespace ModuleScan

/-! ### Scans on trial -/

/-- The scan in which a program runs on trial. -/
def Scan.trial (s : Scan) : Scan := { s with saved := s.cursor :: s.saved }

def Scan.commit (s : Scan) (saved : List Cursor) : Scan := { s with saved }

def Scan.rewind (s : Scan) (cursor : Cursor) (saved : List Cursor) : Scan :=
  { s with cursor, saved }

namespace ScanM

variable {α β : Type}

/-- Started in `s`, the program meets no fault, and `post` holds of its result
    and of the scan it leaves. -/
def Ends (m : ScanM α) (s : Scan) (post : α → Scan → Prop) : Prop :=
  ∃ a t, m s = .ok (a, t) ∧ post a t

theorem Ends.mono {m : ScanM α} {s : Scan} {post post' : α → Scan → Prop} (h : m.Ends s post)
    (himp : ∀ a t, post a t → post' a t) : m.Ends s post' := by
  rcases h with ⟨a, t, hm, hp⟩
  exact ⟨a, t, hm, himp a t hp⟩

theorem Ends.of_eq {m : ScanM α} {s t : Scan} {a : α} {post : α → Scan → Prop}
    (h : m.Ends s post) (hm : m s = .ok (a, t)) : post a t := by
  rcases h with ⟨a', t', hm', hp⟩
  rw [hm] at hm'
  cases hm'
  exact hp

theorem ends_of_eq {m : ScanM α} {s t : Scan} {a : α} {post : α → Scan → Prop}
    (h : m s = .ok (a, t)) : m.Ends s post ↔ post a t := by
  constructor
  · intro hends
    exact hends.of_eq h
  · intro hp
    exact ⟨a, t, h, hp⟩

theorem Ends.eq_ok {m : ScanM α} {s t : Scan} {a : α}
    (h : m.Ends s fun a' t' => a' = a ∧ t' = t) : m s = .ok (a, t) := by
  rcases h with ⟨_, _, hm, rfl, rfl⟩
  exact hm

theorem Ends.and {m : ScanM α} {s : Scan} {post post' : α → Scan → Prop} (h : m.Ends s post)
    (h' : m.Ends s post') : m.Ends s fun a t => post a t ∧ post' a t := by
  rcases h with ⟨a, t, hm, hp⟩
  exact ⟨a, t, hm, hp, h'.of_eq hm⟩

/-! ### One rule for each way to build a program -/

@[simp] theorem ends_pure {a : α} {s : Scan} {post : α → Scan → Prop} :
    (pure a : ScanM α).Ends s post ↔ post a s :=
  ends_of_eq rfl

@[simp] theorem ends_bind {m : ScanM α} {f : α → ScanM β} {s : Scan} {post : β → Scan → Prop} :
    (m >>= f).Ends s post ↔ m.Ends s fun a t => (f a).Ends t post := by
  simp only [Ends, bind, StateT.bind, Except.bind]
  cases m s with
  | error fault => simp
  | ok r =>
    rcases r with ⟨a, t⟩
    constructor
    · intro h
      exact ⟨a, t, rfl, h⟩
    · rintro ⟨_, _, h, hp⟩
      cases h
      exact hp

@[simp] theorem ends_map {m : ScanM α} {f : α → β} {s : Scan} {post : β → Scan → Prop} :
    (f <$> m).Ends s post ↔ m.Ends s fun a t => post (f a) t := by
  rw [← bind_pure_comp, ends_bind]
  simp only [ends_pure]

@[simp] theorem ends_look {s : Scan} {post : Cursor → Scan → Prop} :
    look.Ends s post ↔ post s.cursor s :=
  ends_of_eq rfl

@[simp] theorem ends_read {f : Cursor → α × Cursor} {s : Scan} {post : α → Scan → Prop} :
    (read f).Ends s post ↔ post (f s.cursor).1 { s with cursor := (f s.cursor).2 } :=
  ends_of_eq rfl

@[simp] theorem ends_move {f : Cursor → Cursor} {s : Scan} {post : Unit → Scan → Prop} :
    (move f).Ends s post ↔ post () { s with cursor := f s.cursor } := by
  simp [move]

@[simp] theorem ends_eat {word : List Char} {s : Scan} {post : Bool → Scan → Prop} :
    (eat word).Ends s post ↔
      post (s.cursor.eat word).1 { s with cursor := (s.cursor.eat word).2 } := by
  simp [eat]

@[simp] theorem ends_note {finding : Finding} {s : Scan} {post : Unit → Scan → Prop} :
    (note finding).Ends s post ↔ post () { s with findings := finding :: s.findings } :=
  ends_of_eq rfl

@[simp] theorem ends_report {kind : DiagnosticKind} {s : Scan} {post : Unit → Scan → Prop} :
    (report kind).Ends s post ↔
      post () { s with findings := .diagnostic kind s.cursor.line :: s.findings } := by
  simp [report]

@[simp] theorem ends_save {s : Scan} {post : Unit → Scan → Prop} :
    save.Ends s post ↔ post () { s with saved := s.cursor :: s.saved } :=
  ends_of_eq rfl

@[simp] theorem ends_restore {s : Scan} {post : Unit → Scan → Prop} :
    restore.Ends s post ↔
      match s.saved with
      | [] => False
      | c :: saved => post () (s.rewind c saved) := by
  cases hs : s.saved with
  | nil => simp [Ends, restore, Reader.restore, hs, bind, Except.bind]
  | cons c saved =>
    have hrestore : restore s = .ok ((), s.rewind c saved) := by
      simp only [restore, Reader.restore, hs]
      rfl
    exact ends_of_eq hrestore

@[simp] theorem ends_discard {s : Scan} {post : Unit → Scan → Prop} :
    discard.Ends s post ↔
      match s.saved with
      | [] => False
      | _ :: saved => post () (s.commit saved) := by
  cases hs : s.saved with
  | nil => simp [Ends, discard, Reader.discard, hs, bind, Except.bind]
  | cons c saved =>
    have hdiscard : discard s = .ok ((), s.commit saved) := by
      simp only [discard, Reader.discard, hs]
      rfl
    exact ends_of_eq hdiscard

theorem ends_cut {m : Mark} {s : Scan} {post : List Char → Scan → Prop}
    (hle : m.offset ≤ s.cursor.offset) (hm : isBoundary s.source m.offset = true)
    (hs : isBoundary s.source s.cursor.offset = true) :
    (cut m).Ends s post ↔ post (s.cursor.textSince m) s := by
  have hcut : cut m s = .ok (s.cursor.textSince m, s) := by
    simp [cut, Nat.not_lt.mpr hle, hm, hs]
  exact ends_of_eq hcut

/-- Reading on trial ends where the program ends if the result is kept, and at
    the saved cursor otherwise. -/
theorem ends_speculate {m : ScanM α} {keep : α → Bool} {s : Scan} {post : α → Scan → Prop} :
    (speculate m keep).Ends s post ↔
      m.Ends s.trial fun a t =>
        match t.saved with
        | [] => False
        | c :: saved => post a (if keep a then t.commit saved else t.rewind c saved) := by
  simp only [speculate, ends_bind, ends_save]
  constructor
  all_goals
    intro h
    apply h.mono
    intro a t ht
    cases hs : t.saved with
    | nil => cases hk : keep a <;> simp [hk, hs] at ht
    | cons c saved => cases hk : keep a <;> simpa [hk, hs] using ht

/-! ### Trying two attempts -/

/-- The second of two attempts is made only if the first matched nothing, and begins
    where the first did. -/
theorem ends_firstOf {first second : ScanM Outcome} {s : Scan} {post : Outcome → Scan → Prop}
    (h : first.Ends s.trial fun outcome t => t.saved = s.cursor :: s.saved ∧
      if outcome = .noMatch then second.Ends (t.rewind s.cursor s.saved) post
      else post outcome (t.commit s.saved)) : (firstOf first second).Ends s post := by
  rw [firstOf, ends_bind, ends_speculate]
  apply h.mono
  rintro outcome t ⟨hsaved, ht⟩
  rw [hsaved]
  by_cases hn : outcome = .noMatch
  · subst hn
    simpa using ht
  · simpa [hn] using ht

theorem firstOf_eq_first {first second : ScanM Outcome} {s : Scan} {outcome : Outcome} {d : Cursor}
    (h : first s.trial = .ok (outcome, { s.trial with cursor := d })) (hne : outcome ≠ .noMatch) :
    firstOf first second s = .ok (outcome, { s with cursor := d }) := by
  apply Ends.eq_ok
  apply ends_firstOf
  rw [ends_of_eq h, if_neg hne]
  exact ⟨rfl, rfl, rfl⟩

theorem firstOf_eq_second {first second : ScanM Outcome} {s t : Scan} {outcome : Outcome}
    {d : Cursor} (h : first s.trial = .ok (.noMatch, { s.trial with cursor := d }))
    (h' : second s = .ok (outcome, t)) : firstOf first second s = .ok (outcome, t) := by
  apply Ends.eq_ok
  apply ends_firstOf
  rw [ends_of_eq h, if_pos rfl]
  exact ⟨rfl, (ends_of_eq h').mpr ⟨rfl, rfl⟩⟩

end ScanM

end ModuleScan
