/-
  ModuleScan/Proofs/JsonValues.lean
  =================================
  **A value is read from a text if and only if the text denotes it.**

  The text of a value has tokens from which the value is read, whatever is open
  around it (`Denotes.exists_tokens`).  The other way round, what has been read is
  at every moment the text of the arrays and objects that are open, and of what
  stands in them (`State.Covers.next`).  So no text denotes two values
  (`Denotes.unique`).
-/
import ModuleScan.Proofs.JsonTokens

namespace ModuleScan

namespace Json

/-! ### Blanks -/

/-- What blanks in front do not change one by one, they do not change together. -/
theorem Blanks.prepend {blanks s : List Char} (h : Blanks blanks) (p : List Char → Prop)
    (hp : ∀ {c s}, isBlank c = true → p s → p (c :: s)) (hs : p s) : p (blanks ++ s) := by
  induction blanks with
  | nil => exact hs
  | cons c blanks ih =>
    obtain ⟨hc, hblanks⟩ := List.forall_mem_cons.mp h
    exact hp hc (ih hblanks)

theorem Blanks.denotes {blanks s : List Char} {v : Value} (h : Blanks blanks) (hv : Denotes s v) :
    Denotes (blanks ++ s) v :=
  h.prepend (Denotes · v) Denotes.blankBefore hv

theorem Blanks.key {blanks s : List Char} {key : String} (h : Blanks blanks) (hkey : Key s key) :
    Key (blanks ++ s) key :=
  h.prepend (Key · key) Key.blankBefore hkey

theorem Blanks.concat {s : List Char} {c : Char} (h : Blanks s) (hc : isBlank c = true) :
    Blanks (s ++ [c]) :=
  List.forall_mem_append.mpr ⟨h, List.forall_mem_singleton.mpr hc⟩

/-! ### From texts to tokens -/

/-- A text has these tokens, if what stands behind it ends the last of them. -/
def Lexed (s : List Char) (ts : List Token) : Prop :=
  ∀ rest, Delimited rest →
    Lexeme.between.tokens (s ++ rest) = (Lexeme.between.tokens rest).map (ts ++ ·)

namespace Lexed

theorem nil : Lexed [] [] := fun _ _ => Option.map_id'.symm

theorem spelled {piece : List Char} {token : Token} (h : Spells piece token) :
    Lexed piece [token] := fun _ hrest => Lexeme.tokens_spelled h hrest

theorem blankBefore {c : Char} {s : List Char} {ts : List Token} (hc : isBlank c = true)
    (h : Lexed s ts) : Lexed (c :: s) ts := by
  intro rest hrest
  rw [List.cons_append, Lexeme.tokens_blank hc, h rest hrest]

theorem blankAfter {c : Char} {s : List Char} {ts : List Token} (hc : isBlank c = true)
    (h : Lexed s ts) : Lexed (s ++ [c]) ts := by
  intro rest hrest
  have hdelimited : Delimited (c :: rest) := by
    intro d hd
    obtain rfl := Option.some.inj hd
    rw [isDelimiter, hc]
    rfl
  rw [List.append_assoc, List.singleton_append, h _ hdelimited, Lexeme.tokens_blank hc]

theorem blanks {s : List Char} (h : Blanks s) : Lexed s [] := by
  rw [← List.append_nil s]
  exact h.prepend (Lexed · []) blankBefore nil

/-- Two texts with a punctuation character in between. -/
theorem punctuation {s s' : List Char} {ts ts' : List Token} {c : Char} {token : Token}
    (h : Lexed s ts) (hc : punctuation? c = some token) (h' : Lexed s' ts') :
    Lexed (s ++ c :: s') (ts ++ token :: ts') := by
  intro rest hrest
  have hdelimited : Delimited (c :: (s' ++ rest)) := by
    intro d hd
    obtain rfl := Option.some.inj hd
    rw [isDelimiter, hc]
    exact Bool.or_true _
  rw [List.append_assoc, List.cons_append, h _ hdelimited, Lexeme.tokens_punctuation hc,
    h' rest hrest]
  simp [Function.comp_def]

/-- A text between two punctuation characters. -/
theorem enclosed {s : List Char} {ts : List Token} {c d : Char} {first last : Token}
    (hc : punctuation? c = some first) (h : Lexed s ts) (hd : punctuation? d = some last) :
    Lexed (c :: (s ++ [d])) (first :: (ts ++ [last])) :=
  nil.punctuation hc (h.punctuation hd nil)

theorem key {s : List Char} {key : String} (h : Key s key) : Lexed s [.text key] := by
  induction h with
  | quoted h => exact spelled (.text h)
  | blankBefore hc _ ih => exact ih.blankBefore hc
  | blankAfter hc _ ih => exact ih.blankAfter hc

end Lexed

/-! ### From tokens to values -/

/-- Tokens from which a value is read, whatever is open around it. -/
structure Parsed (ts : List Token) (v : Value) : Prop where
  ne_nil : ts ≠ []
  ne_endArray : ts.head? ≠ some .endArray
  run : ∀ frames rest,
    (State.atValue frames).run (ts ++ rest) = (State.behind v frames).run rest

theorem Parsed.cons {token : Token} {ts : List Token} {v : Value} (htoken : token ≠ .endArray)
    (h : ∀ frames rest, (State.atValue frames).run (token :: ts ++ rest) =
      (State.behind v frames).run rest) : Parsed (token :: ts) v where
  ne_nil := List.cons_ne_nil token ts
  ne_endArray heq := htoken (Option.some.inj heq)
  run := h

/-- Behind the beginning of an array that does not end there, an item is read. -/
theorem run_atFirstItem {ts : List Token} (hne : ts ≠ []) (hend : ts.head? ≠ some .endArray)
    (frames : List Frame) :
    (State.atFirstItem frames).run ts = (State.atValue (.items [] :: frames)).run ts := by
  obtain ⟨token, rest, rfl⟩ := List.exists_cons_of_ne_nil hne
  have hnext : (State.atFirstItem frames).next token =
      (State.atValue (.items [] :: frames)).next token := by
    cases token with
    | endArray => exact absurd rfl hend
    | _ => rfl
  rw [State.run, State.run, hnext]

/-- The items of an array, one after the other. -/
theorem exists_itemTokens {items : List Item} (hne : items ≠ [])
    (h : ∀ item ∈ items, ∃ ts, Lexed item.text ts ∧ Parsed ts item.value) :
    ∃ ts, Lexed ([','].intercalate (items.map Item.text)) ts ∧ ts ≠ [] ∧
      ts.head? ≠ some .endArray ∧ ∀ done frames rest,
        (State.atValue (.items done :: frames)).run (ts ++ .endArray :: rest) =
          (State.behind (.array (done ++ items.map Item.value)) frames).run rest := by
  induction items with
  | nil => exact absurd rfl hne
  | cons item items ih =>
    obtain ⟨⟨ts, hlexed, hparsed⟩, hitems⟩ := List.forall_mem_cons.mp h
    cases items with
    | nil =>
      refine ⟨ts, ?_, hparsed.ne_nil, hparsed.ne_endArray, fun done frames rest => ?_⟩
      · rwa [List.map_singleton, List.intercalate_singleton]
      · rw [hparsed.run]
        rfl
    | cons next items =>
      obtain ⟨ts', hlexed', -, -, hrun⟩ := ih (List.cons_ne_nil next items) hitems
      refine ⟨ts ++ .comma :: ts', ?_, List.append_ne_nil_of_left_ne_nil hparsed.ne_nil _, ?_, ?_⟩
      · rw [List.map_cons, List.map_cons, List.intercalate_cons_cons, List.append_assoc]
        exact hlexed.punctuation rfl hlexed'
      · rw [List.head?_append_of_ne_nil _ hparsed.ne_nil]
        exact hparsed.ne_endArray
      · intro done frames rest
        have hcomma : ∀ rest, (State.behind item.value (.items done :: frames)).run
            (.comma :: rest) = (State.atValue (.items (done ++ [item.value]) :: frames)).run rest :=
          fun _ => rfl
        rw [List.append_assoc, List.cons_append, hparsed.run, hcomma, hrun, List.append_assoc]
        rfl

/-- The fields of an object, one after the other. -/
theorem exists_fieldTokens {fields : List Field} (hne : fields ≠ [])
    (hkeys : ∀ field ∈ fields, Key field.keyText field.key)
    (h : ∀ field ∈ fields, ∃ ts, Lexed field.valueText ts ∧ Parsed ts field.value) :
    ∃ key ts, Lexed ([','].intercalate (fields.map Field.text)) (.text key :: ts) ∧
      ∀ done frames rest,
        (State.atKey done frames).run (.text key :: (ts ++ .endObject :: rest)) =
          (State.behind (.object (done ++ fields.map Field.entry)) frames).run rest := by
  induction fields with
  | nil => exact absurd rfl hne
  | cons field fields ih =>
    obtain ⟨hkey, hkeys⟩ := List.forall_mem_cons.mp hkeys
    obtain ⟨⟨ts, hlexed, hparsed⟩, hfields⟩ := List.forall_mem_cons.mp h
    have hfield : Lexed field.text (.text field.key :: .colon :: ts) :=
      (Lexed.key hkey).punctuation rfl hlexed
    have hstart : ∀ done frames rest, (State.atKey done frames).run
        (.text field.key :: .colon :: (ts ++ rest)) =
          (State.behind field.value (.fields done field.key :: frames)).run rest :=
      fun _ _ rest => hparsed.run _ rest
    cases fields with
    | nil =>
      refine ⟨field.key, .colon :: ts, ?_, fun done frames rest => ?_⟩
      · rwa [List.map_singleton, List.intercalate_singleton]
      · rw [List.cons_append, hstart]
        rfl
    | cons next fields =>
      obtain ⟨key, ts', hlexed', hrun⟩ := ih (List.cons_ne_nil next fields) hkeys hfields
      refine ⟨field.key, .colon :: (ts ++ .comma :: .text key :: ts'), ?_, ?_⟩
      · rw [List.map_cons, List.map_cons, List.intercalate_cons_cons, List.append_assoc]
        exact hfield.punctuation rfl hlexed'
      · intro done frames rest
        have hcomma : ∀ rest, (State.behind field.value (.fields done field.key :: frames)).run
            (.comma :: rest) = (State.atKey (done ++ [(field.key, field.value)]) frames).run rest :=
          fun _ => rfl
        rw [List.cons_append, List.append_assoc, hstart, List.cons_append, hcomma,
          List.cons_append, hrun, List.append_assoc]
        rfl

/-- The text of a value has tokens from which the value is read. -/
theorem Denotes.exists_tokens {s : List Char} {v : Value} (h : Denotes s v) :
    ∃ ts, Lexed s ts ∧ Parsed ts v := by
  induction h with
  | null => exact ⟨_, .spelled (.scalar .null), .cons nofun fun _ _ => rfl⟩
  | true => exact ⟨_, .spelled (.scalar .true), .cons nofun fun _ _ => rfl⟩
  | false => exact ⟨_, .spelled (.scalar .false), .cons nofun fun _ _ => rfl⟩
  | number h => exact ⟨_, .spelled (.scalar (.number h)), .cons nofun fun _ _ => rfl⟩
  | text h => exact ⟨_, .spelled (.text h), .cons nofun fun _ _ => rfl⟩
  | emptyArray h => exact ⟨_, .enclosed rfl (.blanks h) rfl, .cons nofun fun _ _ => rfl⟩
  | emptyObject h => exact ⟨_, .enclosed rfl (.blanks h) rfl, .cons nofun fun _ _ => rfl⟩
  | array hne _ ih =>
    obtain ⟨ts, hlexed, hnil, hend, hrun⟩ := exists_itemTokens hne ih
    refine ⟨_, .enclosed rfl hlexed rfl, .cons nofun fun frames rest => ?_⟩
    have hbegin : ∀ ts, (State.atValue frames).run (.beginArray :: ts) =
        (State.atFirstItem frames).run ts := fun _ => rfl
    have hne' : ts ++ .endArray :: rest ≠ [] := List.append_ne_nil_of_left_ne_nil hnil _
    have hend' : (ts ++ .endArray :: rest).head? ≠ some .endArray := by
      rwa [List.head?_append_of_ne_nil _ hnil]
    rw [List.cons_append, List.append_assoc, List.singleton_append, hbegin,
      run_atFirstItem hne' hend', hrun, List.nil_append]
  | object hne hkeys _ ih =>
    obtain ⟨key, ts, hlexed, hrun⟩ := exists_fieldTokens hne hkeys ih
    refine ⟨_, .enclosed rfl hlexed rfl, .cons nofun fun frames rest => ?_⟩
    have hbegin : ∀ ts, (State.atValue frames).run (.beginObject :: .text key :: ts) =
        (State.atKey [] frames).run (.text key :: ts) := fun _ => rfl
    rw [List.cons_append, List.append_assoc, List.cons_append, List.singleton_append, hbegin, hrun,
      List.nil_append]
  | blankBefore hc _ ih =>
    obtain ⟨ts, hlexed, hparsed⟩ := ih
    exact ⟨ts, hlexed.blankBefore hc, hparsed⟩
  | blankAfter hc _ ih =>
    obtain ⟨ts, hlexed, hparsed⟩ := ih
    exact ⟨ts, hlexed.blankAfter hc, hparsed⟩

theorem read_of_denotes {s : String} {v : Value} (h : Denotes s.toList v) : read s = some v := by
  obtain ⟨ts, hlexed, hparsed⟩ := h.exists_tokens
  have htokens := hlexed [] nofun
  have hrun := hparsed.run [] []
  rw [List.append_nil] at htokens hrun
  rw [read, htokens]
  simp only [Lexeme.tokens, Lexeme.finish, Option.map_some, List.append_nil, Option.bind_eq_bind,
    Option.bind_some, hrun]
  rfl

/-! ### From tokens back to texts -/

/-- Texts with a comma behind each. -/
def listed {α : Type} (text : α → List Char) (items : List α) : List Char :=
  items.flatMap fun item => text item ++ [',']

theorem listed_concat {α : Type} (text : α → List Char) (items : List α) (last : α) :
    listed text (items ++ [last]) = listed text items ++ (text last ++ [',']) := by
  rw [listed, List.flatMap_append, List.flatMap_singleton]
  rfl

theorem intercalate_concat {α : Type} (text : α → List Char) (items : List α) (last : α) :
    [','].intercalate ((items ++ [last]).map text) = listed text items ++ text last := by
  induction items with
  | nil => exact List.intercalate_singleton
  | cons item items ih =>
    rw [List.cons_append, List.map_cons, List.intercalate_cons_of_ne_nil (by simp), ih]
    simp [listed]

def Item.Valid (item : Item) : Prop := Denotes item.text item.value

structure Field.Valid (field : Field) : Prop where
  key : Key field.keyText field.key
  value : Denotes field.valueText field.value

/-- What has been read of the arrays and objects that are open, up to where a value has to
    come. -/
inductive Opened : List Frame → List Char → Prop
  | nil : Opened [] []
  | items {frames : List Frame} {s blanks : List Char} {items : List Item} : Opened frames s →
      Blanks blanks → (∀ item ∈ items, item.Valid) →
      Opened (.items (items.map Item.value) :: frames)
        (s ++ (blanks ++ '[' :: listed Item.text items))
  | fields {frames : List Frame} {s blanks keyText : List Char} {fields : List Field}
      {key : String} : Opened frames s → Blanks blanks → (∀ field ∈ fields, field.Valid) →
      Key keyText key →
      Opened (.fields (fields.map Field.entry) key :: frames)
        (s ++ (blanks ++ '{' :: (listed Field.text fields ++ (keyText ++ [':']))))

/-- What has been read when a reader is in a state. -/
inductive State.Covers : State → List Char → Prop
  | atValue {frames : List Frame} {s blanks : List Char} : Opened frames s → Blanks blanks →
      Covers (.atValue frames) (s ++ blanks)
  | atFirstItem {frames : List Frame} {s blanks inner : List Char} : Opened frames s →
      Blanks blanks → Blanks inner → Covers (.atFirstItem frames) (s ++ (blanks ++ '[' :: inner))
  | atFirstKey {frames : List Frame} {s blanks inner : List Char} : Opened frames s →
      Blanks blanks → Blanks inner → Covers (.atFirstKey frames) (s ++ (blanks ++ '{' :: inner))
  | atKey {frames : List Frame} {s blanks inner : List Char} {fields : List Field} :
      Opened frames s → Blanks blanks → (∀ field ∈ fields, field.Valid) → Blanks inner →
      Covers (.atKey (fields.map Field.entry) frames)
        (s ++ (blanks ++ '{' :: (listed Field.text fields ++ inner)))
  | atColon {frames : List Frame} {s blanks keyText : List Char} {fields : List Field}
      {key : String} : Opened frames s → Blanks blanks → (∀ field ∈ fields, field.Valid) →
      Key keyText key →
      Covers (.atColon (fields.map Field.entry) key frames)
        (s ++ (blanks ++ '{' :: (listed Field.text fields ++ keyText)))
  | behind {frames : List Frame} {s text : List Char} {v : Value} : Opened frames s →
      Denotes text v → Covers (.behind v frames) (s ++ text)

/-- The character of a punctuation token. -/
def Token.character? : Token → Option Char
  | .beginArray => some '['
  | .endArray => some ']'
  | .beginObject => some '{'
  | .endObject => some '}'
  | .colon => some ':'
  | .comma => some ','
  | _ => none

theorem character?_of_punctuation? {c : Char} {token : Token} (h : punctuation? c = some token) :
    token.character? = some c := by
  unfold punctuation? at h
  split at h <;> cases h <;> rfl

theorem Spells.eq_of_character? {piece : List Char} {token : Token} {c : Char}
    (h : Spells piece token) (hc : token.character? = some c) : piece = [c] := by
  cases h with
  | punctuation h => rw [Option.some.inj ((character?_of_punctuation? h).symm.trans hc)]
  | text => cases hc
  | scalar h => cases h <;> cases hc

theorem Spells.key {piece : List Char} {key : String} (h : Spells piece (.text key)) :
    Key piece key := by
  cases h with
  | punctuation h => cases character?_of_punctuation? h
  | text h => exact .quoted h
  | scalar h => cases h

namespace State

theorem Covers.blank {state : State} {s : List Char} {c : Char} (h : Covers state s)
    (hc : isBlank c = true) : Covers state (s ++ [c]) := by
  cases h with
  | atValue hopened hblanks =>
    rw [List.append_assoc]
    exact .atValue hopened (hblanks.concat hc)
  | atFirstItem hopened hblanks hinner =>
    simp only [List.append_assoc, List.cons_append]
    exact .atFirstItem hopened hblanks (hinner.concat hc)
  | atFirstKey hopened hblanks hinner =>
    simp only [List.append_assoc, List.cons_append]
    exact .atFirstKey hopened hblanks (hinner.concat hc)
  | atKey hopened hblanks hfields hinner =>
    simp only [List.append_assoc, List.cons_append]
    exact .atKey hopened hblanks hfields (hinner.concat hc)
  | atColon hopened hblanks hfields hkey =>
    simp only [List.append_assoc, List.cons_append]
    exact .atColon hopened hblanks hfields (.blankAfter hc hkey)
  | behind hopened hv =>
    rw [List.append_assoc]
    exact .behind hopened (.blankAfter hc hv)

theorem Covers.beginValue {frames : List Frame} {s blanks piece : List Char} {token : Token}
    {state : State} (hopened : Opened frames s) (hblanks : Blanks blanks)
    (hpiece : Spells piece token) (h : State.beginValue frames token = some state) :
    Covers state (s ++ (blanks ++ piece)) := by
  have hvalue : ∀ {v}, Denotes piece v → Covers (.behind v frames) (s ++ (blanks ++ piece)) :=
    fun hv => .behind hopened (hblanks.denotes hv)
  cases hpiece with
  | text hquoted =>
    cases h
    exact hvalue (.text hquoted)
  | scalar hscalar =>
    cases hscalar with
    | null =>
      cases h
      exact hvalue .null
    | true =>
      cases h
      exact hvalue .true
    | false =>
      cases h
      exact hvalue .false
    | number hnumber =>
      cases h
      exact hvalue (.number hnumber)
  | punctuation hc =>
    have hcharacter := character?_of_punctuation? hc
    cases token with
    | beginArray =>
      cases h
      cases hcharacter
      exact .atFirstItem hopened hblanks nofun
    | beginObject =>
      cases h
      cases hcharacter
      exact .atFirstKey hopened hblanks nofun
    | endArray | endObject | colon | comma => cases h
    | null | bool | number | text => cases hcharacter

theorem Covers.next {state state' : State} {s piece : List Char} {token : Token}
    (h : Covers state s) (hpiece : Spells piece token) (hnext : state.next token = some state') :
    Covers state' (s ++ piece) := by
  -- Each state goes on with a few tokens only, and these have one text.
  cases h with
  | atValue hopened hblanks =>
    rw [List.append_assoc]
    exact .beginValue hopened hblanks hpiece hnext
  | @atFirstItem frames s blanks inner hopened hblanks hinner =>
    by_cases hend : token = .endArray
    · subst hend
      cases hnext
      obtain rfl := hpiece.eq_of_character? rfl
      simp only [List.append_assoc, List.cons_append]
      exact .behind hopened (hblanks.denotes (.emptyArray hinner))
    · -- From here on the array counts as open, with no item read yet.
      have hbegin : State.beginValue (.items [] :: frames) token = some state' := by
        rw [← hnext, State.next]
        exact hend
      have hnone : ∀ item ∈ ([] : List Item), item.Valid := nofun
      have hitems : Opened (.items [] :: frames) (s ++ (blanks ++ '[' :: [])) :=
        .items hopened hblanks hnone
      have hcovers := Covers.beginValue hitems hinner hpiece hbegin
      simpa only [List.append_assoc, List.cons_append, List.nil_append] using hcovers
  | @atFirstKey frames s blanks inner hopened hblanks hinner =>
    cases token with
    | endObject =>
      cases hnext
      obtain rfl := hpiece.eq_of_character? rfl
      simp only [List.append_assoc, List.cons_append]
      exact .behind hopened (hblanks.denotes (.emptyObject hinner))
    | text key =>
      cases hnext
      have hnone : ∀ field ∈ ([] : List Field), field.Valid := nofun
      simp only [List.append_assoc, List.cons_append]
      exact .atColon hopened hblanks hnone (hinner.key hpiece.key)
    | _ => cases hnext
  | atKey hopened hblanks hfields hinner =>
    cases token with
    | text key =>
      cases hnext
      simp only [List.append_assoc, List.cons_append]
      exact .atColon hopened hblanks hfields (hinner.key hpiece.key)
    | _ => cases hnext
  | atColon hopened hblanks hfields hkey =>
    cases token with
    | colon =>
      cases hnext
      obtain rfl := hpiece.eq_of_character? rfl
      have hcovers := Covers.atValue (.fields hopened hblanks hfields hkey) (List.forall_mem_nil _)
      simpa only [List.append_assoc, List.cons_append, List.append_nil] using hcovers
    | _ => cases hnext
  | @behind _ _ text v hopened hv =>
    cases hopened with
    | nil => cases hnext
    | @items frames s blanks items hopened hblanks hitems =>
      have hitems' : ∀ item ∈ items ++ [⟨text, v⟩], item.Valid :=
        List.forall_mem_append.mpr ⟨hitems, List.forall_mem_singleton.mpr hv⟩
      cases token with
      | comma =>
        cases hnext
        obtain rfl := hpiece.eq_of_character? rfl
        have hcovers := Covers.atValue (.items hopened hblanks hitems') (List.forall_mem_nil _)
        simpa [listed_concat] using hcovers
      | endArray =>
        cases hnext
        obtain rfl := hpiece.eq_of_character? rfl
        have harray := Denotes.array (List.append_ne_nil_of_right_ne_nil items
          (List.cons_ne_nil (⟨text, v⟩ : Item) [])) hitems'
        rw [intercalate_concat] at harray
        have hcovers := Covers.behind hopened (hblanks.denotes harray)
        simpa using hcovers
      | _ => cases hnext
    | @fields frames s blanks keyText fields key hopened hblanks hfields hkey =>
      have hfields' : ∀ field ∈ fields ++ [⟨keyText, key, text, v⟩], field.Valid :=
        List.forall_mem_append.mpr ⟨hfields, List.forall_mem_singleton.mpr ⟨hkey, hv⟩⟩
      cases token with
      | comma =>
        cases hnext
        obtain rfl := hpiece.eq_of_character? rfl
        have hcovers := Covers.atKey hopened hblanks hfields' (List.forall_mem_nil _)
        simpa [listed_concat, Field.text, Field.entry] using hcovers
      | endObject =>
        cases hnext
        obtain rfl := hpiece.eq_of_character? rfl
        have hobject := Denotes.object (List.append_ne_nil_of_right_ne_nil fields
          (List.cons_ne_nil (⟨keyText, key, text, v⟩ : Field) []))
          (fun field hmem => (hfields' field hmem).key)
          fun field hmem => (hfields' field hmem).value
        rw [intercalate_concat] at hobject
        have hcovers := Covers.behind hopened (hblanks.denotes hobject)
        simpa [Field.text, Field.entry] using hcovers
      | _ => cases hnext

/-- What a run covers is what it has read, token by token. -/
theorem Covers.run {state state' : State} {front s : List Char} {ts : List Token}
    (h : Covers state front) (hs : Tokenized s ts) (hrun : state.run ts = some state') :
    Covers state' (front ++ s) := by
  induction hs generalizing state front with
  | nil =>
    cases hrun
    rwa [List.append_nil]
  | blank hc _ ih =>
    rw [List.append_cons]
    exact ih (h.blank hc) hrun
  | token hpiece _ ih =>
    obtain ⟨next, hnext, hrun⟩ := Option.bind_eq_some_iff.mp hrun
    rw [← List.append_assoc]
    exact ih (h.next hpiece hnext) hrun

theorem Covers.denotes {v : Value} {s : List Char} (h : Covers (.behind v []) s) :
    Denotes s v := by
  cases h with
  | behind hopened hv =>
    cases hopened
    exact hv

end State

theorem denotes_of_read {s : String} {v : Value} (h : read s = some v) : Denotes s.toList v := by
  obtain ⟨ts, hts, h⟩ := Option.bind_eq_some_iff.mp h
  obtain ⟨state, hrun, hresult⟩ := Option.bind_eq_some_iff.mp h
  have hstart : State.Covers (.atValue []) ([] ++ []) := .atValue .nil (List.forall_mem_nil _)
  have hcovers := hstart.run (tokenized_of_tokens hts) hrun
  unfold State.result? at hresult
  split at hresult
  · cases hresult
    exact hcovers.denotes
  · cases hresult

/-- The reader takes JSON texts and nothing else, and reads what they denote. -/
theorem read_eq_some_iff {s : String} {v : Value} : read s = some v ↔ Denotes s.toList v :=
  ⟨denotes_of_read, read_of_denotes⟩

example : read "[\"a\", [], {}]\n" = some (.array [.text "a", .array [], .object []]) := rfl

example : read "[\"a\",]" = none := rfl

/-- No text denotes two values. -/
theorem Denotes.unique {s : List Char} {v v' : Value} (h : Denotes s v) (h' : Denotes s v') :
    v = v' := by
  rw [← String.toList_ofList (l := s)] at h h'
  exact Option.some.inj ((read_of_denotes h).symm.trans (read_of_denotes h'))

end Json

end ModuleScan
