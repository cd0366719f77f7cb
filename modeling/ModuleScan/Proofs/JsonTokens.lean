/-
  ModuleScan/Proofs/JsonTokens.lean
  =================================
  **The tokens of a JSON text are read from their texts.**

  A string is read as the characters it denotes and as nothing else
  (`unescape_eq_some_iff`), a number as the number it names
  (`number?_eq_some_iff`).  The text of a token is read as that token if what
  stands behind it ends it (`Lexeme.tokens_spelled`), and what is read as tokens is
  made of the texts of these tokens and blanks (`tokenized_of_tokens`).
-/
import Mathlib.Data.List.Basic
import Mathlib.Data.List.TakeWhile
import Mathlib.Algebra.Field.Rat
import ModuleScan.Json.Reader
import ModuleScan.Text.Character

namespace ModuleScan

namespace Json

/-! ### Strings -/

theorem unescape_plain {c : Char} (h : isPlain c = true) (raw : List Char) :
    unescape (c :: raw) = (unescape raw).map (c :: ·) := by
  have hc : c ≠ '\\' := by
    rintro rfl
    simp [isPlain] at h
  rw [unescape.eq_4 c raw (fun _ _ _ _ _ heq => absurd heq hc) fun _ _ heq => absurd heq hc,
    if_pos h]
  cases unescape raw <;> rfl

theorem unescape_escape {x c : Char} (h : escaped? x = some c) (raw : List Char) :
    unescape ('\\' :: x :: raw) = (unescape raw).map (c :: ·) := by
  have hx : x ≠ 'u' := by
    rintro rfl
    cases h
  rw [unescape.eq_3 x raw fun _ _ _ _ _ heq => absurd heq hx, h]
  cases unescape raw <;> rfl

theorem unescape_of_quoted {raw s : List Char} (h : Quoted raw s) : unescape raw = some s := by
  induction h with
  | nil => rfl
  | plain hc _ ih => rw [unescape_plain hc, ih, Option.map_some]
  | escape hx _ ih => rw [unescape_escape hx, ih, Option.map_some]
  | unit hunit hhigh hlow _ ih =>
    rw [unescape.eq_2, hunit]
    simp [hhigh, hlow, ih]
  | pair hunit hhigh hunit' hlow _ ih =>
    rw [unescape.eq_2, hunit]
    simp [hhigh, hunit', hlow, ih]

theorem quoted_of_unescape {raw s : List Char} (h : unescape raw = some s) : Quoted raw s := by
  fun_induction unescape raw generalizing s with
  | case1 =>
    cases h
    exact .nil
  | case2 a b c d rest ihPair ihUnit =>
    obtain ⟨unit, hunit, h⟩ := Option.bind_eq_some_iff.mp h
    split at h
    next hhigh =>
      split at h
      · obtain ⟨low, hlow, h⟩ := Option.bind_eq_some_iff.mp h
        split at h
        next hisLow =>
          obtain ⟨t, ht, h⟩ := Option.bind_eq_some_iff.mp h
          cases h
          exact .pair hunit hhigh hlow hisLow (ihPair ht)
        · cases h
      · cases h
    next hhigh =>
      split at h
      · cases h
      next hlow =>
        obtain ⟨t, ht, h⟩ := Option.bind_eq_some_iff.mp h
        cases h
        exact .unit hunit (Bool.eq_false_iff.mpr hhigh) (Bool.eq_false_iff.mpr hlow) (ihUnit ht)
  | case3 x rest _ ih =>
    obtain ⟨c, hc, h⟩ := Option.bind_eq_some_iff.mp h
    obtain ⟨t, ht, h⟩ := Option.bind_eq_some_iff.mp h
    cases h
    exact .escape hc (ih ht)
  | case4 c rest _ _ hplain ih =>
    obtain ⟨t, ht, h⟩ := Option.bind_eq_some_iff.mp h
    cases h
    exact .plain hplain (ih ht)
  | case5 => cases h

theorem unescape_eq_some_iff {raw s : List Char} : unescape raw = some s ↔ Quoted raw s :=
  ⟨quoted_of_unescape, unescape_of_quoted⟩

/-! ### Numbers -/

theorem IsDigits.isEmpty_eq {s : List Char} (h : IsDigits s) : s.isEmpty = false := by
  cases s with
  | nil => exact absurd rfl h.1
  | cons c rest => rfl

/-- Digits are read up to what is no digit. -/
theorem digits?_append {digits rest : List Char} (h : IsDigits digits)
    (hrest : ∀ c ∈ rest.head?, c.isDigit = false) :
    digits? (digits ++ rest) = some (digits, rest) := by
  have hspan : rest.takeWhile Char.isDigit = [] ∧ rest.dropWhile Char.isDigit = rest := by
    cases rest with
    | nil => exact ⟨rfl, rfl⟩
    | cons c rest => simp [hrest c rfl]
  rw [digits?, List.takeWhile_append_of_pos h.2, List.dropWhile_append_of_pos h.2, hspan.1,
    hspan.2, List.append_nil, h.isEmpty_eq]
  rfl

theorem of_digits? {s digits rest : List Char} (h : digits? s = some (digits, rest)) :
    s = digits ++ rest ∧ IsDigits digits := by
  unfold digits? at h
  split at h
  · cases h
  next hempty =>
    cases h
    refine ⟨List.takeWhile_append_dropWhile.symm, ?_, fun c hc => List.mem_takeWhile_imp hc⟩
    intro hnil
    exact hempty (by rw [hnil]; rfl)

theorem whole?_append {whole rest : List Char} (h : IsWhole whole)
    (hrest : ∀ c ∈ rest.head?, c.isDigit = false) :
    whole? (whole ++ rest) = some (whole, rest) := by
  rcases h with rfl | ⟨hdigits, hhead⟩
  · rfl
  · rw [whole?.eq_2, digits?_append hdigits hrest]
    intro t ht
    cases whole with
    | nil => exact hdigits.1 rfl
    | cons c whole =>
      cases ht
      exact hhead rfl

theorem of_whole? {s whole rest : List Char} (h : whole? s = some (whole, rest)) :
    s = whole ++ rest ∧ IsWhole whole := by
  unfold whole? at h
  split at h
  · cases h
    exact ⟨rfl, Or.inl rfl⟩
  next hzero =>
    obtain ⟨rfl, hdigits⟩ := of_digits? h
    refine ⟨rfl, Or.inr ⟨hdigits, ?_⟩⟩
    intro hhead
    obtain ⟨c, whole', rfl⟩ := List.exists_cons_of_ne_nil hdigits.1
    obtain rfl := Option.some.inj hhead
    exact hzero _ rfl

theorem fraction?_append {fraction digits rest : List Char} (h : Fraction fraction digits)
    (hrest : ∀ c ∈ rest.head?, c.isDigit = false ∧ c ≠ '.') :
    fraction? (fraction ++ rest) = some (digits, rest) := by
  cases h with
  | none =>
    rw [List.nil_append, fraction?.eq_2]
    rintro t rfl
    exact (hrest '.' rfl).2 rfl
  | digits hdigits => exact digits?_append hdigits fun c hc => (hrest c hc).1

theorem of_fraction? {s digits rest : List Char} (h : fraction? s = some (digits, rest)) :
    ∃ fraction, s = fraction ++ rest ∧ Fraction fraction digits := by
  unfold fraction? at h
  split at h
  next t =>
    obtain ⟨rfl, hdigits⟩ := of_digits? h
    exact ⟨'.' :: digits, rfl, .digits hdigits⟩
  · cases h
    exact ⟨[], rfl, .none⟩

theorem sign_append {signText digits : List Char} {factor : Int} (h : Sign signText factor)
    (hdigits : IsDigits digits) : sign (signText ++ digits) = (factor, digits) := by
  cases h with
  | plus => rfl
  | minus => rfl
  | none =>
    have hhead : ∀ c t, c.isDigit = false → digits ≠ c :: t := by
      rintro c t hc rfl
      rw [hdigits.2 c List.mem_cons_self] at hc
      cases hc
    rw [List.nil_append, sign.eq_3 digits (fun t => hhead '+' t rfl) fun t => hhead '-' t rfl]

theorem of_sign {s digits : List Char} {factor : Int} (h : sign s = (factor, digits)) :
    ∃ signText, s = signText ++ digits ∧ Sign signText factor := by
  unfold sign at h
  split at h
  · cases h
    exact ⟨['+'], rfl, .plus⟩
  · cases h
    exact ⟨['-'], rfl, .minus⟩
  · cases h
    exact ⟨[], rfl, .none⟩

theorem exponent?_eq_some_iff {s : List Char} {e : Int} : exponent? s = some e ↔ Exponent s e := by
  constructor
  · intro h
    unfold exponent? at h
    split at h
    · cases h
      exact .none
    next mark rest =>
      obtain ⟨⟨factor, digits⟩, hsigned⟩ : ∃ signed, sign rest = signed := ⟨_, rfl⟩
      rw [hsigned] at h
      simp only at h
      split at h
      next hcond =>
        cases h
        obtain ⟨signText, rfl, hsign⟩ := of_sign hsigned
        simp only [Bool.and_eq_true, Bool.or_eq_true, beq_iff_eq, Bool.not_eq_true',
          List.isEmpty_eq_false_iff, List.all_eq_true] at hcond
        exact .digits hcond.1.1 hsign ⟨hcond.1.2, hcond.2⟩
      · cases h
  · intro h
    cases h with
    | none => rfl
    | digits hmark hsign hdigits =>
      rw [exponent?, sign_append hsign hdigits]
      simp [hmark, hdigits.isEmpty_eq, List.all_eq_true.mpr hdigits.2]

theorem magnitude?_eq_some_iff {s : List Char} {q : Rat} :
    magnitude? s = some q ↔ Magnitude s q := by
  constructor
  · intro h
    obtain ⟨⟨whole, s'⟩, hwhole, h⟩ := Option.bind_eq_some_iff.mp h
    obtain ⟨⟨digits, s''⟩, hfraction, h⟩ := Option.bind_eq_some_iff.mp h
    obtain ⟨e, hexponent, h⟩ := Option.bind_eq_some_iff.mp h
    cases h
    obtain ⟨rfl, hwhole'⟩ := of_whole? hwhole
    obtain ⟨fraction, rfl, hfraction'⟩ := of_fraction? hfraction
    rw [← List.append_assoc]
    exact .intro hwhole' hfraction' (exponent?_eq_some_iff.mp hexponent)
  · intro h
    cases h with
    | @intro whole fraction digits exponent e hwhole hfraction hexponent =>
      have hafter : ∀ c ∈ exponent.head?, c.isDigit = false ∧ c ≠ '.' := by
        cases hexponent with
        | none => exact nofun
        | digits hmark =>
          intro c hc
          cases hc
          rcases hmark with rfl | rfl <;> exact ⟨rfl, by decide⟩
      have hbehind : ∀ c ∈ (fraction ++ exponent).head?, c.isDigit = false := by
        cases hfraction with
        | none => exact fun c hc => (hafter c hc).1
        | digits =>
          intro c hc
          cases hc
          rfl
      rw [magnitude?, List.append_assoc, whole?_append hwhole hbehind]
      simp only [Option.bind_eq_bind, Option.bind_some]
      rw [fraction?_append hfraction hafter, Option.bind_some,
        exponent?_eq_some_iff.mpr hexponent]
      rfl

/-- A number without a sign begins with a digit. -/
theorem Magnitude.exists_cons {s : List Char} {q : Rat} (h : Magnitude s q) :
    ∃ c rest, s = c :: rest ∧ c.isDigit = true := by
  cases h with
  | @intro whole fraction digits exponent e hwhole _ _ =>
    rcases hwhole with rfl | ⟨hdigits, -⟩
    · exact ⟨'0', fraction ++ exponent, rfl, rfl⟩
    · obtain ⟨c, whole', rfl⟩ := List.exists_cons_of_ne_nil hdigits.1
      exact ⟨c, whole' ++ fraction ++ exponent, by simp, hdigits.2 c List.mem_cons_self⟩

theorem number?_eq_some_iff {s : List Char} {q : Rat} : number? s = some q ↔ Number s q := by
  constructor
  · intro h
    unfold number? at h
    split at h
    · obtain ⟨q', hq', rfl⟩ := Option.map_eq_some_iff.mp h
      exact .negative (magnitude?_eq_some_iff.mp hq')
    · exact .positive (magnitude?_eq_some_iff.mp h)
  · intro h
    cases h with
    | negative h => rw [number?, magnitude?_eq_some_iff.mpr h, Option.map_some]
    | positive h =>
      obtain ⟨c, rest, rfl, hc⟩ := h.exists_cons
      rw [number?.eq_2, magnitude?_eq_some_iff.mpr h]
      rintro t ht
      cases ht
      cases hc

/-! ### Words and numbers -/

/-- The characters of numbers. -/
def isNumeric (c : Char) : Bool := c.isDigit || ['+', '-', '.', 'e', 'E'].contains c

theorem IsDigits.isNumeric {s : List Char} (h : IsDigits s) : ∀ c ∈ s, isNumeric c = true := by
  intro c hc
  rw [Json.isNumeric, h.2 c hc]
  rfl

theorem Exponent.isNumeric {s : List Char} {e : Int} (h : Exponent s e) :
    ∀ c ∈ s, isNumeric c = true := by
  cases h with
  | none => exact nofun
  | digits hmark hsign hdigits =>
    refine List.forall_mem_cons.mpr ⟨?_, List.forall_mem_append.mpr ⟨?_, hdigits.isNumeric⟩⟩
    · rcases hmark with rfl | rfl <;> rfl
    · cases hsign <;> simp [Json.isNumeric]

theorem Magnitude.isNumeric {s : List Char} {q : Rat} (h : Magnitude s q) :
    ∀ c ∈ s, isNumeric c = true := by
  cases h with
  | intro hwhole hfraction hexponent =>
    refine List.forall_mem_append.mpr ⟨List.forall_mem_append.mpr ⟨?_, ?_⟩, hexponent.isNumeric⟩
    · rcases hwhole with rfl | ⟨hdigits, -⟩
      · exact forall_mem_of_all rfl
      · exact hdigits.isNumeric
    · cases hfraction with
      | none => exact nofun
      | digits hdigits => exact List.forall_mem_cons.mpr ⟨rfl, hdigits.isNumeric⟩

theorem Number.isNumeric {s : List Char} {q : Rat} (h : Number s q) :
    s ≠ [] ∧ ∀ c ∈ s, isNumeric c = true := by
  cases h with
  | positive h =>
    obtain ⟨c, rest, rfl, -⟩ := h.exists_cons
    exact ⟨List.cons_ne_nil c rest, h.isNumeric⟩
  | negative h => exact ⟨List.cons_ne_nil _ _, List.forall_mem_cons.mpr ⟨rfl, h.isNumeric⟩⟩

/-- The token of a word or a number, by its text. -/
inductive Scalar : List Char → Token → Prop
  | null : Scalar "null".toList .null
  | true : Scalar "true".toList (.bool .true)
  | false : Scalar "false".toList (.bool .false)
  | number {s : List Char} {q : Rat} : Number s q → Scalar s (.number q)

theorem scalar?_eq_some_iff {raw : List Char} {token : Token} :
    scalar? raw = some token ↔ Scalar raw token := by
  constructor
  · intro h
    unfold scalar? at h
    split at h
    next heq =>
      cases h
      exact heq ▸ .null
    split at h
    next heq =>
      cases h
      exact heq ▸ .true
    split at h
    next heq =>
      cases h
      exact heq ▸ .false
    obtain ⟨q, hq, rfl⟩ := Option.map_eq_some_iff.mp h
    exact .number (number?_eq_some_iff.mp hq)
  · intro h
    cases h with
    | null => rfl
    | true => rfl
    | false => rfl
    | number h =>
      have hword : ∀ c, Json.isNumeric c = .false → ∀ rest, raw ≠ c :: rest := by
        rintro c hc rest rfl
        rw [h.isNumeric.2 c List.mem_cons_self] at hc
        cases hc
      rw [scalar?, if_neg (hword 'n' rfl _), if_neg (hword 't' rfl _), if_neg (hword 'f' rfl _),
        number?_eq_some_iff.mpr h, Option.map_some]

theorem eq_of_isDelimiter {c : Char} (h : isDelimiter c = true) :
    c ∈ [' ', '\t', '\n', '\r', '[', ']', '{', '}', ':', ','] := by
  rw [isDelimiter, Bool.or_eq_true, isBlank] at h
  rcases h with h | h
  · simp only [Bool.or_eq_true, beq_iff_eq] at h
    simp only [List.mem_cons]
    tauto
  · unfold punctuation? at h
    split at h <;> simp at h ⊢

theorem Scalar.not_isDelimiter {s : List Char} {token : Token} (h : Scalar s token) :
    s ≠ [] ∧ ∀ c ∈ s, isDelimiter c = .false ∧ c ≠ '\x22' := by
  cases h with
  | null => exact ⟨by decide, forall_mem_of_all (by decide)⟩
  | true => exact ⟨by decide, forall_mem_of_all (by decide)⟩
  | false => exact ⟨by decide, forall_mem_of_all (by decide)⟩
  | number h =>
    refine ⟨h.isNumeric.1, fun c hc => ⟨?_, ?_⟩⟩
    · rw [Bool.eq_false_iff]
      intro hdelimiter
      have hnot : ∀ d ∈ [' ', '\t', '\n', '\r', '[', ']', '{', '}', ':', ','],
          Json.isNumeric d = .false := forall_mem_of_all (by decide)
      have hnumeric := h.isNumeric.2 c hc
      rw [hnot c (eq_of_isDelimiter hdelimiter)] at hnumeric
      cases hnumeric
    · rintro rfl
      cases h.isNumeric.2 _ hc

/-! ### Tokens -/

/-- The text of a token. -/
inductive Spells : List Char → Token → Prop
  | punctuation {c : Char} {token : Token} : punctuation? c = some token → Spells [c] token
  | text {raw s : List Char} : Quoted raw s →
      Spells ('\x22' :: (raw ++ ['\x22'])) (.text (String.ofList s))
  | scalar {s : List Char} {token : Token} : Scalar s token → Spells s token

/-- What may stand behind a word or a number. -/
def Delimited (s : List Char) : Prop := ∀ c ∈ s.head?, isDelimiter c = true

namespace Lexeme

theorem tokens_cons (lexeme : Lexeme) (c : Char) (rest : List Char) :
    lexeme.tokens (c :: rest) =
      (lexeme.next c).bind fun ended => (ended.2.tokens rest).map (ended.1 ++ ·) := by
  rw [tokens]
  cases lexeme.next c with
  | none => rfl
  | some ended => cases hrest : ended.2.tokens rest <;> simp [hrest]

/-- A character that ends no token. -/
theorem tokens_of_next {lexeme lexeme' : Lexeme} {c : Char} (h : lexeme.next c = some ([], lexeme'))
    (rest : List Char) : lexeme.tokens (c :: rest) = lexeme'.tokens rest := by
  rw [tokens_cons, h, Option.bind_some]
  exact Option.map_id'

/-- A character that ends a token. -/
theorem tokens_of_next_token {lexeme lexeme' : Lexeme} {c : Char} {token : Token}
    (h : lexeme.next c = some ([token], lexeme')) (rest : List Char) :
    lexeme.tokens (c :: rest) = (lexeme'.tokens rest).map (token :: ·) := by
  rw [tokens_cons, h]
  rfl

theorem tokens_blank {c : Char} (h : isBlank c = true) (rest : List Char) :
    between.tokens (c :: rest) = between.tokens rest := by
  have hquote : (c == '\x22') = false := by
    rw [beq_eq_false_iff_ne]
    rintro rfl
    cases h
  apply tokens_of_next
  rw [next, begin, hquote, h]
  rfl

theorem tokens_punctuation {c : Char} {token : Token} (h : punctuation? c = some token)
    (rest : List Char) :
    between.tokens (c :: rest) = (between.tokens rest).map (token :: ·) := by
  have hbegin : begin c = ([token], .between) := by
    unfold punctuation? at h
    split at h <;> cases h <;> rfl
  exact tokens_of_next_token (by rw [next, hbegin]) rest

/-- A character that does not end a word or a number is read as part of it. -/
theorem tokens_scalar (raw : List Char) {s : List Char} (h : ∀ c ∈ s, isDelimiter c = false)
    (rest : List Char) : (scalar raw).tokens (s ++ rest) = (scalar (raw ++ s)).tokens rest := by
  induction s generalizing raw with
  | nil => rw [List.nil_append, List.append_nil]
  | cons c s ih =>
    obtain ⟨hc, hs⟩ := List.forall_mem_cons.mp h
    have hnext : (scalar raw).next c = some ([], scalar (raw ++ [c])) := by
      rw [next, hc]
      rfl
    rw [List.cons_append, tokens_of_next hnext, ih _ hs, List.append_assoc]
    rfl

/-- A word or a number ends where something else begins, or at the end. -/
theorem tokens_scalar_end (raw : List Char) {rest : List Char} (h : Delimited rest) :
    (scalar raw).tokens rest =
      (scalar? raw).bind fun token => (between.tokens rest).map (token :: ·) := by
  cases rest with
  | nil =>
    rw [tokens, tokens, finish, finish]
    cases scalar? raw <;> rfl
  | cons c rest =>
    rw [tokens_cons, tokens_cons, next, next, if_pos (h c rfl)]
    cases scalar? raw with
    | none => rfl
    | some token => simp [Function.comp_def]

/-- A string is read up to the quotation mark that ends it. -/
theorem tokens_plain (front : List Char) {c : Char} (hquote : c ≠ '\x22') (hslash : c ≠ '\\')
    (rest : List Char) : (text front).tokens (c :: rest) = (text (front ++ [c])).tokens rest := by
  apply tokens_of_next
  rw [next, if_neg (by simpa using hquote), if_neg (by simpa using hslash)]

theorem tokens_escape (front : List Char) (c : Char) (rest : List Char) :
    (text front).tokens ('\\' :: c :: rest) = (text (front ++ ['\\', c])).tokens rest := by
  have hslash : (text front).next '\\' = some ([], escape (front ++ ['\\'])) := rfl
  have hescaped : (escape (front ++ ['\\'])).next c =
      some ([], text (front ++ ['\\'] ++ [c])) := rfl
  rw [tokens_of_next hslash, tokens_of_next hescaped, List.append_assoc]
  rfl

theorem tokens_unit (front : List Char) {a b c d : Char} {unit : Nat}
    (h : unit? a b c d = some unit) (rest : List Char) :
    (text front).tokens ('\\' :: 'u' :: a :: b :: c :: d :: rest) =
      (text (front ++ ['\\', 'u', a, b, c, d])).tokens rest := by
  have hplain : ∀ x n, hexDigit? x = some n → x ≠ '\x22' ∧ x ≠ '\\' := by
    rintro x n hx
    constructor <;> rintro rfl <;> cases hx
  obtain ⟨_, ha, h⟩ := Option.bind_eq_some_iff.mp h
  obtain ⟨_, hb, h⟩ := Option.bind_eq_some_iff.mp h
  obtain ⟨_, hc, h⟩ := Option.bind_eq_some_iff.mp h
  obtain ⟨_, hd, -⟩ := Option.bind_eq_some_iff.mp h
  rw [tokens_escape, tokens_plain _ (hplain a _ ha).1 (hplain a _ ha).2,
    tokens_plain _ (hplain b _ hb).1 (hplain b _ hb).2,
    tokens_plain _ (hplain c _ hc).1 (hplain c _ hc).2,
    tokens_plain _ (hplain d _ hd).1 (hplain d _ hd).2]
  simp

theorem tokens_quoted (front : List Char) {raw s : List Char} (h : Quoted raw s)
    (rest : List Char) : (text front).tokens (raw ++ rest) = (text (front ++ raw)).tokens rest := by
  induction h generalizing front with
  | nil => rw [List.nil_append, List.append_nil]
  | @plain c raw s hc _ ih =>
    have hne : c ≠ '\x22' ∧ c ≠ '\\' := by
      simp only [isPlain, Bool.and_eq_true, bne_iff_ne] at hc
      exact ⟨hc.1.2, hc.2⟩
    rw [List.cons_append, tokens_plain front hne.1 hne.2, ih]
    simp
  | escape _ _ ih =>
    rw [List.cons_append, List.cons_append, tokens_escape, ih]
    simp
  | unit hunit _ _ _ ih =>
    simp only [List.cons_append]
    rw [tokens_unit front hunit, ih]
    simp
  | pair hunit _ hunit' _ _ ih =>
    simp only [List.cons_append]
    rw [tokens_unit front hunit, tokens_unit _ hunit', ih]
    simp

theorem tokens_text {raw s : List Char} (h : Quoted raw s) (rest : List Char) :
    between.tokens ('\x22' :: (raw ++ '\x22' :: rest)) =
      (between.tokens rest).map (.text (String.ofList s) :: ·) := by
  have hbegin : between.next '\x22' = some ([], text []) := rfl
  have hend : (text raw).next '\x22' = some ([.text (String.ofList s)], between) := by
    rw [next, unescape_of_quoted h]
    rfl
  rw [tokens_of_next hbegin, tokens_quoted _ h, List.nil_append, tokens_of_next_token hend]

/-- The text of a token is read as that token. -/
theorem tokens_spelled {piece : List Char} {token : Token} (h : Spells piece token)
    {rest : List Char} (hrest : Delimited rest) :
    between.tokens (piece ++ rest) = (between.tokens rest).map (token :: ·) := by
  cases h with
  | punctuation h => exact tokens_punctuation h rest
  | text h => simpa using tokens_text h rest
  | scalar h =>
    obtain ⟨hne, hchars⟩ := h.not_isDelimiter
    obtain ⟨c, raw, rfl⟩ := List.exists_cons_of_ne_nil hne
    obtain ⟨⟨hc, hquote⟩, hraw⟩ := List.forall_mem_cons.mp hchars
    have hbegin : between.next c = some ([], scalar [c]) := by
      rw [isDelimiter, Bool.or_eq_false_iff] at hc
      rw [next, begin, if_neg (by simpa using hquote), hc.1,
        Option.isNone_iff_eq_none.mp (Option.isSome_eq_false_iff.mp hc.2)]
      rfl
    rw [List.cons_append, tokens_of_next hbegin, tokens_scalar _ fun d hd => (hraw d hd).1,
      tokens_scalar_end _ hrest, List.singleton_append, scalar?_eq_some_iff.mpr h,
      Option.bind_some]

/-- A word or a number that is read has an end, and behind it other tokens are read. -/
theorem of_tokens_scalar {raw s : List Char} {ts : List Token}
    (h : (scalar raw).tokens s = some ts) :
    ∃ piece rest token ts', s = piece ++ rest ∧ Scalar (raw ++ piece) token ∧
      between.tokens rest = some ts' ∧ ts = token :: ts' := by
  induction s generalizing raw with
  | nil =>
    obtain ⟨token, htoken, rfl⟩ := Option.map_eq_some_iff.mp h
    refine ⟨[], [], token, [], rfl, ?_, rfl, rfl⟩
    rwa [List.append_nil, ← scalar?_eq_some_iff]
  | cons c s ih =>
    by_cases hc : isDelimiter c = true
    · have hdelimited : Delimited (c :: s) := fun d hd => Option.some.inj hd ▸ hc
      rw [tokens_scalar_end raw hdelimited] at h
      obtain ⟨token, htoken, h⟩ := Option.bind_eq_some_iff.mp h
      obtain ⟨ts', hts', rfl⟩ := Option.map_eq_some_iff.mp h
      refine ⟨[], c :: s, token, ts', rfl, ?_, hts', rfl⟩
      rwa [List.append_nil, ← scalar?_eq_some_iff]
    · rw [Bool.not_eq_true] at hc
      have hnext := tokens_scalar raw (s := [c]) (List.forall_mem_singleton.mpr hc) s
      rw [List.singleton_append] at hnext
      rw [hnext] at h
      obtain ⟨piece, rest, token, ts', rfl, htoken, hts', rfl⟩ := ih h
      refine ⟨c :: piece, rest, token, ts', rfl, ?_, hts', rfl⟩
      rwa [List.append_assoc] at htoken

theorem of_tokens_text (s : List Char) :
    (∀ front ts, (text front).tokens s = some ts →
      ∃ raw rest t ts', s = raw ++ '\x22' :: rest ∧ Quoted (front ++ raw) t ∧
        between.tokens rest = some ts' ∧ ts = .text (String.ofList t) :: ts') ∧
    ∀ front ts, (escape front).tokens s = some ts →
      ∃ raw rest t ts', s = raw ++ '\x22' :: rest ∧ Quoted (front ++ raw) t ∧
        between.tokens rest = some ts' ∧ ts = .text (String.ofList t) :: ts' := by
  induction s with
  | nil => exact ⟨nofun, nofun⟩
  | cons c s ih =>
    have hmore : ∀ {front ts}, (text (front ++ [c])).tokens s = some ts →
        ∃ raw rest t ts', c :: s = raw ++ '\x22' :: rest ∧ Quoted (front ++ raw) t ∧
          between.tokens rest = some ts' ∧ ts = .text (String.ofList t) :: ts' := by
      intro front ts h
      obtain ⟨raw, rest, t, ts', rfl, ht, hts', rfl⟩ := ih.1 _ _ h
      refine ⟨c :: raw, rest, t, ts', rfl, ?_, hts', rfl⟩
      rwa [List.append_assoc] at ht
    constructor
    · intro front ts h
      by_cases hquote : c = '\x22'
      · subst hquote
        rw [tokens_cons, next, if_pos (by decide)] at h
        obtain ⟨_, hended, h⟩ := Option.bind_eq_some_iff.mp h
        obtain ⟨t, ht, rfl⟩ := Option.map_eq_some_iff.mp hended
        obtain ⟨ts', hts', rfl⟩ := Option.map_eq_some_iff.mp h
        refine ⟨[], s, t, ts', rfl, ?_, hts', rfl⟩
        rwa [List.append_nil, ← unescape_eq_some_iff]
      by_cases hslash : c = '\\'
      · subst hslash
        have hnext : (text front).next '\\' = some ([], escape (front ++ ['\\'])) := rfl
        rw [tokens_of_next hnext] at h
        obtain ⟨raw, rest, t, ts', rfl, ht, hts', rfl⟩ := ih.2 _ _ h
        refine ⟨'\\' :: raw, rest, t, ts', rfl, ?_, hts', rfl⟩
        rwa [List.append_assoc] at ht
      · rw [tokens_plain front hquote hslash] at h
        exact hmore h
    · intro front ts h
      have hnext : (escape front).next c = some ([], text (front ++ [c])) := rfl
      rw [tokens_of_next hnext] at h
      exact hmore h

end Lexeme

/-- A text is made of the texts of tokens, with blanks in between. -/
inductive Tokenized : List Char → List Token → Prop
  | nil : Tokenized [] []
  | blank {c : Char} {s : List Char} {ts : List Token} : isBlank c = .true → Tokenized s ts →
      Tokenized (c :: s) ts
  | token {piece s : List Char} {token : Token} {ts : List Token} : Spells piece token →
      Tokenized s ts → Tokenized (piece ++ s) (token :: ts)

theorem tokenized_of_tokens {s : List Char} {ts : List Token}
    (h : Lexeme.between.tokens s = some ts) : Tokenized s ts := by
  -- On the length, since a string, a word or a number is left behind as a whole.
  induction hlength : s.length using Nat.strong_induction_on generalizing s ts with
  | _ n ih =>
    have hrec : ∀ {s' ts'}, s'.length < s.length → Lexeme.between.tokens s' = some ts' →
        Tokenized s' ts' := fun hlt h' => ih _ (hlength ▸ hlt) h' rfl
    cases s with
    | nil =>
      cases h
      exact .nil
    | cons c s =>
      by_cases hblank : isBlank c = true
      · rw [Lexeme.tokens_blank hblank] at h
        exact .blank hblank (hrec (by simp) h)
      by_cases hquote : c = '\x22'
      · subst hquote
        have hbegin : Lexeme.between.next '\x22' = some ([], .text []) := rfl
        rw [Lexeme.tokens_of_next hbegin] at h
        obtain ⟨raw, rest, t, ts', rfl, ht, hts', rfl⟩ := (Lexeme.of_tokens_text s).1 _ _ h
        rw [List.append_cons, ← List.cons_append]
        refine .token (.text ht) (hrec ?_ hts')
        rw [List.length_cons, List.length_append, List.length_cons]
        omega
      cases hpunctuation : punctuation? c with
      | some token =>
        rw [Lexeme.tokens_punctuation hpunctuation] at h
        obtain ⟨ts', hts', rfl⟩ := Option.map_eq_some_iff.mp h
        exact .token (.punctuation hpunctuation) (hrec (by simp) hts')
      | none =>
        have hbegin : Lexeme.between.next c = some ([], .scalar [c]) := by
          rw [Lexeme.next, Lexeme.begin, if_neg (by simpa using hquote), if_neg hblank,
            hpunctuation]
        rw [Lexeme.tokens_of_next hbegin] at h
        obtain ⟨piece, rest, token, ts', rfl, htoken, hts', rfl⟩ := Lexeme.of_tokens_scalar h
        refine .token (.scalar htoken) (hrec ?_ hts')
        rw [List.length_cons, List.length_append]
        omega

end Json

end ModuleScan
