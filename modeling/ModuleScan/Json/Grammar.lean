/-
  ModuleScan/Json/Grammar.lean
  ============================
  **What a JSON text is, and which value it denotes.**

  The grammar is that of the JSON standard.  Every place at which a value may stand
  allows blanks before and after it, so blanks are part of the text of a value here.
  Numbers denote exactly the rational number that they name, fields keep their
  order, and an escaped surrogate has to be one half of a pair.
-/
namespace ModuleScan

namespace Json

inductive Value where
  | null
  | bool (value : Bool)
  | number (value : Rat)
  | text (value : String)
  | array (items : List Value)
  | object (fields : List (String × Value))
deriving Inhabited

/-! ### Strings -/

def hexDigit? (c : Char) : Option Nat :=
  if c.isDigit then some (c.toNat - '0'.toNat)
  else if 'a' ≤ c ∧ c ≤ 'f' then some (c.toNat - 'a'.toNat + 10)
  else if 'A' ≤ c ∧ c ≤ 'F' then some (c.toNat - 'A'.toNat + 10)
  else none

/-- The UTF-16 unit that four hexadecimal digits stand for. -/
def unit? (a b c d : Char) : Option Nat := do
  return 4096 * (← hexDigit? a) + 256 * (← hexDigit? b) + 16 * (← hexDigit? c) + (← hexDigit? d)

def isHighSurrogate (unit : Nat) : Bool := 0xd800 ≤ unit && unit < 0xdc00

def isLowSurrogate (unit : Nat) : Bool := 0xdc00 ≤ unit && unit < 0xe000

def ofSurrogates (high low : Nat) : Char :=
  Char.ofNat (0x10000 + 0x400 * (high - 0xd800) + (low - 0xdc00))

/-- What a character stands for behind a backslash. -/
def escaped? : Char → Option Char
  | '\x22' => some '\x22'
  | '\\' => some '\\'
  | '/' => some '/'
  | 'b' => some '\x08'
  | 'f' => some '\x0c'
  | 'n' => some '\n'
  | 'r' => some '\r'
  | 't' => some '\t'
  | _ => none

/-- Whether a character may stand in a string as it is. -/
def isPlain (c : Char) : Bool := 32 ≤ c.toNat && c != '\x22' && c != '\\'

/-- What stands between two quotation marks, and the characters it denotes. -/
inductive Quoted : List Char → List Char → Prop
  | nil : Quoted [] []
  | plain {c : Char} {raw s : List Char} : isPlain c = true → Quoted raw s →
      Quoted (c :: raw) (c :: s)
  | escape {x c : Char} {raw s : List Char} : escaped? x = some c → Quoted raw s →
      Quoted ('\\' :: x :: raw) (c :: s)
  | unit {a b c d : Char} {unit : Nat} {raw s : List Char} : unit? a b c d = some unit →
      isHighSurrogate unit = false → isLowSurrogate unit = false → Quoted raw s →
      Quoted ('\\' :: 'u' :: a :: b :: c :: d :: raw) (Char.ofNat unit :: s)
  | pair {a b c d a' b' c' d' : Char} {high low : Nat} {raw s : List Char} :
      unit? a b c d = some high → isHighSurrogate high = true →
      unit? a' b' c' d' = some low → isLowSurrogate low = true → Quoted raw s →
      Quoted ('\\' :: 'u' :: a :: b :: c :: d :: '\\' :: 'u' :: a' :: b' :: c' :: d' :: raw)
        (ofSurrogates high low :: s)

/-! ### Numbers -/

def IsDigits (s : List Char) : Prop := s ≠ [] ∧ ∀ c ∈ s, c.isDigit = true

/-- The digits before the point.  Only zero begins with a zero. -/
def IsWhole (s : List Char) : Prop := s = ['0'] ∨ IsDigits s ∧ s.head? ≠ some '0'

/-- A point and digits, or nothing. -/
inductive Fraction : List Char → List Char → Prop
  | none : Fraction [] []
  | digits {digits : List Char} : IsDigits digits → Fraction ('.' :: digits) digits

inductive Sign : List Char → Int → Prop
  | none : Sign [] 1
  | plus : Sign ['+'] 1
  | minus : Sign ['-'] (-1)

inductive Exponent : List Char → Int → Prop
  | none : Exponent [] 0
  | digits {mark : Char} {sign digits : List Char} {factor : Int} :
      mark = 'e' ∨ mark = 'E' → Sign sign factor → IsDigits digits →
      Exponent (mark :: (sign ++ digits)) (factor * Nat.ofDigitChars 10 digits 0)

inductive Magnitude : List Char → Rat → Prop
  | intro {whole fraction digits exponent : List Char} {e : Int} : IsWhole whole →
      Fraction fraction digits → Exponent exponent e →
      Magnitude (whole ++ fraction ++ exponent)
        ((Nat.ofDigitChars 10 (whole ++ digits) 0 : Rat) * 10 ^ (e - digits.length))

inductive Number : List Char → Rat → Prop
  | positive {s : List Char} {q : Rat} : Magnitude s q → Number s q
  | negative {s : List Char} {q : Rat} : Magnitude s q → Number ('-' :: s) (-q)

/-! ### Values -/

def isBlank (c : Char) : Bool := c == ' ' || c == '\t' || c == '\n' || c == '\r'

def Blanks (s : List Char) : Prop := ∀ c ∈ s, isBlank c = true

/-- The key of a field, with the blanks around it. -/
inductive Key : List Char → String → Prop
  | quoted {raw s : List Char} : Quoted raw s →
      Key ('\x22' :: (raw ++ ['\x22'])) (String.ofList s)
  | blankBefore {c : Char} {s : List Char} {key : String} : isBlank c = true → Key s key →
      Key (c :: s) key
  | blankAfter {c : Char} {s : List Char} {key : String} : isBlank c = true → Key s key →
      Key (s ++ [c]) key

/-- The text of an item, and its value. -/
structure Item where
  text : List Char
  value : Value

/-- The text of a field, and what it denotes. -/
structure Field where
  keyText : List Char
  key : String
  valueText : List Char
  value : Value

namespace Field

def text (field : Field) : List Char := field.keyText ++ ':' :: field.valueText

def entry (field : Field) : String × Value := (field.key, field.value)

end Field

/-- The value that a text denotes. -/
inductive Denotes : List Char → Value → Prop
  | null : Denotes "null".toList .null
  | true : Denotes "true".toList (.bool .true)
  | false : Denotes "false".toList (.bool .false)
  | number {s : List Char} {q : Rat} : Number s q → Denotes s (.number q)
  | text {raw s : List Char} : Quoted raw s →
      Denotes ('\x22' :: (raw ++ ['\x22'])) (.text (String.ofList s))
  | emptyArray {blanks : List Char} : Blanks blanks →
      Denotes ('[' :: (blanks ++ [']'])) (.array [])
  | array {items : List Item} : items ≠ [] → (∀ item ∈ items, Denotes item.text item.value) →
      Denotes ('[' :: ([','].intercalate (items.map Item.text) ++ [']']))
        (.array (items.map Item.value))
  | emptyObject {blanks : List Char} : Blanks blanks →
      Denotes ('{' :: (blanks ++ ['}'])) (.object [])
  | object {fields : List Field} : fields ≠ [] →
      (∀ field ∈ fields, Key field.keyText field.key) →
      (∀ field ∈ fields, Denotes field.valueText field.value) →
      Denotes ('{' :: ([','].intercalate (fields.map Field.text) ++ ['}']))
        (.object (fields.map Field.entry))
  | blankBefore {c : Char} {s : List Char} {v : Value} : isBlank c = .true → Denotes s v →
      Denotes (c :: s) v
  | blankAfter {c : Char} {s : List Char} {v : Value} : isBlank c = .true → Denotes s v →
      Denotes (s ++ [c]) v

end Json

end ModuleScan
