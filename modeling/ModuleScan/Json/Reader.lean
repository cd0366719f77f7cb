/-
  ModuleScan/Json/Reader.lean
  ===========================
  **A reader of JSON texts.**

  A text is a sequence of tokens with blanks in between: the six punctuation
  characters, strings, numbers and three words.  A value is read from the tokens
  with a stack of the arrays and objects that are still open.
-/
import ModuleScan.Json.Grammar

namespace ModuleScan

namespace Json

inductive Token where
  | beginArray
  | endArray
  | beginObject
  | endObject
  | colon
  | comma
  | null
  | bool (value : Bool)
  | number (value : Rat)
  | text (value : String)
deriving DecidableEq

/-! ### Strings -/

/-- The characters denoted by what stands between two quotation marks. -/
def unescape : List Char → Option (List Char)
  | [] => some []
  | '\\' :: 'u' :: a :: b :: c :: d :: rest => do
    let unit ← unit? a b c d
    if isHighSurrogate unit then
      match rest with
      | '\\' :: 'u' :: a :: b :: c :: d :: rest => do
        let low ← unit? a b c d
        if isLowSurrogate low then return ofSurrogates unit low :: (← unescape rest) else none
      | _ => none
    else if isLowSurrogate unit then none
    else return Char.ofNat unit :: (← unescape rest)
  | '\\' :: c :: rest => do return (← escaped? c) :: (← unescape rest)
  | c :: rest =>
    if isPlain c then do return c :: (← unescape rest) else none

/-! ### Numbers -/

/-- The digits at the front, and what is left. -/
def digits? (s : List Char) : Option (List Char × List Char) :=
  if (s.takeWhile Char.isDigit).isEmpty then none
  else some (s.takeWhile Char.isDigit, s.dropWhile Char.isDigit)

/-- The digits before the point, and what is left. -/
def whole? : List Char → Option (List Char × List Char)
  | '0' :: rest => some (['0'], rest)
  | s => digits? s

def fraction? : List Char → Option (List Char × List Char)
  | '.' :: rest => digits? rest
  | s => some ([], s)

/-- The factor of a sign, and what is left. -/
def sign : List Char → Int × List Char
  | '+' :: s => (1, s)
  | '-' :: s => (-1, s)
  | s => (1, s)

def exponent? : List Char → Option Int
  | [] => some 0
  | mark :: rest =>
    let (factor, digits) := sign rest
    if (mark == 'e' || mark == 'E') && !digits.isEmpty && digits.all Char.isDigit then
      some (factor * Nat.ofDigitChars 10 digits 0)
    else none

def magnitude? (s : List Char) : Option Rat := do
  let (whole, s) ← whole? s
  let (fraction, s) ← fraction? s
  let exponent ← exponent? s
  return (Nat.ofDigitChars 10 (whole ++ fraction) 0 : Rat) * 10 ^ (exponent - fraction.length)

def number? : List Char → Option Rat
  | '-' :: s => (magnitude? s).map (- ·)
  | s => magnitude? s

/-! ### Tokens -/

def punctuation? : Char → Option Token
  | '[' => some .beginArray
  | ']' => some .endArray
  | '{' => some .beginObject
  | '}' => some .endObject
  | ':' => some .colon
  | ',' => some .comma
  | _ => none

/-- Whether a character ends a word or a number. -/
def isDelimiter (c : Char) : Bool := isBlank c || (punctuation? c).isSome

/-- The token of a word or a number. -/
def scalar? (raw : List Char) : Option Token :=
  if raw = ['n', 'u', 'l', 'l'] then some .null
  else if raw = ['t', 'r', 'u', 'e'] then some (.bool true)
  else if raw = ['f', 'a', 'l', 's', 'e'] then some (.bool false)
  else (number? raw).map .number

/-- Where a reader of tokens is, with what it has read of the token. -/
inductive Lexeme where
  | between
  | scalar (raw : List Char)
  | text (raw : List Char)
  /-- Behind a backslash in a string. -/
  | escape (raw : List Char)

namespace Lexeme

def begin (c : Char) : List Token × Lexeme :=
  if c == '\x22' then ([], .text [])
  else if isBlank c then ([], .between)
  else
    match punctuation? c with
    | some token => ([token], .between)
    | none => ([], .scalar [c])

/-- The tokens that a character ends, and where the reader is after it. -/
def next : Lexeme → Char → Option (List Token × Lexeme)
  | .between, c => some (begin c)
  | .scalar raw, c =>
    if isDelimiter c then (scalar? raw).map fun token => (token :: (begin c).1, (begin c).2)
    else some ([], .scalar (raw ++ [c]))
  | .text raw, c =>
    if c == '\x22' then (unescape raw).map fun s => ([.text (String.ofList s)], .between)
    else if c == '\\' then some ([], .escape (raw ++ [c]))
    else some ([], .text (raw ++ [c]))
  | .escape raw, c => some ([], .text (raw ++ [c]))

def finish : Lexeme → Option (List Token)
  | .between => some []
  | .scalar raw => (scalar? raw).map ([·])
  | .text _ | .escape _ => none

def tokens : Lexeme → List Char → Option (List Token)
  | lexeme, [] => lexeme.finish
  | lexeme, c :: rest => do
    let (ended, lexeme) ← lexeme.next c
    return ended ++ (← lexeme.tokens rest)

end Lexeme

/-! ### Values -/

/-- An array or an object that is still open: what has been read of it, and of an object
    also the key of the field that is being read. -/
inductive Frame where
  | items (done : List Value)
  | fields (done : List (String × Value)) (key : String)

/-- What has to come next, inside the arrays and objects that are open. -/
inductive State where
  | atValue (frames : List Frame)
  /-- Behind the beginning of an array. -/
  | atFirstItem (frames : List Frame)
  /-- Behind the beginning of an object. -/
  | atFirstKey (frames : List Frame)
  | atKey (done : List (String × Value)) (frames : List Frame)
  | atColon (done : List (String × Value)) (key : String) (frames : List Frame)
  | behind (value : Value) (frames : List Frame)

namespace State

def beginValue (frames : List Frame) : Token → Option State
  | .null => some (.behind .null frames)
  | .bool value => some (.behind (.bool value) frames)
  | .number value => some (.behind (.number value) frames)
  | .text value => some (.behind (.text value) frames)
  | .beginArray => some (.atFirstItem frames)
  | .beginObject => some (.atFirstKey frames)
  | _ => none

def next : State → Token → Option State
  | .atValue frames, token => beginValue frames token
  | .atFirstItem frames, .endArray => some (.behind (.array []) frames)
  | .atFirstItem frames, token => beginValue (.items [] :: frames) token
  | .atFirstKey frames, .endObject => some (.behind (.object []) frames)
  | .atFirstKey frames, .text key => some (.atColon [] key frames)
  | .atKey done frames, .text key => some (.atColon done key frames)
  | .atColon done key frames, .colon => some (.atValue (.fields done key :: frames))
  | .behind value (.items done :: frames), .comma =>
    some (.atValue (.items (done ++ [value]) :: frames))
  | .behind value (.items done :: frames), .endArray =>
    some (.behind (.array (done ++ [value])) frames)
  | .behind value (.fields done key :: frames), .comma =>
    some (.atKey (done ++ [(key, value)]) frames)
  | .behind value (.fields done key :: frames), .endObject =>
    some (.behind (.object (done ++ [(key, value)])) frames)
  | _, _ => none

def run : State → List Token → Option State
  | state, [] => some state
  | state, token :: rest => do (← state.next token).run rest

def result? : State → Option Value
  | .behind value [] => some value
  | _ => none

end State

/-- The value of a JSON text. -/
def read (s : String) : Option Value := do
  let tokens ← Lexeme.between.tokens s.toList
  let state ← (State.atValue []).run tokens
  state.result?

end Json

end ModuleScan
