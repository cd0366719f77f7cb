/-
  ModuleScan/Text/Character.lean
  ==============================
  **The classes of characters that a scan tells apart.**

  Line terminators, blanks, quotes and the characters of names.  Nothing here
  depends on where a character stands.
-/
import ModuleScan.Text.Alphanumeric

namespace ModuleScan

/-! ### Lines and blanks -/

/-- The four characters that end a line: carriage return, line feed, line
    separator and paragraph separator. -/
def isNewline (c : Char) : Bool :=
  c == '\r' || c == '\n' || c == '\u2028' || c == '\u2029'

def isBlank (c : Char) : Bool :=
  c == ' ' || c == '\t'

def isWhitespace (c : Char) : Bool :=
  isNewline c || isBlank c

/-- The characters after which a new statement may begin. -/
def endsStatement (c : Char) : Bool :=
  isNewline c || c == ';'

/-! ### Literals and names -/

/-- The three characters that open and close a string literal: the apostrophe,
    the quotation mark and the grave accent. -/
def isQuote (c : Char) : Bool :=
  c == '\x27' || c == '\x22' || c == '\x60'

def isIdentContinue (c : Char) : Bool :=
  isAlphanumeric c || c == '_' || c == '$'

/-! ### The classes are apart -/

/-- Decides a property of the characters of a text one by one, and not over all
    characters there are. -/
theorem forall_mem_of_all {p : Char → Prop} [DecidablePred p] {text : List Char}
    (h : (text.all fun c => decide (p c)) = true) : ∀ c ∈ text, p c := by
  intro c hc
  exact of_decide_eq_true (List.all_eq_true.mp h c hc)

theorem mem_of_isWhitespace {c : Char} (h : isWhitespace c = true) :
    c ∈ ['\r', '\n', '\u2028', '\u2029', ' ', '\t'] := by
  simpa [isWhitespace, isNewline, isBlank, or_assoc] using h

theorem mem_of_endsStatement {c : Char} (h : endsStatement c = true) :
    c ∈ ['\r', '\n', '\u2028', '\u2029', ';'] := by
  simpa [endsStatement, isNewline, or_assoc] using h

theorem mem_of_isQuote {c : Char} (h : isQuote c = true) : c ∈ ['\x27', '\x22', '\x60'] := by
  simpa [isQuote, or_assoc] using h

theorem isIdentContinue_of_isWhitespace {c : Char} (h : isWhitespace c = true) :
    isIdentContinue c = false := by
  have hall : ∀ d ∈ ['\r', '\n', '\u2028', '\u2029', ' ', '\t'], isIdentContinue d = false :=
    forall_mem_of_all (by decide +kernel)
  exact hall c (mem_of_isWhitespace h)

theorem isWhitespace_of_isIdentContinue {c : Char} (h : isIdentContinue c = true) :
    isWhitespace c = false := by
  rw [← Bool.not_eq_true]
  intro hw
  rw [isIdentContinue_of_isWhitespace hw] at h
  cases h

theorem isIdentContinue_of_isQuote {c : Char} (h : isQuote c = true) :
    isIdentContinue c = false := by
  have hall : ∀ d ∈ ['\x27', '\x22', '\x60'], isIdentContinue d = false :=
    forall_mem_of_all (by decide +kernel)
  exact hall c (mem_of_isQuote h)

theorem isWhitespace_of_isBlank {c : Char} (h : isBlank c = true) : isWhitespace c = true := by
  simp [isWhitespace, h]

theorem isWhitespace_of_isQuote {c : Char} (h : isQuote c = true) : isWhitespace c = false := by
  have hall : ∀ d ∈ ['\x27', '\x22', '\x60'], isWhitespace d = false :=
    forall_mem_of_all (by decide)
  exact hall c (mem_of_isQuote h)

end ModuleScan
