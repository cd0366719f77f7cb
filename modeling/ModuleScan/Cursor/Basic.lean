/-
  ModuleScan/Cursor/Basic.lean
  ============================
  **A cursor that reads a source and never shows a comment.**

  A cursor holds what is left to read and a few facts about what was read: byte
  offset, line, whether the current character is escaped, the character before
  it, and whether a statement may begin here.  Moving on passes the current
  character and then every comment that follows; inside a string literal nothing
  starts a comment.

  All movement is one function, `sweep`: a single pass over the characters with
  the zone (code, literal, part of a comment) as its only memory.  A character
  that the zone hides is passed; a visible one is passed as long as the caller
  wants, and the sweep ends on the first that the caller refuses.
-/
import ModuleScan.Text.Character

namespace ModuleScan

/-! ### Lines -/

/-- A number of lines as a line counter has it, modulo `2 ^ 32`. -/
instance coeLineOfNat : Coe Nat UInt32 := ⟨UInt32.ofNat⟩

instance coeLineToNat : Coe UInt32 Nat := ⟨UInt32.toNat⟩

/-! ### Places -/

/-- Where a reader stands, and what it remembers of the text before. -/
structure Place where
  offset : Nat
  /-- The line counter, which goes on at zero after its last number. -/
  line : UInt32
  /-- The current character follows a backslash that is not itself escaped. -/
  escaped : Bool
  prev : Option Char
  prevEscaped : Bool
  /-- Only spaces, tabs and block comments lie between the current character and
      the start of the text, a line terminator, a line comment or `;`. -/
  statementStart : Bool
deriving DecidableEq, Repr

/-- Whether moving from `before` to `next` begins a new line.  The pair of a
    carriage return and a line feed counts once. -/
def beginsLine (before next : Option Char) : Bool :=
  next.any isNewline && !(next == some '\n' && before == some '\r')

def Place.start (source : List Char) : Place where
  offset := 0
  line := if beginsLine none source.head? then 2 else 1
  escaped := false
  prev := none
  prevEscaped := false
  statementStart := true

def Place.pass (p : Place) (c : Char) (next : Option Char) : Place where
  offset := p.offset + c.utf8Size
  line := if beginsLine (some c) next then p.line + 1 else p.line
  escaped := next.isSome && c == '\\' && !p.escaped
  prev := some c
  prevEscaped := p.escaped
  statementStart := endsStatement c || (isBlank c && p.statementStart)

/-- Moving on at the end of the text only forgets the character passed last. -/
def Place.passEnd (p : Place) : Place :=
  { p with escaped := false, prev := none, prevEscaped := p.escaped }

/-- Whether a call may begin at the current character: at the start of the text
    and after whitespace, `;`, `=` or `(`.  After anything else, a dot say, a
    name belongs to a longer expression. -/
def Place.followsCallBoundary (p : Place) : Bool :=
  match p.prev with
  | none => true
  | some c => isWhitespace c || c == ';' || c == '=' || c == '('

/-! ### Zones -/

/-- What kind of text the next character belongs to.  The zones of a block
    comment carry the statement-start mark of the place before the comment. -/
inductive Zone where
  /-- A character already known to be visible. -/
  | visible
  /-- Outside comments and literals, where a comment may begin. -/
  | code
  /-- Inside a string literal, where every character is visible. -/
  | literal
  | lineComment
  /-- On the asterisk that opens a block comment. -/
  | blockOpening (atStart : Bool)
  | blockComment (atStart : Bool)
  | blockClosing (atStart : Bool)
deriving DecidableEq, Repr

def Zone.afterVisible : Zone → Zone
  | .literal => .literal
  | _ => .code

/-- How the zone hides the character `c`: the zone and the place after it, or
    nothing if the character is visible. -/
def Zone.hide? (z : Zone) (p : Place) (c : Char) (next : Option Char) : Option (Zone × Place) :=
  match z with
  | .visible | .literal => none
  | .code =>
    if c == '/' && !p.escaped then
      if next == some '/' then some (.lineComment, p.pass c next)
      else if next == some '*' then some (.blockOpening p.statementStart, p.pass c next)
      else none
    else none
  | .lineComment => some (if isNewline c then .code else .lineComment, p.pass c next)
  | .blockOpening s => some (.blockComment s, p.pass c next)
  | .blockComment s =>
    some (if c == '*' && next == some '/' then .blockClosing s else .blockComment s, p.pass c next)
  | .blockClosing s => some (.code, { p.pass c next with statementStart := s })

/-- The place where the text ends in a zone: a block comment leaves the
    statement-start mark as it found it, closed or not. -/
def Zone.atEnd : Zone → Place → Place
  | .blockOpening s, p | .blockComment s, p | .blockClosing s, p => { p with statementStart := s }
  | _, p => p

/-! ### Sweeping -/

/-- Passes hidden characters, and visible ones as long as `keep` holds of them.
    The sweep ends on the first visible character that `keep` refuses, or at
    the end of the text. -/
def sweep (keep : Place → Char → Bool) : Zone → Place → List Char → Place × List Char
  | z, p, [] => (z.atEnd p, [])
  | z, p, c :: rest =>
    match z.hide? p c rest.head? with
    | some (z', p') => sweep keep z' p' rest
    | none =>
      if keep p c then sweep keep z.afterVisible (p.pass c rest.head?) rest
      else (p, c :: rest)

def visits : Zone → Place → List Char → List (Place × Char)
  | _, _, [] => []
  | z, p, c :: rest =>
    match z.hide? p c rest.head? with
    | some (z', p') => visits z' p' rest
    | none => (p, c) :: visits z.afterVisible (p.pass c rest.head?) rest

/-! ### The cursor -/

structure Cursor extends Place where
  rest : List Char
  /-- Inside a string literal nothing starts a comment. -/
  inString : Bool
deriving DecidableEq, Repr

namespace Cursor

def current (c : Cursor) : Option Char := c.rest.head?

def moveTo (c : Cursor) (target : Place × List Char) : Cursor :=
  { c with toPlace := target.1, rest := target.2 }

def ofSource (source : List Char) : Cursor :=
  let first : Cursor := { toPlace := Place.start source, rest := source, inString := false }
  first.moveTo (sweep (fun _ _ => false) .code first.toPlace first.rest)

/-- The zone of the current character, which is visible. -/
def zone (c : Cursor) : Zone := if c.inString then .literal else .visible

def setInString (c : Cursor) (inString : Bool) : Cursor := { c with inString }

/-- Passes the current character and the comments after it. -/
def advance (c : Cursor) : Cursor :=
  match c.rest with
  | [] => { c with toPlace := c.toPlace.passEnd }
  | ch :: rest =>
    c.moveTo (sweep (fun _ _ => false) c.zone.afterVisible (c.toPlace.pass ch rest.head?) rest)

def skipWhile (c : Cursor) (keep : Place → Char → Bool) : Cursor :=
  c.moveTo (sweep keep c.zone c.toPlace c.rest)

def skipWhitespace (c : Cursor) : Cursor := c.skipWhile fun _ ch => isWhitespace ch

def skipUntilWhitespace (c : Cursor) : Cursor := c.skipWhile fun _ ch => !isWhitespace ch

def skipUntilWhitespaceOrComma (c : Cursor) : Cursor :=
  c.skipWhile fun _ ch => !isWhitespace ch && ch != ','

def skipUntil (c : Cursor) (target : Char) : Cursor := c.skipWhile fun _ ch => ch != target

/-- Passes `word` if the visible text goes on with it.  Up to the first mismatch
    the characters that did match stay passed. -/
def eat : Cursor → List Char → Bool × Cursor
  | c, [] => (true, c)
  | c, ch :: word => if c.current == some ch then c.advance.eat word else (false, c)

def visits (c : Cursor) : List (Place × Char) :=
  ModuleScan.visits c.zone c.toPlace c.rest

def toEnd (c : Cursor) : Cursor := c.skipWhile fun _ _ => true

end Cursor

/-! ### Text between two places -/

def utf8Length : List Char → Nat
  | [] => 0
  | c :: text => c.utf8Size + utf8Length text

/-- Whether a text has a beginning of exactly the given UTF-8 length. -/
def isBoundary : List Char → Nat → Bool
  | [], offset => offset == 0
  | c :: rest, offset =>
    offset == 0 || (c.utf8Size ≤ offset && isBoundary rest (offset - c.utf8Size))

def takeBytes : Nat → List Char → List Char
  | _, [] => []
  | size, c :: rest =>
    if c.utf8Size ≤ size then c :: takeBytes (size - c.utf8Size) rest else []

structure Mark where
  offset : Nat
  rest : List Char
deriving DecidableEq, Repr

/-- The start of a source, before any comment. -/
def Mark.ofSource (source : List Char) : Mark where
  offset := 0
  rest := source

def Cursor.mark (c : Cursor) : Mark where
  offset := c.offset
  rest := c.rest

/-- The source text from a mark up to the current character, comments included. -/
def Cursor.textSince (c : Cursor) (m : Mark) : List Char :=
  takeBytes (c.offset - m.offset) m.rest

end ModuleScan
