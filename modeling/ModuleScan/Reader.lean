/-
  ModuleScan/Reader.lean
  ======================
  **A cursor with a stack of saved cursors.**

  Speculative reading saves the cursor, tries something, and then either
  discards the saved cursor or restores it.  Saves nest, so they form a stack.
  Closing a save that was never made is a fault, and so are the two misuses of a
  literal: reading one where no quote stands, and cutting text that does not lie
  between two characters of the source.
-/
import ModuleScan.Cursor.Basic

namespace ModuleScan

/-! ### Faults -/

/-- What no text may make a scan do. -/
inductive Fault where
  | restoreWithoutSave
  | discardWithoutSave
  | literalWithoutQuote
  | cutAhead (start : Nat)
  /-- Text was to be cut within a character, or beyond the end of the source. -/
  | cutOffBoundary (offset : Nat)
deriving DecidableEq, Repr

def Fault.message : Fault → String
  | .restoreWithoutSave => "snapshot restore with no pending save"
  | .discardWithoutSave => "snapshot discard with no pending save"
  | .literalWithoutQuote => "string literal must start at a quote"
  | .cutAhead start => "slice start " ++ toString start ++ " is ahead of the cursor"
  | .cutOffBoundary offset => "byte index " ++ toString offset ++ " is not a char boundary"

/-! ### Readers -/

structure Reader where
  cursor : Cursor
  saved : List Cursor
deriving DecidableEq, Repr

namespace Reader

def ofSource (source : List Char) : Reader where
  cursor := Cursor.ofSource source
  saved := []

def save (r : Reader) : Reader := { r with saved := r.cursor :: r.saved }

/-- Goes back to the cursor saved last, which is then no longer saved. -/
def restore (r : Reader) : Except Fault Reader :=
  match r.saved with
  | [] => .error .restoreWithoutSave
  | c :: saved => .ok { cursor := c, saved }

def discard (r : Reader) : Except Fault Reader :=
  match r.saved with
  | [] => .error .discardWithoutSave
  | _ :: saved => .ok { r with saved }

end Reader

/-! ### Operations as data -/

inductive Move where
  | advance
  | eat (word : List Char)
  | skipWhitespace
  | skipUntilWhitespace
  | skipUntilWhitespaceOrComma
  | skipUntil (target : Char)
  | setInString (inString : Bool)
deriving DecidableEq, Repr

def Move.apply : Move → Cursor → Cursor
  | .advance, c => c.advance
  | .eat word, c => (c.eat word).2
  | .skipWhitespace, c => c.skipWhitespace
  | .skipUntilWhitespace, c => c.skipUntilWhitespace
  | .skipUntilWhitespaceOrComma, c => c.skipUntilWhitespaceOrComma
  | .skipUntil target, c => c.skipUntil target
  | .setInString b, c => c.setInString b

inductive Operation where
  | move (m : Move)
  | save
  | restore
  | discard
deriving DecidableEq, Repr

def Operation.apply : Operation → Reader → Except Fault Reader
  | .move m, r => .ok { r with cursor := m.apply r.cursor }
  | .save, r => .ok r.save
  | .restore, r => r.restore
  | .discard, r => r.discard

def Reader.perform : List Operation → Reader → Except Fault Reader
  | [], r => .ok r
  | op :: ops, r =>
    match op.apply r with
    | .error fault => .error fault
    | .ok r' => r'.perform ops

end ModuleScan
