/-
  ModuleScan/Json/Basic.lean
  ==========================
  **JSON documents and their indented text.**

  A document is a number, a text, an array or an object whose fields keep their
  order.  Printed, every item and every field stands on a line of its own, two
  spaces further in than what holds it; empty arrays and objects stay on theirs.
  In a text only the quotation mark, the backslash and the control characters
  below the space are escaped, so every other character is its own image.
-/
namespace ModuleScan

inductive Json where
  | number (value : Nat)
  | text (value : String)
  | array (items : List Json)
  | object (fields : List (String × Json))
deriving Repr, BEq, Inhabited

namespace Json

/-! ### Texts -/

def escape (c : Char) : List Char :=
  match c with
  | '\x22' => ['\\', '\x22']
  | '\\' => ['\\', '\\']
  | '\x08' => ['\\', 'b']
  | '\x0c' => ['\\', 'f']
  | '\n' => ['\\', 'n']
  | '\r' => ['\\', 'r']
  | '\t' => ['\\', 't']
  | c =>
    if c.toNat < 32 then
      ['\\', 'u', '0', '0', Nat.digitChar (c.toNat / 16), Nat.digitChar (c.toNat % 16)]
    else [c]

def quote (s : String) : List Char :=
  '\x22' :: (s.toList.flatMap escape ++ ['\x22'])

/-! ### Documents -/

def lineBreak (depth : Nat) : List Char :=
  '\n' :: List.replicate (2 * depth) ' '

mutual

def print (depth : Nat) : Json → List Char
  | .number n => Nat.toDigits 10 n
  | .text s => quote s
  | .array [] => ['[', ']']
  | .array (item :: items) =>
    '[' :: (lineBreak (depth + 1) ++ print (depth + 1) item ++ printItems (depth + 1) items ++
      lineBreak depth ++ [']'])
  | .object [] => ['{', '}']
  | .object ((key, value) :: fields) =>
    '{' :: (lineBreak (depth + 1) ++ quote key ++ [':', ' '] ++ print (depth + 1) value ++
      printFields (depth + 1) fields ++ lineBreak depth ++ ['}'])

def printItems (depth : Nat) : List Json → List Char
  | [] => []
  | item :: items => ',' :: (lineBreak depth ++ print depth item ++ printItems depth items)

def printFields (depth : Nat) : List (String × Json) → List Char
  | [] => []
  | (key, value) :: fields =>
    ',' :: (lineBreak depth ++ quote key ++ [':', ' '] ++ print depth value ++
      printFields depth fields)

end

def pretty (document : Json) : String := String.ofList (document.print 0)

end Json

end ModuleScan
