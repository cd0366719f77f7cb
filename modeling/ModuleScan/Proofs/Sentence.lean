/-
  ModuleScan/Proofs/Sentence.lean
  ===============================
  **Statements that name modules, and how they are written.**

  A sentence is a well-formed statement together with its layout: each piece
  carries what makes it well formed, so that every sentence can be printed and
  none needs a side condition.  `Sentence.reference?` is the text of the module
  that the statement needs when it runs; a statement about types needs none.
-/
import ModuleScan.Proofs.Inert
import ModuleScan.Proofs.Literal

namespace ModuleScan

/-! ### Layout -/

/-- Characters of one class, at least as many as given. -/
structure Layout (allowed : Char → Bool) (least : Nat) where
  text : List Char
  allowed : ∀ ch ∈ text, allowed ch = true
  least_le : least ≤ text.length

abbrev Gap := Layout isWhitespace 0

/-- Whitespace that keeps two words apart. -/
abbrev Break := Layout isWhitespace 1

abbrev Blanks := Layout isBlank 0

abbrev BlankBreak := Layout isBlank 1

/-! ### Names and literals -/

structure Name where
  text : List Char
  ne_nil : text ≠ []
  ident : ∀ ch ∈ text, isIdentContinue ch = true

structure Braced where
  text : List Char
  unclosed : '}' ∉ text
  uncommented : Uncommented text

/-- A literal whose text is known before the program runs. -/
structure Literal where
  quote : Char
  text : List Char
  quoted : isQuote quote = true
  stays : staysInLiteral quote false text = true
  closes : escapedAfter false text = false

def Literal.print (l : Literal) : List Char := [l.quote] ++ (l.text ++ [l.quote])

def Literal.reference (l : Literal) : String := String.ofList l.text

/-! ### Clauses -/

inductive Names where
  | braces (names : Braced) (after : Gap)
  | star (beforeAs : Gap) (afterAs : Break) (own : Name) (after : Break)

def Names.print : Names → List Char
  | .braces names after => ['{'] ++ (names.text ++ (['}'] ++ after.text))
  | .star beforeAs afterAs own after =>
    ['*'] ++ (beforeAs.text ++ (['a', 's'] ++ (afterAs.text ++ (own.text ++ after.text))))

/-- The words that, before whitespace, are taken to say that an import is one of
    types. -/
def typeWords : List (List Char) :=
  [['t', 'y', 'p', 'e'], ['t', 'y', 'p', 'e', 'o'], ['t', 'y', 'p', 'e', 'o', 'f']]

inductive ImportClause where
  | name (before : Break) (name : Name) (after : Break) (untyped : name.text ∉ typeWords)
  | names (before : Gap) (names : Names)
  | both (before : Break) (name : Name) (beforeComma afterComma : Gap) (names : Names)
      (untyped : name.text ∈ typeWords → beforeComma.text = [])

def ImportClause.before : ImportClause → List Char
  | .name before _ _ _ => before.text
  | .names before _ => before.text
  | .both before _ _ _ _ _ => before.text

def ImportClause.print : ImportClause → List Char
  | .name _ own after _ => own.text ++ after.text
  | .names _ bound => bound.print
  | .both _ own beforeComma afterComma bound _ =>
    own.text ++ (beforeComma.text ++ ([','] ++ (afterComma.text ++ bound.print)))

inductive ExportClause where
  | names (names : Names)
  | all (after : Gap)

def ExportClause.print : ExportClause → List Char
  | .names bound => bound.print
  | .all after => ['*'] ++ after.text

inductive TypeClause where
  | name (name : Name) (after : BlankBreak)
  | braces (names : Braced) (inert : Inert names.text) (after : Blanks)
  | all (after : Blanks)

def TypeClause.print : TypeClause → List Char
  | .name own after => own.text ++ after.text
  | .braces bound _ after => ['{'] ++ (bound.text ++ (['}'] ++ after.text))
  | .all after => ['*'] ++ after.text

/-! ### Sentences -/

inductive Sentence where
  /-- `import 'm'` -/
  | bare (before : Gap) (literal : Literal)
  /-- `import x from 'm'` -/
  | imports (clause : ImportClause) (beforeLiteral : Gap) (literal : Literal)
  /-- `export * from 'm'` -/
  | exports (before : Gap) (clause : ExportClause) (beforeLiteral : Gap) (literal : Literal)
  /-- `require('m')` -/
  | calls (callee : Callee) (before : Gap) (literal : Literal) (after : Gap)
  /-- `import type X from 'm'` -/
  | types (statement : Statement) (before : Break) (afterType : BlankBreak) (clause : TypeClause)
      (beforeLiteral : Blanks) (literal : Literal) (inert : Inert literal.text)

def Statement.letters : Statement → List Char
  | .importing => ['i', 'm', 'p', 'o', 'r', 't']
  | .exporting => ['e', 'x', 'p', 'o', 'r', 't']

def printSource {allowed : Char → Bool} (before : Layout allowed 0) (literal : Literal) :
    List Char :=
  ['f', 'r', 'o', 'm'] ++ (before.text ++ literal.print)

namespace Sentence

def print : Sentence → List Char
  | bare before literal => Statement.importing.letters ++ (before.text ++ literal.print)
  | imports clause beforeLiteral literal =>
    Statement.importing.letters ++
      (clause.before ++ (clause.print ++ printSource beforeLiteral literal))
  | exports before clause beforeLiteral literal =>
    Statement.exporting.letters ++
      (before.text ++ (clause.print ++ printSource beforeLiteral literal))
  | calls callee before literal after =>
    callee.opening ++ (before.text ++ (literal.print ++ (after.text ++ [')'])))
  | types statement before afterType clause beforeLiteral literal _ =>
    statement.letters ++ (before.text ++ (['t', 'y', 'p', 'e'] ++
      (afterType.text ++ (clause.print ++ printSource beforeLiteral literal))))

/-- The module that the statement needs when it runs. -/
def reference? : Sentence → Option String
  | bare _ literal => some literal.reference
  | imports _ _ literal => some literal.reference
  | exports _ _ _ literal => some literal.reference
  | calls _ _ literal _ => some literal.reference
  | types _ _ _ _ _ _ _ => none

end Sentence

/-! ### Texts -/

inductive Separator where
  | newline
  | returnNewline
  | semicolon
  | semicolonNewline
deriving DecidableEq, Repr

def Separator.print : Separator → List Char
  | .newline => ['\n']
  | .returnNewline => ['\r', '\n']
  | .semicolon => [';']
  | .semicolonNewline => [';', '\n']

structure Line where
  before : Gap
  sentence : Sentence
  after : Gap

def Line.print (line : Line) : List Char :=
  line.before.text ++ (line.sentence.print ++ line.after.text)

/-- Statements, joined by the separators that follow all but the last. -/
def printLines : List (Line × Separator) → List Char
  | [] => []
  | [(line, _)] => line.print
  | (line, separator) :: next :: lines =>
    line.print ++ (separator.print ++ printLines (next :: lines))

end ModuleScan
