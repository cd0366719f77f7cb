/-
  ModuleScan/Path/Basic.lean
  ==========================
  **Paths as they are written, and as they are compared.**

  A path is bytes, and it is shown as the text that they encode.  What it is made of
  are its components: slashes that repeat or end the path do not count, nor does a dot
  that stands alone, unless the path begins with it.  Two paths are the same
  path if their components are, and paths are sorted by them.
-/
import ModuleScan.Text.OsString

namespace ModuleScan

structure Path extends OsString where
  ofOsString ::
deriving DecidableEq, Repr, Hashable

/-- The path that a text spells. -/
def Path.mk (text : String) : Path := ⟨text⟩

/-! ### Pieces and components -/

def slash : UInt8 := '/'.toUInt8

def dot : UInt8 := '.'.toUInt8

/-- The pieces of a path between its slashes.  There is always one more than
    there are slashes. -/
def splitSlashes : List UInt8 → List (List UInt8)
  | [] => [[]]
  | b :: rest =>
    if b == slash then [] :: splitSlashes rest
    else
      match splitSlashes rest with
      | [] => [[b]]
      | piece :: pieces => (b :: piece) :: pieces

/-- A component of a path, in the order in which components sort. -/
inductive Component where
  | root
  | here
  | parent
  | name (name : OsString)
deriving DecidableEq, Repr

/-- The component of a piece, none for an empty piece and a single dot. -/
def Component.ofPiece? (piece : OsString) : Option Component :=
  if piece == "" || piece == "." then none
  else if piece == ".." then some .parent
  else some (.name piece)

namespace Path

def pieces (p : Path) : List OsString := (splitSlashes p.bytes).map OsString.mk

def isAbsolute (p : Path) : Bool := p.bytes.head? == some slash

def start? (p : Path) : Option Component :=
  if p.isAbsolute then some .root
  else if p.pieces.head? == some ("." : OsString) then some .here
  else none

def components (p : Path) : List Component :=
  p.start?.toList ++ p.pieces.filterMap Component.ofPiece?

def same (p q : Path) : Bool := p.components == q.components

/-! ### Building paths -/

/-- An entry of a directory, with a slash in between unless the directory ends
    in one. -/
def join (directory : Path) (entry : OsString) : Path :=
  if directory.bytes.getLast?.all (· == slash) then ⟨⟨directory.bytes ++ entry.bytes⟩⟩
  else ⟨⟨directory.bytes ++ slash :: entry.bytes⟩⟩

/-! ### File names -/

def fileName? (p : Path) : Option OsString :=
  match p.components.getLast? with
  | some (.name name) => some name
  | _ => none

/-- What follows the last dot of a file name.  A name without a dot has no
    extension, and neither has one whose only dot comes first. -/
def extensionOf? (name : List UInt8) : Option (List UInt8) :=
  let ending := name.reverse.takeWhile (· != dot)
  match name.reverse.dropWhile (· != dot) with
  | [] | [_] => none
  | _ => some ending.reverse

def extension? (p : Path) : Option OsString :=
  p.fileName?.bind fun name => (extensionOf? name.bytes).map OsString.mk

end Path

end ModuleScan
