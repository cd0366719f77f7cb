/-
  ModuleScan/Files/Tree.lean
  ==========================
  **A file system that is one tree.**

  The way to a node is the list of the names that lead there from the root through
  directories.  A path is walked piece by piece: an empty piece and a dot stay in a
  directory, two dots go to its parent, a name goes to its entry, and a link is
  replaced by its target.  A walk begins in the working directory, or for the target
  of a link in the directory of the link; only if the text is absolute it begins at
  the root, which is its own parent.  A path may pass at most 40 links.
-/
import ModuleScan.Files.Basic

namespace ModuleScan

abbrev Location := List OsString

/-- Where a walk along the path begins that is asked for at a location. -/
def Path.origin (p : Path) (location : Location) : Location :=
  if p.isAbsolute then [] else location

namespace Node

/-! ### Nodes of a tree -/

/-- The node at a location, links not followed. -/
def at? : Node → Location → Option Node
  | node, [] => some node
  | .directory entries, name :: rest => (entries.lookup name).bind (at? · rest)
  | _, _ :: _ => none

def maxName : Nat := 255

def maxPath : Nat := 4096

def maxLinks : Nat := 40

/-! ### Walking a path -/

/-- Walks the pieces of a path from a location on.  What to do at a link is up to
    `atLink`, which gets the location of the link's directory, the target, and
    the pieces that are left. -/
def walk (root : Node) (atLink : Location → Path → List OsString → Except ReadFailure Location) :
    Location → List OsString → Except ReadFailure Location
  | location, [] => .ok location
  | location, piece :: pieces =>
    match root.at? location with
    | some (.directory entries) =>
      if piece == "" || piece == "." then walk root atLink location pieces
      else if piece == ".." then walk root atLink location.dropLast pieces
      else if piece.bytes.length > maxName then .error .nameTooLong
      else
        match entries.lookup piece with
        | none => .error .notFound
        | some (.link target) => atLink location ⟨target⟩ pieces
        | some _ => walk root atLink (location ++ [piece]) pieces
    | _ => .error .notADirectory

def follow (root : Node) : Nat → Location → List OsString → Except ReadFailure Location
  | 0 => walk root fun _ _ _ => .error .tooManyLinks
  | links + 1 => walk root fun location target pieces =>
    follow root links (target.origin location) (target.pieces ++ pieces)

def locate (root : Node) (workingDirectory : Location) (p : Path) : Except ReadFailure Location :=
  if p.bytes.contains 0 then .error .unexpectedNul
  else if p.bytes.isEmpty then .error .notFound
  else if p.bytes.length ≥ maxPath then .error .nameTooLong
  else follow root maxLinks (p.origin workingDirectory) p.pieces

def lookup (root : Node) (workingDirectory : Location) (p : Path) : Except ReadFailure Node :=
  match root.locate workingDirectory p with
  | .error failure => .error failure
  | .ok location =>
    match root.at? location with
    | some node => .ok node
    | none => .error .notFound

def read (root : Node) (workingDirectory : Location) (p : Path) :
    Except ReadFailure ByteArray :=
  match root.lookup workingDirectory p with
  | .error failure => .error failure
  | .ok (.file content) => .ok content
  | .ok _ => .error .isADirectory

/-- The files of a tree, as they are seen from a working directory. -/
def files (root : Node) (workingDirectory : Location) : Files where
  lookup := root.lookup workingDirectory
  read := root.read workingDirectory

/-! ### Making a tree -/

def setEntry (name : OsString) (node : Node) : List (OsString × Node) → List (OsString × Node)
  | [] => [(name, node)]
  | entry :: entries =>
    if entry.1 == name then (name, node) :: entries else entry :: setEntry name node entries

def setAt (node : Node) : Location → Node → Node
  | [], _ => node
  | name :: rest, .directory entries =>
    .directory (setEntry name
      (setAt node rest ((entries.lookup name).getD (.directory []))) entries)
  | _ :: _, other => other

/-- Walks the pieces of a path and makes the directories that are missing: the
    tree with them, and the location they end at. -/
def makeDirectories (root : Node) : Location → List OsString → Node × Location
  | location, [] => (root, location)
  | location, piece :: pieces =>
    if piece == "" || piece == "." then root.makeDirectories location pieces
    else if piece == ".." then root.makeDirectories location.dropLast pieces
    else
      match root.at? (location ++ [piece]) with
      | none =>
        (setAt (.directory []) (location ++ [piece]) root).makeDirectories
          (location ++ [piece]) pieces
      | some (.link _) =>
        match root.follow maxLinks location [piece] with
        | .ok target => root.makeDirectories target pieces
        | .error _ => (root, location)
      | some _ => root.makeDirectories (location ++ [piece]) pieces

/-- Where a file ends up that is written under a name in a directory: a link is
    written through, to a file that need not exist yet. -/
def fileLocation (root : Node) (links : Nat) (location : Location) (name : OsString) :
    Except ReadFailure Location :=
  match root.at? (location ++ [name]) with
  | some (.directory _) => .error .isADirectory
  | some (.link target) =>
    match links with
    | 0 => .error .tooManyLinks
    | links + 1 =>
      let target : Path := ⟨target⟩
      match root.follow links (target.origin location) target.pieces.dropLast with
      | .error failure => .error failure
      | .ok next => root.fileLocation links next (target.pieces.getLastD "")
  | _ => .ok (location ++ [name])

/-- The tree with a node at a path, and with the directories on the way to it.  A
    directory that exists is left as it is, and a file that cannot be written is
    left out. -/
def insert (root : Node) (workingDirectory : Location) (p : Path) (node : Node) : Node :=
  let start := p.origin workingDirectory
  let made := root.makeDirectories start p.pieces.dropLast
  let name := p.pieces.getLastD ""
  match node with
  | .directory _ => (root.makeDirectories start p.pieces).1
  | .link _ => setAt node (made.2 ++ [name]) made.1
  | .file _ =>
    match made.1.fileLocation maxLinks made.2 name with
    | .ok location => setAt node location made.1
    | .error _ => made.1

/-- The working directory of a tree that is made from a list. -/
def home : Location := ["home"]

def ofList (nodes : List (Path × Node)) : Node :=
  nodes.foldl (fun root entry => root.insert home entry.1 entry.2)
    (.directory [("home", .directory [])])

end Node

def Files.ofTree (root : Node) : Files := root.files Node.home

end ModuleScan
