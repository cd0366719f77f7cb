/-
  ModuleScan/Files/Search.lean
  ============================
  **Which files a list of paths stands for.**

  A path that leads to no directory stands for itself, whatever its extension.
  A directory stands for the source files in it and below; links to directories
  are not entered, and hidden entries and installed packages are left out unless
  they are asked for.
-/
import ModuleScan.Files.Basic
import ModuleScan.Path.Order

namespace ModuleScan

/-! ### Names -/

def sourceExtensions : List OsString := ["js", "jsx", "mjs", "cjs", "ts", "tsx", "mts", "cts"]

def Path.isSource (p : Path) : Bool := p.extension?.any sourceExtensions.contains

/-- Whether an entry is left out of a search: hidden entries begin with a dot, and
    `node_modules` holds installed packages.  A name that is no text is never left out. -/
def isIgnored (name : OsString) : Bool :=
  name.toString?.any fun text => text.toList.head? == some '.' || text == "node_modules"

namespace Files

/-! ### Directories -/

mutual

/-- The source files that an entry of a directory stands for.  A path may grow too
    long for the system on the way down: then a directory cannot be listed, which
    ends the search, and a file is no file any more. -/
def searchNode (files : Files) (p : Path) (noIgnore : Bool) :
    Node → Except (Path × ReadFailure) (List Path)
  | .directory entries =>
    match files.lookup p with
    | .error failure => .error (p, failure)
    | .ok _ => files.searchEntries p noIgnore entries
  | .file _ | .link _ => .ok (if p.isSource && files.isFile p then [p] else [])

def searchEntries (files : Files) (directory : Path) (noIgnore : Bool) :
    List (OsString × Node) → Except (Path × ReadFailure) (List Path)
  | [] => .ok []
  | (name, node) :: entries => do
    let found ←
      if !noIgnore && isIgnored name then .ok []
      else files.searchNode (directory.join name) noIgnore node
    let others ← files.searchEntries directory noIgnore entries
    return found ++ others

end

/-! ### Given paths -/

def searchPath (files : Files) (noIgnore : Bool) (p : Path) :
    Except (Path × ReadFailure) (List Path) :=
  match files.lookup p with
  | .error failure => .error (p, failure)
  | .ok (.directory entries) => files.searchEntries p noIgnore entries
  | .ok _ => .ok [p]

/-- The files that all given paths stand for, in order and each once.  The first
    path that leads nowhere ends the search. -/
def discover (files : Files) (noIgnore : Bool) (paths : List Path) :
    Except (Path × ReadFailure) (List Path) := do
  let found ← paths.mapM (files.searchPath noIgnore)
  return Path.sorted found.flatten

end Files

end ModuleScan
