/-
  ModuleScan/Files/Basic.lean
  ===========================
  **What a scan asks of a file system.**

  A search looks up what a path leads to, and a scan reads files.  Both may
  fail, and a failure says why.
-/
import ModuleScan.Path.Basic

namespace ModuleScan

/-! ### Failures -/

inductive FailureKind where
  | notFound
  | permissionDenied
  | invalidData
  | notADirectory
  | other
deriving DecidableEq, Repr

/-- The reason that a system means by the number of an error. -/
def FailureKind.ofNumber : Nat → FailureKind
  | 2 => .notFound
  | 1 | 13 => .permissionDenied
  | 20 => .notADirectory
  | _ => .other

structure ReadFailure where
  kind : FailureKind
  text : String
deriving DecidableEq, Repr

namespace ReadFailure

def ofSystem (number : Nat) (words : String) : ReadFailure where
  kind := .ofNumber number
  text := words ++ " (os error " ++ toString number ++ ")"

def notFound : ReadFailure := .ofSystem 2 "No such file or directory"

def notADirectory : ReadFailure := .ofSystem 20 "Not a directory"

def isADirectory : ReadFailure := .ofSystem 21 "Is a directory"

def nameTooLong : ReadFailure := .ofSystem 36 "File name too long"

def tooManyLinks : ReadFailure := .ofSystem 40 "Too many levels of symbolic links"

def unexpectedNul : ReadFailure := ⟨.other, "file name contained an unexpected NUL byte"⟩

end ReadFailure

/-! ### File systems -/

/-- A file, a directory or a symbolic link.  The entries of a directory have
    different names; their order means nothing. -/
inductive Node where
  | file (content : ByteArray)
  | directory (entries : List (OsString × Node))
  | link (target : OsString)
deriving Inhabited

structure Files where
  lookup : Path → Except ReadFailure Node
  read : Path → Except ReadFailure ByteArray

def Files.isFile (files : Files) (p : Path) : Bool :=
  match files.lookup p with
  | .ok (.file _) => true
  | _ => false

end ModuleScan
