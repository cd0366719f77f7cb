/-
  ModuleScan/Main.lean
  ====================
  **The command line.**

  A run is a function of the arguments, of standard input and of the files it
  asks about.  Here the system is asked for all that the given paths lead to, and the
  result is written; what of it a search enters and finds is decided by the run.
-/
import ModuleScan.CommandLine.Run
import Std.Data.HashMap

namespace ModuleScan

/-! ### Failures of the system -/

/-- The failure with a number.  The words that come with it count only where a
    search has none of its own. -/
def ReadFailure.ofNumber (number : Nat) (words : String) : ReadFailure :=
  match number with
  | 2 => .notFound
  | 20 => .notADirectory
  | 21 => .isADirectory
  | 36 => .nameTooLong
  | 40 => .tooManyLinks
  | number => .ofSystem number words

/-- The number of an error, which some calls give as the negative of it. -/
def errorNumber (number : UInt32) : Nat :=
  if number < 0x80000000 then number.toNat else (-number).toNat

def ReadFailure.ofError (e : IO.Error) : ReadFailure :=
  match e with
  | .alreadyExists _ number words | .otherError number words | .resourceBusy number words
  | .resourceVanished number words | .unsupportedOperation number words
  | .hardwareFault number words | .unsatisfiedConstraints number words
  | .illegalOperation number words | .protocolError number words | .timeExpired number words
  | .interrupted _ number words | .noFileOrDirectory _ number words
  | .invalidArgument _ number words | .permissionDenied _ number words
  | .resourceExhausted _ number words | .inappropriateType _ number words
  | .noSuchThing _ number words => .ofNumber (errorNumber number) words
  | .unexpectedEof | .userError _ => ⟨.other, toString e⟩

/-! ### Surveying files -/

/-- What the system says that paths lead to.  Files have no content in it. -/
abbrev Survey := Std.HashMap Path (Except ReadFailure Node)

def note (p : Path) (answer : Except ReadFailure Node) : StateT Survey IO Unit :=
  modify (·.insertIfNew p answer)

/-- A path in the form in which the system takes it.  Names come from there as text. -/
def Path.onDisk (p : Path) : IO.FS.DirEntry := ⟨p.text, ""⟩

/-- The node of a path of the given type, and notes on it and on all that lies below it.
    What is no directory counts as a file if its path leads to one. -/
partial def survey (p : Path) : IO.FS.FileType → StateT Survey IO Node
  | .dir => do
    match ← p.onDisk.root.readDir.toBaseIO with
    | .error e =>
      note p (.error (.ofError e))
      return .directory []
    | .ok listing =>
      -- an entry has a type even if its path is too long, so another path is asked for that
      let real := Path.mk (toString (← IO.FS.realPath p.text))
      let entries ← listing.toList.mapM fun entry => do
        let name : OsString := entry.fileName
        let metadata ← (real.join name).onDisk.root.symlinkMetadata.toBaseIO
        return (name, ← survey (p.join name) (metadata.toOption.elim .other (·.type)))
      note p (.ok (.directory entries))
      return .directory entries
  | _ => do
    if let .ok metadata ← p.onDisk.root.metadata.toBaseIO then
      if let .file := metadata.type then
        note p (.ok (.file .empty))
    return .file .empty

/-- Links that are given are followed. -/
def surveyGiven (p : Path) : StateT Survey IO Unit := do
  match ← p.onDisk.root.metadata.toBaseIO with
  | .error e => note p (.error (.ofError e))
  | .ok metadata => note p (.ok (← survey p metadata.type))

def readContent (p : Path) : IO (Except ReadFailure ByteArray) := do
  match ← (IO.FS.readBinFile p.text).toBaseIO with
  | .ok content => return .ok content
  | .error e => return .error (.ofError e)

def Files.ofSurvey (survey : Survey)
    (contents : Std.HashMap Path (Except ReadFailure ByteArray)) : Files where
  lookup p := (survey[p]?).getD (.error .notFound)
  read p := (contents[p]?).getD (.error .notFound)

/-- The files that a scan looks at: all that the given paths lead to, and the content of
    those that are found. -/
def Options.survey (o : Options) : IO Files := do
  let ((), survey) ← (o.paths.forM surveyGiven).run ∅
  let found := (discoverFiles (.ofSurvey survey ∅) o.noIgnore o.paths).toOption.getD []
  let contents ← found.mapM fun p => return (p, ← readContent p)
  return .ofSurvey survey (.ofList contents)

/-! ### Standard streams -/

partial def readToEnd (input : IO.FS.Stream) (before : ByteArray) : IO ByteArray := do
  let chunk ← input.read 65536
  if chunk.isEmpty then return before else readToEnd input (before ++ chunk)

def readStdin : IO (Except ReadFailure ByteArray) := do
  match ← (readToEnd (← IO.getStdin) ByteArray.empty).toBaseIO with
  | .ok content => return .ok content
  | .error e => return .error (.ofError e)

/-- Writes the standard output of a result.  If that fails, the failure is what is
    left of the result. -/
def RunResult.writeOutput (result : RunResult) : IO RunResult := do
  let output ← IO.getStdout
  match ← (do output.putStr result.stdout; output.flush : IO Unit).toBaseIO with
  | .ok () => return result
  | .error e => return .ofFailure (.output (ReadFailure.ofError e).text)

/-! ### A run -/

def perform (arguments : List String) : IO RunResult := do
  match Command.ofArguments arguments with
  | .ok (.scan o) =>
    if o.stdin then return run (.ofSurvey ∅ ∅) (← readStdin) arguments
    else return run (← o.survey) (.ok .empty) arguments
  | _ => return run (.ofSurvey ∅ ∅) (.ok .empty) arguments

end ModuleScan

def main (arguments : List String) : IO UInt32 := do
  let result ← (← ModuleScan.perform arguments).writeOutput
  (← IO.getStderr).putStr result.stderr
  return result.code.toUInt32
