/-
  ModuleScan/CommandLine/Arguments.lean
  =====================================
  **The arguments of the command line.**

  Options may stand anywhere, in any order and repeatedly; every other argument
  is a path.  The first request for help or for the version, or the first unknown
  option, settles the matter whatever follows.
-/
import ModuleScan.Path.Basic

namespace ModuleScan

/-! ### One argument -/

inductive Flag where
  | json
  | stdin
  | noWarnings
  | unique
  | noParallel
  | noIgnore
  | verbose
deriving DecidableEq, Repr

inductive Argument where
  | flag (f : Flag)
  | help
  | version
  | unknown (option : String)
  | path (text : String)
deriving DecidableEq, Repr

def Argument.ofString (s : String) : Argument :=
  match s with
  | "--json" => .flag .json
  | "--stdin" => .flag .stdin
  | "--no-warnings" => .flag .noWarnings
  | "--unique" => .flag .unique
  | "--no-parallel" => .flag .noParallel
  | "--no-ignore" => .flag .noIgnore
  | "--verbose" | "-v" => .flag .verbose
  | "--help" | "-h" => .help
  | "--version" | "-V" => .version
  | s => if s.toList.head? == some '-' then .unknown s else .path s

/-! ### Options -/

structure Options where
  /-- Files and directories to scan; none if standard input is scanned. -/
  paths : List Path
  json : Bool
  stdin : Bool
  noWarnings : Bool
  unique : Bool
  /-- Files may be scanned side by side, which changes no result, and no more of a failure
      than which file it names. -/
  parallel : Bool
  noIgnore : Bool
  /-- Ask for a log, on which no result depends. -/
  verbose : Bool
deriving DecidableEq, Repr

namespace Options

def initial : Options where
  paths := []
  json := false
  stdin := false
  noWarnings := false
  unique := false
  parallel := true
  noIgnore := false
  verbose := false

def set (o : Options) : Flag → Options
  | .json => { o with json := true }
  | .stdin => { o with stdin := true }
  | .noWarnings => { o with noWarnings := true }
  | .unique => { o with unique := true }
  | .noParallel => { o with parallel := false }
  | .noIgnore => { o with noIgnore := true }
  | .verbose => { o with verbose := true }

def addPath (o : Options) (text : String) : Options := { o with paths := o.paths ++ [.mk text] }

end Options

/-! ### All arguments -/

inductive UsageError where
  | unknownOption (option : String)
  | pathsWithStdin
deriving DecidableEq, Repr

def UsageError.message : UsageError → String
  | .unknownOption option => "unknown option: " ++ option
  | .pathsWithStdin => "cannot specify paths with --stdin"

inductive Command where
  | scan (options : Options)
  | help
  | version
deriving DecidableEq, Repr

/-- The command for the options, once all arguments are read.  Without a path the
    working directory is scanned, and standard input goes with no path. -/
def Options.toCommand (o : Options) : Except UsageError Command :=
  if o.stdin then
    if o.paths.isEmpty then .ok (.scan o) else .error .pathsWithStdin
  else if o.paths.isEmpty then .ok (.scan { o with paths := [⟨"."⟩] })
  else .ok (.scan o)

def Command.read (o : Options) : List String → Except UsageError Command
  | [] => o.toCommand
  | s :: rest =>
    match Argument.ofString s with
    | .flag f => Command.read (o.set f) rest
    | .help => .ok .help
    | .version => .ok .version
    | .unknown option => .error (.unknownOption option)
    | .path text => Command.read (o.addPath text) rest

def Command.ofArguments (arguments : List String) : Except UsageError Command :=
  Command.read .initial arguments

end ModuleScan
