import BranchBound.Command.Run

/-!
# The command line program

Reads the files, runs the command, writes what it gives.
-/

namespace BranchBound.Command

/-- The operating system's number of an error, which some calls report negated. -/
def errorNumber (code : UInt32) : Nat :=
  (if code > 0x7FFFFFFF then 0 - code else code).toNat

def faultOf (e : IO.Error) : FileFault :=
  match e with
  | .alreadyExists _ code text | .interrupted _ code text | .noFileOrDirectory _ code text
  | .invalidArgument _ code text | .permissionDenied _ code text | .resourceExhausted _ code text
  | .inappropriateType _ code text | .noSuchThing _ code text | .otherError code text
  | .resourceBusy code text | .resourceVanished code text | .unsupportedOperation code text
  | .hardwareFault code text | .unsatisfiedConstraints code text | .illegalOperation code text
  | .protocolError code text | .timeExpired code text => .ofNumber text (errorNumber code)
  | .unexpectedEof | .userError _ => .other (toString e) 0

/-- Reads a file. A directory can be opened and not read. -/
def lookUp (path : String) : IO Contents := do
  try
    return .bytes (← IO.FS.readBinFile path).toList
  catch e =>
    match faultOf e with
    | .isDirectory => return .unreadable .isDirectory
    | fault => return .closed fault

def store (path text : String) : IO (Option FileFault) := do
  try
    IO.FS.withFile path .write fun handle => do
      handle.putStr text
      handle.flush
    return none
  catch e => return some (faultOf e)

def finish (exit : Exit) : IO UInt32 := do
  IO.print exit.stdout
  IO.eprint exit.stderr
  return exit.code.toUInt32

def runSolve (a : Arguments) : IO UInt32 := do
  let start ← IO.monoMsNow
  let paths := [a.matrix, a.rhs, a.objective].map a.resolve
  let found ← paths.mapM fun path => return (path, ← lookUp path)
  let done := work (fun path => (found.lookup path).getD (.closed .notFound)) a
  let elapsed := (← IO.monoMsNow) - start
  match done.ending a elapsed with
  | .exit exit => finish exit
  | .write path text journal =>
    IO.eprint journal
    finish (written path "" (← store path text))

end BranchBound.Command

open BranchBound Command in
def main (arguments : List String) : IO UInt32 :=
  match Command.read arguments with
  | .error fault => finish (refused fault)
  | .ok .version => finish versionExit
  | .ok .usage => finish usageExit
  | .ok (.solve a) => runSolve a
