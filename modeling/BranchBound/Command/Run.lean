import BranchBound.Command.Arguments
import BranchBound.Report
import BranchBound.Search.Solve
import BranchBound.Table.Cells

/-!
# The command

Reads the three files of a program, solves it and reports. All of it is a
function of what the files hold; the writing of the report is left to the
caller, who tells whether it succeeded.
-/

namespace BranchBound.Command

inductive Part where
  | matrix
  | rhs
  | objective
  deriving DecidableEq, Repr

def Part.name : Part → String
  | .matrix => "matrix"
  | .rhs => "b"
  | .objective => "c"

inductive Failure where
  | cannotOpen (path : String) (fault : FileFault)
  | cannotParse (part : Part) (path : String) (fault : Table.Fault)
  | invalidProgram (fault : Integer.Fault)
  | notSolved (error : Error Float)
  | cannotWrite (path : String) (fault : FileFault)
  deriving DecidableEq, Repr

/-- The message of a failure, then those of its causes. -/
def Failure.messages : Failure → List String
  | .cannotOpen path fault => [s!"Failed to open file {path}", fault.message]
  | .cannotParse part path fault =>
    ("Failed to parse " ++ part.name ++ " from " ++ path) :: fault.messages
  | .invalidProgram fault => ["Input files do not describe a valid problem", fault.message]
  | .notSolved error => "Solve failed" :: error.messages
  | .cannotWrite path fault => [s!"Failed to write report to {path}", fault.message]

/-! ### Error reports -/

/-- `text` behind `first`, its further lines behind `others`. -/
def hanging (first others text : String) : String :=
  first ++ ("\n" ++ others).intercalate (text.splitOn "\n") ++ "\n"

/-- A message with its causes; several causes are numbered. -/
def errorReport : List String → String
  | [] => ""
  | [outer] => s!"Error: {outer}\n"
  | [outer, cause] => s!"Error: {outer}\n\nCaused by:\n" ++ hanging "    " "    " cause
  | outer :: causes =>
    let numbered := causes.mapIdx fun index cause =>
      hanging (Decimal.padLeft 5 (toString index) ++ ": ") "       " cause
    s!"Error: {outer}\n\nCaused by:\n" ++ String.join numbered

/-! ### Loading -/

def loadPart {β : Type} (look : String → Contents) (part : Part) (path : String)
    (parse : List UInt8 → Except Table.Fault β) : Except Failure β :=
  match look path with
  | .closed fault => .error (.cannotOpen path fault)
  | .unreadable fault => .error (.cannotParse part path (.badHeader (.unreadable fault)))
  | .bytes data =>
    match parse data with
    | .ok value => .ok value
    | .error fault => .error (.cannotParse part path fault)

def rhsColumn : String := "b"

def objectiveColumn : String := "c"

def load (look : String → Contents) (a : Arguments) : Except Failure (Integer.Program Float) := do
  let rows ← loadPart look .matrix (a.resolve a.matrix) Table.readMatrix
  let rhs ← loadPart look .rhs (a.resolve a.rhs) (Table.readVector · rhsColumn)
  let objective ← loadPart look .objective (a.resolve a.objective)
    (Table.readVector · objectiveColumn)
  return { rows, rhs, objective }

/-! ### Solving -/

structure Work where
  result : Except Failure (Search.Solution Float)
  log : List (Event Float)

def work (look : String → Contents) (a : Arguments) : Work :=
  match load look a with
  | .error failure => ⟨.error failure, []⟩
  | .ok p =>
    let loaded : Event Float := .programLoaded p.rows.length p.vars
    match p.fault? with
    | some fault => ⟨.error (.invalidProgram fault), [loaded]⟩
    | none =>
      let solved := Search.solve p a.settings
      match solved.result with
      | .error e => ⟨.error (.notSolved e), loaded :: solved.log⟩
      | .ok solution =>
        ⟨.ok solution, loaded :: solved.log ++
          [.solveFinished solution.outcome solution.counters.explored]⟩

/-! ### Ending -/

structure Exit where
  code : Nat
  stdout : String := ""
  stderr : String := ""
  deriving DecidableEq, Repr

inductive Ending where
  | exit (exit : Exit)
  /-- The report is to be written first, which may fail. -/
  | write (path text : String) (journal : String)

/-- The journal as lines of text, with progress only if asked for. -/
def journalText (a : Arguments) (elapsedMs : Nat) (log : List (Event Float)) : String :=
  let level := if a.verbose then .info else .warn
  String.join ((Journal.lines level elapsedMs log).map (· ++ "\n"))

def failed (journal : String) (failure : Failure) : Exit :=
  { code := 1, stderr := journal ++ errorReport failure.messages }

def Work.ending (w : Work) (a : Arguments) (elapsedMs : Nat) : Ending :=
  let journal := journalText a elapsedMs w.log
  match w.result with
  | .error failure => .exit (failed journal failure)
  | .ok solution =>
    let text := (Report.ofSolution solution elapsedMs).render a.json
    match a.output with
    | none => .exit { code := 0, stdout := text, stderr := journal }
    | some path => .write path text journal

/-- The exit after the report was written, or refused. -/
def written (path journal : String) (fault : Option FileFault) : Exit :=
  match fault with
  | none => { code := 0, stderr := journal }
  | some fault => failed journal (.cannotWrite path fault)

def versionExit : Exit :=
  { code := 0, stdout := "solver-cli 0.1.0\n" }

def usageExit : Exit :=
  { code := 0, stdout := "Usage: ilp-solve [OPTIONS]\n" }

def refused (fault : UsageFault) : Exit :=
  { code := 2, stderr := "error: " ++ fault.message ++ "\n" }

end BranchBound.Command
