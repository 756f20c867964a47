import BranchBound.Decimal.Literal
import BranchBound.Table.Basic

/-!
# Numbers in tables

A matrix takes every column of a table, a vector the column of a given name.
Data rows are counted from one.
-/

namespace BranchBound.Table

inductive Fault where
  | badHeader (fault : RecordFault)
  | badRecord (row : Nat) (fault : RecordFault)
  | notNumber (row : Nat) (column text : String) (fault : Decimal.LiteralFault)
  | missingColumn (name : String) (header : List String)
  | missingCell (row : Nat) (column : String)
  deriving DecidableEq, Repr

/-- The message of a fault, then those of its causes. -/
def Fault.messages : Fault → List String
  | .badHeader fault => ["Failed to read header row", fault.message]
  | .badRecord row fault => [s!"Failed to read row {row}", fault.message]
  | .notNumber row column text fault =>
    [s!"row {row}, column '{column}': '{text}' is not a number", fault.message]
  | .missingColumn name header =>
    let found := ", ".intercalate header
    [s!"missing column '{name}' (found: {found})"]
  | .missingCell row column => [s!"row {row} has no column '{column}'"]

def readCell (row : Nat) (column text : String) : Except Fault Float :=
  match Decimal.read text with
  | .ok v => .ok v
  | .error fault => .error (.notNumber row column text fault)

def readCells (row : Nat) : (header : List String) → (record : List String) →
    Except Fault (List Float)
  | column :: header, text :: record =>
    match readCell row column text with
    | .error fault => .error fault
    | .ok v => (readCells row header record).map (v :: ·)
  | _, _ => .ok []

def readCellAt (name : String) (index row : Nat) (record : List String) : Except Fault Float :=
  match record[index]? with
  | none => .error (.missingCell row name)
  | some text => readCell row name text

/-- Reads each record by `f`, which is told the number of its row, up to the first that cannot be
read. -/
def readEach {β : Type} (f : Nat → List String → Except Fault β) :
    (row : Nat) → List (Except RecordFault (List String)) → Except Fault (List β)
  | _, [] => .ok []
  | row, .error fault :: _ => .error (.badRecord row fault)
  | row, .ok record :: rest =>
    match f row record with
    | .error fault => .error fault
    | .ok v => (readEach f (row + 1) rest).map (v :: ·)

/-- The numbers of a table, with a row for each record and a column for each field. -/
def matrix (table : Table) : Except Fault (List (List Float)) :=
  readEach (fun row record => readCells row table.header record) 1 table.records

/-- The numbers in the first column with the given name. -/
def vector (table : Table) (name : String) : Except Fault (List Float) :=
  match table.header.findIdx? (· == name) with
  | none => .error (.missingColumn name table.header)
  | some index => readEach (readCellAt name index) 1 table.records

def readMatrix (bytes : List UInt8) : Except Fault (List (List Float)) :=
  match ofBytes bytes with
  | .error fault => .error (.badHeader fault)
  | .ok table => table.matrix

def readVector (bytes : List UInt8) (name : String) : Except Fault (List Float) :=
  match ofBytes bytes with
  | .error fault => .error (.badHeader fault)
  | .ok table => table.vector name

end BranchBound.Table
