import BranchBound.Files.Fault
import BranchBound.Table.Scanner
import BranchBound.Text.Blank
import BranchBound.Text.Utf8

/-!
# Tables

A table has a header and records of as many fields. Fields are UTF-8 text
without blanks at their ends.
-/

namespace BranchBound

namespace Table

/-- Why a record cannot be read. Records are counted from the header, which is record zero. -/
inductive RecordFault where
  | unequalLength (record : Nat) (place : Place) (length expected : Nat)
  | notText (record : Nat) (place : Place) (field valid : Nat)
  /-- The file itself cannot be read. -/
  | unreadable (fault : FileFault)
  deriving DecidableEq, Repr

def RecordFault.message : RecordFault → String
  | .unequalLength record place length expected =>
    let line := place.line
    let byte := place.byte
    s!"CSV error: record {record} (line: {line}, byte: {byte}): " ++
      s!"found record with {length} fields, but the previous record has {expected} fields"
  | .notText record place field valid =>
    let line := place.line
    let byte := place.byte
    s!"CSV parse error: record {record} (line {line}, field: {field}, byte: {byte}): " ++
      s!"invalid utf-8: invalid UTF-8 in field {field} near byte index {valid}"
  | .unreadable fault => fault.message

end Table

structure Table where
  header : List String
  records : List (Except Table.RecordFault (List String))

namespace Table

/-- The fields of `raw` as trimmed text, from position `field` on. -/
def decodeFields (record : Nat) (place : Place) :
    (field : Nat) → List (List UInt8) → Except RecordFault (List String)
  | _, [] => .ok []
  | field, bytes :: rest =>
    match Text.decode bytes with
    | .error valid => .error (.notText record place field valid)
    | .ok chars =>
      (decodeFields record place (field + 1) rest).map (String.ofList (Text.trim chars) :: ·)

/-- Reads a record of `expected` fields. Their ASCII blanks go before the text is decoded. -/
def readRecord (expected record : Nat) (raw : RawRecord) : Except RecordFault (List String) :=
  if raw.fields.length ≠ expected then
    .error (.unequalLength record raw.place raw.fields.length expected)
  else decodeFields record raw.place 0 (raw.fields.map Text.trimBytes)

/-- The table of some records, of which the first is the header. Without any the header is empty. -/
def ofRecords : List RawRecord → Except RecordFault Table
  | [] => .ok ⟨[], []⟩
  | first :: rest =>
    (decodeFields 0 first.place 0 first.fields).map fun header =>
      ⟨header, rest.mapIdx fun i raw => readRecord first.fields.length (i + 1) raw⟩

def ofBytes (bytes : List UInt8) : Except RecordFault Table :=
  ofRecords (scan bytes)

end Table

end BranchBound
