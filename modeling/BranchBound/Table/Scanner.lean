/-!
# Scanning comma-separated records

A record is a line of fields between commas. A quote at the start of a field
opens a quoted part, in which two quotes stand for one; after its end the field
goes on as it is. A record ends at a line feed or a carriage return, and empty
lines are passed over. The scanner reads byte by byte, without regard to the
encoding.
-/

namespace BranchBound.Table

/-- A position in the input: bytes read, and one more than the line feeds among them. -/
structure Place where
  byte : Nat := 0
  line : Nat := 1
  deriving DecidableEq, Repr

def Place.after (p : Place) (b : UInt8) : Place :=
  { byte := p.byte + 1, line := if b == 0x0A then p.line + 1 else p.line }

/-- The fields of a record, and the place at which its reading began. -/
structure RawRecord where
  place : Place
  fields : List (List UInt8)
  deriving DecidableEq, Repr

/-- Where the scanner is. The fields of a record and the bytes of a field are latest first. -/
inductive Mode where
  /-- Before a record. -/
  | between
  /-- Before a field. -/
  | fresh (fields : List (List UInt8))
  | bare (field : List UInt8) (fields : List (List UInt8))
  | quoted (field : List UInt8) (fields : List (List UInt8))
  /-- After a quote in a quoted part, which may be its end. -/
  | closing (field : List UInt8) (fields : List (List UInt8))
  deriving DecidableEq, Repr

/-- The scanner: the next byte's place, the place where the record's reading began, and the
records so far, latest first. -/
structure Scanner where
  place : Place := {}
  start : Place := {}
  mode : Mode := .between
  records : List RawRecord := []
  deriving DecidableEq, Repr

namespace Scanner

def comma : UInt8 := 0x2C

def quote : UInt8 := 0x22

def endsRecord (b : UInt8) : Bool :=
  b == 0x0A || b == 0x0D

def finishRecord (s : Scanner) (field : List UInt8) (fields : List (List UInt8)) : Scanner :=
  { s with
    start := s.place
    mode := .between
    records := ⟨s.start, (field.reverse :: fields).reverse⟩ :: s.records }

/-- Reads `b` in a field that is not quoted. -/
def inField (s : Scanner) (b : UInt8) (field : List UInt8) (fields : List (List UInt8)) :
    Scanner :=
  if b == comma then { s with mode := .fresh (field.reverse :: fields) }
  else if endsRecord b then s.finishRecord field fields
  else { s with mode := .bare (b :: field) fields }

def atField (s : Scanner) (b : UInt8) (fields : List (List UInt8)) : Scanner :=
  if b == quote then { s with mode := .quoted [] fields } else s.inField b [] fields

def step (s : Scanner) (b : UInt8) : Scanner :=
  let s := { s with place := s.place.after b }
  match s.mode with
  | .between => if endsRecord b then s else s.atField b []
  | .fresh fields => s.atField b fields
  | .bare field fields => s.inField b field fields
  | .quoted field fields =>
    { s with mode := if b == quote then .closing field fields else .quoted (b :: field) fields }
  | .closing field fields =>
    if b == quote then { s with mode := .quoted (quote :: field) fields }
    else s.inField b field fields

/-- Ends the last record, also within a quoted part. -/
def finish (s : Scanner) : Scanner :=
  match s.mode with
  | .between => s
  | .fresh fields => s.finishRecord [] fields
  | .bare field fields => s.finishRecord field fields
  | .quoted field fields => s.finishRecord field fields
  | .closing field fields => s.finishRecord field fields

end Scanner

/-- The scanner after `bytes`. A byte order mark at the start is passed over. -/
def scanner (bytes : List UInt8) : Scanner :=
  match bytes with
  | 0xEF :: 0xBB :: 0xBF :: rest => rest.foldl Scanner.step { place := { byte := 3 } }
  | _ => bytes.foldl Scanner.step {}

/-- The records of `bytes` in order. -/
def scan (bytes : List UInt8) : List RawRecord :=
  (scanner bytes).finish.records.reverse

end BranchBound.Table
