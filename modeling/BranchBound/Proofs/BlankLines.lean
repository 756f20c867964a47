import BranchBound.Proofs.TableReaders

/-!
# Blank lines

The scanner passes over a line end where no record is open, so a blank line adds no record: the readers give the same
answer with it, and faults of the same row that differ at most in the place they name (`readMatrix_blankLine`,
`readVector_blankLine`).
-/

namespace BranchBound.Table

/-! ### The scanner -/

def RawRecord.unplaced (raw : RawRecord) : RawRecord :=
  { raw with place := {} }

namespace Scanner

/-- Scanners that differ at most in where they are and where their records began. -/
structure Alike (s u : Scanner) : Prop where
  mode : s.mode = u.mode
  records : s.records.map RawRecord.unplaced = u.records.map RawRecord.unplaced

section Alike
variable {s u : Scanner}

theorem Alike.finishRecord (alike : Alike s u) (field : List UInt8) (fields : List (List UInt8)) :
    Alike (s.finishRecord field fields) (u.finishRecord field fields) :=
  ⟨rfl, by simp [Scanner.finishRecord, RawRecord.unplaced, alike.records]⟩

theorem Alike.inField (alike : Alike s u) (b : UInt8) (field : List UInt8) (fields : List (List UInt8)) :
    Alike (s.inField b field fields) (u.inField b field fields) := by
  unfold Scanner.inField
  split
  · exact ⟨rfl, alike.records⟩
  · split
    · exact alike.finishRecord field fields
    · exact ⟨rfl, alike.records⟩

theorem Alike.atField (alike : Alike s u) (b : UInt8) (fields : List (List UInt8)) :
    Alike (s.atField b fields) (u.atField b fields) := by
  unfold Scanner.atField
  split
  · exact ⟨rfl, alike.records⟩
  · exact alike.inField b [] fields

theorem Alike.step (alike : Alike s u) (b : UInt8) : Alike (s.step b) (u.step b) := by
  have moved : Alike { s with place := s.place.after b } { u with place := u.place.after b } :=
    ⟨alike.mode, alike.records⟩
  have mode := alike.mode
  unfold Scanner.step
  dsimp only
  rw [← mode]
  cases s.mode with
  | between =>
    dsimp only
    split
    · exact ⟨rfl, alike.records⟩
    · exact moved.atField b []
  | fresh fields => exact moved.atField b fields
  | bare field fields => exact moved.inField b field fields
  | quoted field fields => exact ⟨rfl, alike.records⟩
  | closing field fields =>
    dsimp only
    split
    · exact ⟨rfl, alike.records⟩
    · exact moved.inField b field fields

theorem Alike.foldl (alike : Alike s u) (bytes : List UInt8) :
    Alike (bytes.foldl Scanner.step s) (bytes.foldl Scanner.step u) := by
  induction bytes generalizing s u with
  | nil => exact alike
  | cons b rest ih => exact ih (alike.step b)

theorem Alike.finish (alike : Alike s u) : Alike s.finish u.finish := by
  have mode := alike.mode
  unfold Scanner.finish
  rw [← mode]
  cases s.mode with
  | between => exact alike
  | fresh fields => exact alike.finishRecord [] fields
  | bare field fields => exact alike.finishRecord field fields
  | quoted field fields => exact alike.finishRecord field fields
  | closing field fields => exact alike.finishRecord field fields

/-- Where no record is open, a line end only moves the scanner on. -/
theorem alike_lineEnd (between : s.mode = .between) {b : UInt8} (ends : endsRecord b = true) : Alike (s.step b) s := by
  unfold Scanner.step
  dsimp only
  rw [between]
  dsimp only
  rw [if_pos ends]
  exact ⟨between ▸ rfl, rfl⟩

end Alike

end Scanner

def byteOrderMark : List UInt8 :=
  [0xEF, 0xBB, 0xBF]

theorem scanner_mark (rest : List UInt8) :
    scanner (byteOrderMark ++ rest) = rest.foldl Scanner.step { place := { byte := 3 } } := rfl

theorem scanner_of_not_mark {bytes : List UInt8} (unmarked : ¬byteOrderMark <+: bytes) :
    scanner bytes = bytes.foldl Scanner.step {} := by
  unfold scanner
  split
  · rename_i rest
    exact absurd ⟨rest, rfl⟩ unmarked
  · rfl

/-- What follows an input without an open record is scanned from there on; a byte order mark counts only at the start. -/
theorem scanner_append {before rest : List UInt8} (between : (scanner before).mode = .between)
    (unmarked : before = [] → ¬byteOrderMark <+: rest) :
    scanner (before ++ rest) = rest.foldl Scanner.step (scanner before) := by
  by_cases marked : byteOrderMark <+: before
  · obtain ⟨middle, rfl⟩ := marked
    rw [List.append_assoc, scanner_mark, scanner_mark, List.foldl_append]
  · have whole : ¬byteOrderMark <+: before ++ rest := by
      intro marks
      rcases List.prefix_or_prefix_of_prefix marks (List.prefix_append before rest) with inside | part
      · exact marked inside
      · -- a part of the mark opens a record, unless it is empty
        simp only [byteOrderMark, List.prefix_cons_iff, List.prefix_nil] at part
        rcases part with rfl | ⟨-, rfl, rfl | ⟨-, rfl, rfl | ⟨-, rfl, rfl⟩⟩⟩
        · exact unmarked rfl marks
        · exact absurd between (by decide)
        · exact absurd between (by decide)
        · exact marked (List.prefix_refl _)
    rw [scanner_of_not_mark marked, scanner_of_not_mark whole, List.foldl_append]

/-- A line end where no record is open adds no record. -/
theorem scan_blankLine {before rest : List UInt8} {b : UInt8} (between : (scanner before).mode = .between)
    (ends : Scanner.endsRecord b = true) (unmarked : before = [] → ¬byteOrderMark <+: rest) :
    (scan (before ++ b :: rest)).map RawRecord.unplaced = (scan (before ++ rest)).map RawRecord.unplaced := by
  have lineEnd : before = [] → ¬byteOrderMark <+: b :: rest := by
    rintro - marks
    have first := (List.cons_prefix_cons.mp marks).1
    rw [← first] at ends
    cases ends
  have alike := ((Scanner.alike_lineEnd between ends).foldl rest).finish
  unfold scan
  rw [scanner_append between lineEnd, scanner_append between unmarked, List.map_reverse, List.map_reverse,
    List.foldl_cons, alike.records]

/-! ### Places -/

def RecordFault.unplaced : RecordFault → RecordFault
  | .unequalLength record _ length expected => .unequalLength record {} length expected
  | .notText record _ field valid => .notText record {} field valid
  | .unreadable fault => .unreadable fault

/-- A fault without the place in the input that it names. -/
def Fault.unplaced : Fault → Fault
  | .badHeader fault => .badHeader fault.unplaced
  | .badRecord row fault => .badRecord row fault.unplaced
  | fault => fault

theorem decodeFields_unplaced (record : Nat) (place : Place) (field : Nat) (raw : List (List UInt8)) :
    decodeFields record {} field raw = (decodeFields record place field raw).mapError RecordFault.unplaced := by
  induction raw generalizing field with
  | nil => rfl
  | cons bytes rest ih =>
    rw [decodeFields, decodeFields, ih]
    cases Text.decode bytes with
    | error valid => rfl
    | ok chars => cases decodeFields record place (field + 1) rest <;> rfl

theorem readRecord_unplaced (expected record : Nat) (raw : RawRecord) :
    readRecord expected record raw.unplaced = (readRecord expected record raw).mapError RecordFault.unplaced := by
  unfold readRecord
  rw [show raw.unplaced.fields = raw.fields from rfl, show raw.unplaced.place = {} from rfl]
  split
  · rfl
  · exact decodeFields_unplaced _ _ _ _

def unplaced (table : Table) : Table :=
  { table with records := table.records.map (·.mapError RecordFault.unplaced) }

theorem ofRecords_unplaced (raws : List RawRecord) :
    ofRecords (raws.map RawRecord.unplaced) = ((ofRecords raws).mapError RecordFault.unplaced).map unplaced := by
  obtain _ | ⟨first, rest⟩ := raws
  · rfl
  · rw [List.map_cons, ofRecords, ofRecords, show first.unplaced.fields = first.fields from rfl,
      show first.unplaced.place = {} from rfl, decodeFields_unplaced 0 first.place]
    cases decodeFields 0 first.place 0 first.fields with
    | error fault => rfl
    | ok header =>
      have records : (rest.map RawRecord.unplaced).mapIdx (fun i raw => readRecord first.fields.length (i + 1) raw) =
          (rest.mapIdx fun i raw => readRecord first.fields.length (i + 1) raw).map
            (·.mapError RecordFault.unplaced) := by
        apply List.ext_getElem?
        intro i
        simp [List.getElem?_mapIdx, Function.comp_def, readRecord_unplaced]
      show Except.ok _ = Except.ok _
      rw [records]
      rfl

/-! ### Faults -/

section Each
variable {β : Type} {f : Nat → List String → Except Fault β}

theorem readEach_unplaced (plain : ∀ row record fault, f row record = .error fault → fault.unplaced = fault) (row : Nat)
    (records : List (Except RecordFault (List String))) :
    readEach f row (records.map (·.mapError RecordFault.unplaced)) = (readEach f row records).mapError Fault.unplaced := by
  induction records generalizing row with
  | nil => rfl
  | cons entry rest ih =>
    cases entry with
    | error fault => rfl
    | ok record =>
      rw [List.map_cons, Except.mapError, readEach, readEach, ih]
      cases failed : f row record with
      | error fault =>
        dsimp only [Except.mapError]
        rw [plain row record fault failed]
      | ok v => cases readEach f (row + 1) rest <;> rfl

end Each

theorem unplaced_of_readCell {row : Nat} {column text : String} {fault : Fault}
    (failed : readCell row column text = .error fault) : fault.unplaced = fault := by
  unfold readCell at failed
  split at failed
  · cases failed
  · cases failed
    rfl

theorem unplaced_of_readCellAt {name : String} {index row : Nat} {record : List String} {fault : Fault}
    (failed : readCellAt name index row record = .error fault) : fault.unplaced = fault := by
  unfold readCellAt at failed
  split at failed
  · cases failed
    rfl
  · exact unplaced_of_readCell failed

theorem unplaced_of_readCells {row : Nat} {header record : List String} {fault : Fault}
    (failed : readCells row header record = .error fault) : fault.unplaced = fault := by
  fun_induction readCells row header record with
  | case1 column header text record first here =>
    cases failed
    exact unplaced_of_readCell here
  | case2 column header text record v read ih => exact ih (map_eq_error.mp failed)
  | case3 => cases failed

theorem matrix_unplaced (table : Table) : table.unplaced.matrix = table.matrix.mapError Fault.unplaced :=
  readEach_unplaced (fun _ _ _ => unplaced_of_readCells) _ _

theorem vector_unplaced (table : Table) (name : String) :
    table.unplaced.vector name = (table.vector name).mapError Fault.unplaced := by
  unfold vector
  rw [show table.unplaced.header = table.header from rfl]
  cases table.header.findIdx? (· == name) with
  | none => rfl
  | some index => exact readEach_unplaced (fun _ _ _ => unplaced_of_readCellAt) _ _

/-! ### Blank lines -/

section BlankLine
variable {before rest : List UInt8} {b : UInt8}

/-- Without places, a blank line leaves the table as it is. -/
theorem ofBytes_blankLine (between : (scanner before).mode = .between) (ends : Scanner.endsRecord b = true)
    (unmarked : before = [] → ¬byteOrderMark <+: rest) :
    ((ofBytes (before ++ b :: rest)).mapError RecordFault.unplaced).map unplaced =
      ((ofBytes (before ++ rest)).mapError RecordFault.unplaced).map unplaced := by
  unfold ofBytes
  rw [← ofRecords_unplaced, ← ofRecords_unplaced, scan_blankLine between ends unmarked]

theorem readMatrix_unplaced (bytes : List UInt8) : (readMatrix bytes).mapError Fault.unplaced =
    match ((ofBytes bytes).mapError RecordFault.unplaced).map unplaced with
    | .error fault => .error (.badHeader fault)
    | .ok table => table.matrix := by
  unfold readMatrix
  cases ofBytes bytes with
  | error fault => rfl
  | ok table => exact (matrix_unplaced table).symm

theorem readVector_unplaced (bytes : List UInt8) (name : String) : (readVector bytes name).mapError Fault.unplaced =
    match ((ofBytes bytes).mapError RecordFault.unplaced).map unplaced with
    | .error fault => .error (.badHeader fault)
    | .ok table => table.vector name := by
  unfold readVector
  cases ofBytes bytes with
  | error fault => rfl
  | ok table => exact (vector_unplaced table name).symm

theorem readMatrix_blankLine (between : (scanner before).mode = .between) (ends : Scanner.endsRecord b = true)
    (unmarked : before = [] → ¬byteOrderMark <+: rest) :
    (readMatrix (before ++ b :: rest)).mapError Fault.unplaced =
      (readMatrix (before ++ rest)).mapError Fault.unplaced := by
  rw [readMatrix_unplaced, readMatrix_unplaced, ofBytes_blankLine between ends unmarked]

theorem readVector_blankLine (between : (scanner before).mode = .between) (ends : Scanner.endsRecord b = true)
    (unmarked : before = [] → ¬byteOrderMark <+: rest) (name : String) :
    (readVector (before ++ b :: rest) name).mapError Fault.unplaced =
      (readVector (before ++ rest) name).mapError Fault.unplaced := by
  rw [readVector_unplaced, readVector_unplaced, ofBytes_blankLine between ends unmarked]

end BlankLine

end BranchBound.Table
