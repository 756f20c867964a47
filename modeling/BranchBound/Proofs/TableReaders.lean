import Mathlib.Data.Nat.Find
import BranchBound.Table.Cells

/-!
# Readers of a table

A table is read record by record, up to the first that cannot be read: there is a value for every record
(`readEach_eq_ok`) or the fault of the first one (`failsAt_of_readEach`). Of a table the readers need no more than that
its records are as long as its header (`Rectangular`): where its matrix can be read, so can each of its columns
(`vector_of_matrix`). The tables of comma-separated bytes are such (`readVector_of_readMatrix`).
-/

namespace BranchBound.Table

section Except
variable {ε α β : Type} {e : Except ε α} {g : α → β}

theorem map_eq_ok {b : β} : e.map g = .ok b ↔ ∃ a, e = .ok a ∧ g a = b := by
  cases e with
  | error fault => simp [Except.map]
  | ok a => simp [Except.map]

theorem map_eq_error {fault : ε} : e.map g = .error fault ↔ e = .error fault := by
  cases e with
  | error fault => simp [Except.map]
  | ok a => simp [Except.map]

end Except

/-! ### Records -/

/-- The records that could be read have a field for each name in the header. -/
def Rectangular (table : Table) : Prop :=
  ∀ record, .ok record ∈ table.records → record.length = table.header.length

theorem length_decodeFields {record field : Nat} {place : Place} {raw : List (List UInt8)} {fields : List String}
    (decoded : decodeFields record place field raw = .ok fields) : fields.length = raw.length := by
  induction raw generalizing field fields with
  | nil =>
    cases decoded
    rfl
  | cons bytes rest ih =>
    rw [decodeFields] at decoded
    split at decoded
    · cases decoded
    · obtain ⟨others, read, rfl⟩ := map_eq_ok.mp decoded
      simp [ih read]

theorem length_readRecord {expected record : Nat} {raw : RawRecord} {fields : List String}
    (read : readRecord expected record raw = .ok fields) : fields.length = expected := by
  unfold readRecord at read
  split at read
  · cases read
  · rename_i same
    rw [length_decodeFields read, List.length_map]
    exact not_not.mp same

theorem rectangular_ofBytes {bytes : List UInt8} {table : Table} (read : ofBytes bytes = .ok table) :
    table.Rectangular := by
  unfold ofBytes ofRecords at read
  split at read
  · cases read
    simp [Rectangular]
  · obtain ⟨header, decoded, rfl⟩ := map_eq_ok.mp read
    intro record member
    obtain ⟨i, inside, same⟩ := List.mem_mapIdx.mp member
    rw [length_readRecord same, length_decodeFields decoded]

/-! ### From record to record -/

section Each
variable {β : Type} {f : Nat → List String → Except Fault β} {row : Nat}
  {records : List (Except RecordFault (List String))}

theorem readEach_cons_eq_ok {record : List String} {rest : List (Except RecordFault (List String))} {values : List β} :
    readEach f row (.ok record :: rest) = .ok values ↔
      ∃ v others, f row record = .ok v ∧ readEach f (row + 1) rest = .ok others ∧ values = v :: others := by
  rw [readEach]
  cases f row record with
  | error fault => simp
  | ok v =>
    simp only [map_eq_ok]
    grind

theorem readEach_cons_eq_error {record : List String} {rest : List (Except RecordFault (List String))} {fault : Fault} :
    readEach f row (.ok record :: rest) = .error fault ↔ f row record = .error fault ∨
      (∃ v, f row record = .ok v) ∧ readEach f (row + 1) rest = .error fault := by
  rw [readEach]
  cases f row record with
  | error fault => simp
  | ok v => simp [map_eq_error]

theorem readEach_eq_ok {values : List β} : readEach f row records = .ok values ↔
    values.length = records.length ∧ ∀ i v, values[i]? = some v →
      ∃ record, records[i]? = some (.ok record) ∧ f (row + i) record = .ok v := by
  induction records generalizing row values with
  | nil =>
    rw [readEach, Except.ok.injEq]
    constructor
    · rintro rfl
      simp
    · rintro ⟨length, -⟩
      exact (List.length_eq_zero_iff.mp length).symm
  | cons entry rest ih =>
    cases entry with
    | error fault =>
      constructor
      · intro read
        cases read
      · rintro ⟨length, each⟩
        obtain _ | ⟨v, others⟩ := values
        · simp at length
        · obtain ⟨record, read, -⟩ := each 0 v rfl
          cases read
    | ok record =>
      rw [readEach_cons_eq_ok]
      constructor
      · rintro ⟨v, others, first, later, rfl⟩
        obtain ⟨length, each⟩ := ih.mp later
        refine ⟨by simp [length], ?_⟩
        intro i w found
        cases i with
        | zero => exact ⟨record, rfl, by simpa [first] using found⟩
        | succ i =>
          obtain ⟨next, read, value⟩ := each i w found
          exact ⟨next, read, by rw [← value]; congr 1; omega⟩
      · rintro ⟨length, each⟩
        obtain _ | ⟨v, others⟩ := values
        · simp at length
        · obtain ⟨same, read, first⟩ := each 0 v rfl
          cases read
          refine ⟨v, others, first, ih.mpr ⟨by simpa using length, ?_⟩, rfl⟩
          intro i w found
          obtain ⟨next, read, value⟩ := each (i + 1) w found
          exact ⟨next, read, by rw [← value]; congr 1; omega⟩

/-- What the record at position `i` is reported for. -/
def FailsAt (f : Nat → List String → Except Fault β) (row : Nat) (records : List (Except RecordFault (List String)))
    (i : Nat) (fault : Fault) : Prop :=
  (∃ refused, records[i]? = some (.error refused) ∧ fault = .badRecord (row + i) refused) ∨
    ∃ record, records[i]? = some (.ok record) ∧ f (row + i) record = .error fault

/-- A fault is that of the first record that cannot be read. -/
theorem failsAt_of_readEach {fault : Fault} (failed : readEach f row records = .error fault) :
    ∃ i, (∀ k < i, ∃ record v, records[k]? = some (.ok record) ∧ f (row + k) record = .ok v) ∧
      FailsAt f row records i fault := by
  induction records generalizing row with
  | nil => cases failed
  | cons entry rest ih =>
    cases entry with
    | error refused =>
      cases failed
      exact ⟨0, by simp, Or.inl ⟨refused, rfl, rfl⟩⟩
    | ok record =>
      rcases readEach_cons_eq_error.mp failed with here | ⟨⟨v, passed⟩, later⟩
      · exact ⟨0, by simp, Or.inr ⟨record, rfl, here⟩⟩
      · obtain ⟨i, before, fails⟩ := ih later
        have shift : ∀ k, row + 1 + k = row + (k + 1) := by omega
        refine ⟨i + 1, ?_, ?_⟩
        · intro k earlier
          cases k with
          | zero => exact ⟨record, v, rfl, passed⟩
          | succ k =>
            obtain ⟨next, w, read, value⟩ := before k (by omega)
            exact ⟨next, w, read, shift k ▸ value⟩
        · rw [FailsAt, shift] at fails
          exact fails

end Each

/-! ### Cells -/

theorem readCell_eq_ok {row : Nat} {column text : String} {v : Float} :
    readCell row column text = .ok v ↔ Decimal.read text = .ok v := by
  unfold readCell
  cases Decimal.read text <;> simp

theorem read_of_readCells {row : Nat} {header record : List String} {values : List Float}
    (same : record.length = header.length) (read : readCells row header record = .ok values) :
    record.map Decimal.read = values.map .ok := by
  induction header generalizing record values with
  | nil =>
    obtain rfl := List.length_eq_zero_iff.mp same
    cases read
    rfl
  | cons column header ih =>
    obtain _ | ⟨text, record⟩ := record
    · simp at same
    · rw [readCells] at read
      split at read
      · cases read
      · rename_i v first
        obtain ⟨others, later, rfl⟩ := map_eq_ok.mp read
        rw [List.map_cons, List.map_cons, readCell_eq_ok.mp first, ih (by simpa using same) later]

theorem readCellAt_eq_ok {name : String} {index row : Nat} {record : List String} {v : Float} :
    readCellAt name index row record = .ok v ↔ ∃ text, record[index]? = some text ∧ Decimal.read text = .ok v := by
  unfold readCellAt
  cases record[index]? with
  | none => simp
  | some text => simp [readCell_eq_ok]

/-! ### Matrices and their columns -/

/-- The position at which a name stands first in the header. -/
def FirstAt (header : List String) (name : String) (index : Nat) : Prop :=
  header[index]? = some name ∧ ∀ j < index, header[j]? ≠ some name

theorem FirstAt.findIdx? {header : List String} {name : String} {index : Nat} (first : FirstAt header name index) :
    header.findIdx? (· == name) = some index := by
  obtain ⟨inside, here⟩ := List.getElem?_eq_some_iff.mp first.1
  refine List.findIdx?_eq_some_iff_getElem.mpr ⟨inside, by simp [here], ?_⟩
  intro j earlier
  have other := first.2 j earlier
  rw [List.getElem?_eq_getElem (by omega)] at other
  simpa using other

theorem exists_firstAt {header : List String} {name : String} (member : name ∈ header) :
    ∃ index, FirstAt header name index := by
  have somewhere : ∃ index : Nat, header[index]? = some name := List.getElem?_of_mem member
  exact ⟨Nat.find somewhere, Nat.find_spec somewhere, fun j => Nat.find_min somewhere⟩

section Columns
variable {table : Table} {name : String} {index : Nat} {rows : List (List Float)}

theorem vector_eq (first : FirstAt table.header name index) :
    table.vector name = readEach (readCellAt name index) 1 table.records := by
  unfold vector
  rw [first.findIdx?]

theorem vector_of_notMem (absent : name ∉ table.header) :
    table.vector name = .error (.missingColumn name table.header) := by
  have none : table.header.findIdx? (· == name) = none := by
    rw [List.findIdx?_eq_none_iff]
    intro other member
    rw [beq_eq_false_iff_ne]
    rintro rfl
    exact absent member
  unfold vector
  rw [none]

/-- What a matrix that was read tells of a record: a number for each of its fields. -/
theorem record_of_matrix (rectangular : table.Rectangular) (read : table.matrix = .ok rows) {i : Nat}
    {row : List Float} (found : rows[i]? = some row) :
    ∃ record, table.records[i]? = some (.ok record) ∧ row.length = table.header.length ∧
      record.map Decimal.read = row.map .ok := by
  obtain ⟨record, held, cells⟩ := (readEach_eq_ok.mp read).2 i row found
  have wide := rectangular record (List.mem_of_getElem? held)
  have numbers := read_of_readCells wide cells
  have length := congrArg List.length numbers
  rw [List.length_map, List.length_map] at length
  exact ⟨record, held, length.symm.trans wide, numbers⟩

theorem column_of_matrix (rectangular : table.Rectangular) (read : table.matrix = .ok rows)
    (first : FirstAt table.header name index) :
    ∃ values, table.vector name = .ok values ∧ values.map some = rows.map (·[index]?) := by
  have inside : index < table.header.length := (List.getElem?_eq_some_iff.mp first.1).1
  have entries : ∀ row ∈ rows, some (row.getD index 0) = row[index]? := by
    intro row member
    obtain ⟨i, found⟩ := List.getElem?_of_mem member
    obtain ⟨-, -, length, -⟩ := record_of_matrix rectangular read found
    simp [List.getD_eq_getElem?_getD, length, inside]
  refine ⟨rows.map (·.getD index 0), ?_, by simpa using entries⟩
  rw [vector_eq first, readEach_eq_ok]
  constructor
  · simpa using (readEach_eq_ok.mp read).1
  · intro i v found
    rw [List.getElem?_map] at found
    obtain ⟨row, present, rfl⟩ := Option.map_eq_some_iff.mp found
    obtain ⟨record, held, -, numbers⟩ := record_of_matrix rectangular read present
    refine ⟨record, held, readCellAt_eq_ok.mpr ?_⟩
    have here := congrArg (·[index]?) numbers
    simp only [List.getElem?_map, ← entries row (List.mem_of_getElem? present), Option.map_some,
      Option.map_eq_some_iff] at here
    exact here

/-- Where the matrix of a table can be read, its rows have an entry for each name in the header, and the columns that
can be read are those the header names: each gives, record by record, the entries at the first position of its name. -/
theorem vector_of_matrix (rectangular : table.Rectangular) (read : table.matrix = .ok rows) :
    rows.length = table.records.length ∧ (∀ row ∈ rows, row.length = table.header.length) ∧
      ∀ name, ((∃ values, table.vector name = .ok values) ↔ name ∈ table.header) ∧
        ∀ index, FirstAt table.header name index →
          ∃ values, table.vector name = .ok values ∧ values.map some = rows.map (·[index]?) := by
  refine ⟨(readEach_eq_ok.mp read).1, ?_, ?_⟩
  · intro row member
    obtain ⟨i, found⟩ := List.getElem?_of_mem member
    obtain ⟨-, -, length, -⟩ := record_of_matrix rectangular read found
    exact length
  · refine fun name => ⟨⟨?_, ?_⟩, fun index => column_of_matrix rectangular read⟩
    · rintro ⟨values, succeeded⟩
      by_contra absent
      rw [vector_of_notMem absent] at succeeded
      cases succeeded
    · intro member
      obtain ⟨index, first⟩ := exists_firstAt member
      obtain ⟨values, succeeded, -⟩ := column_of_matrix rectangular read first
      exact ⟨values, succeeded⟩

end Columns

/-! ### Bytes -/

section Bytes
variable {bytes : List UInt8} {table : Table}

theorem readMatrix_eq (header : ofBytes bytes = .ok table) : readMatrix bytes = table.matrix := by
  unfold readMatrix
  rw [header]

theorem readVector_eq (header : ofBytes bytes = .ok table) (name : String) :
    readVector bytes name = table.vector name := by
  unfold readVector
  rw [header]

/-- Where a matrix can be read, its rows have an entry for each name in the header, and the columns that can be read
are those the header names: each gives, record by record, the entries at the first position of its name. -/
theorem readVector_of_readMatrix {rows : List (List Float)} (read : readMatrix bytes = .ok rows) :
    ∃ table, ofBytes bytes = .ok table ∧ rows.length = table.records.length ∧
      (∀ row ∈ rows, row.length = table.header.length) ∧
      ∀ name, ((∃ values, readVector bytes name = .ok values) ↔ name ∈ table.header) ∧
        ∀ index, FirstAt table.header name index →
          ∃ values, readVector bytes name = .ok values ∧ values.map some = rows.map (·[index]?) := by
  cases header : ofBytes bytes with
  | error fault =>
    rw [readMatrix, header] at read
    cases read
  | ok table =>
    rw [readMatrix_eq header] at read
    simp only [readVector_eq header]
    exact ⟨table, rfl, vector_of_matrix (rectangular_ofBytes header) read⟩

end Bytes

/-- The lines `b,a,b`, `1,2,3`, an empty one and `"4",5,6`: column `b` is the first of the two. -/
theorem readVector_of_readMatrix_repeated_name : ∃ (bytes : List UInt8) (values : List Float),
    bytes = [98, 44, 97, 44, 98, 10, 49, 44, 50, 44, 51, 10, 10, 34, 52, 34, 44, 53, 44, 54, 10] ∧
      readMatrix bytes = .ok [[1, 2, 3], [4, 5, 6]] ∧ readVector bytes "b" = .ok values ∧
      values.map some = [some 1, some 4] := by
  have read : readMatrix [98, 44, 97, 44, 98, 10, 49, 44, 50, 44, 51, 10, 10, 34, 52, 34, 44, 53, 44, 54, 10] =
      .ok [[1, 2, 3], [4, 5, 6]] := by rfl
  have header : ofBytes [98, 44, 97, 44, 98, 10, 49, 44, 50, 44, 51, 10, 10, 34, 52, 34, 44, 53, 44, 54, 10] =
      .ok ⟨["b", "a", "b"], [.ok ["1", "2", "3"], .ok ["4", "5", "6"]]⟩ := by rfl
  obtain ⟨table, same, -, -, columns⟩ := readVector_of_readMatrix read
  cases header.symm.trans same
  obtain ⟨values, succeeded, entries⟩ := (columns "b").2 0 ⟨rfl, by simp⟩
  exact ⟨_, values, rfl, read, succeeded, entries⟩

end BranchBound.Table
