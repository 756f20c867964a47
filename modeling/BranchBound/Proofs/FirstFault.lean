import Mathlib.Data.Prod.Lex
import Mathlib.Order.Bounds.Basic
import BranchBound.Proofs.BlankLines

/-!
# The first fault of a table

A table is read row by row and each row cell by cell, so a reader that fails names the fault that comes first in this
order (`readEach_reports`): a record that was rejected, or a cell of a column that it reads. A matrix reads all columns,
a vector one. This holds of any rectangular table (`matrix_reports`, `vector_reports`), so of those read from bytes.
-/

namespace BranchBound.Table

/-! ### Faults and their places -/

/-- Field `j` of a record stands in a watched column and is no number. -/
inductive CellFault (header record : List String) (watched : Nat → Prop) (row : Nat) : Nat → Fault → Prop
  | unread {j : Nat} {column text : String} {fault : Decimal.LiteralFault} (watches : watched j)
      (named : header[j]? = some column) (held : record[j]? = some text) (refused : Decimal.read text = .error fault) :
    CellFault header record watched row j (.notNumber row column text fault)

/-- The faults of a table by row and column, both from zero on. A rejected record has no columns. -/
inductive FaultAt (table : Table) (watched : Nat → Prop) : ℕ ×ₗ ℕ → Fault → Prop
  | record {i : Nat} {fault : RecordFault} (rejected : table.records[i]? = some (.error fault)) :
    FaultAt table watched (toLex (i, 0)) (.badRecord (i + 1) fault)
  | cell {i j : Nat} {record : List String} {fault : Fault} (read : table.records[i]? = some (.ok record))
      (bad : CellFault table.header record watched (i + 1) j fault) :
    FaultAt table watched (toLex (i, j)) fault

/-- The fault at the least place in the order of rows and columns. -/
def FirstFault (table : Table) (watched : Nat → Prop) (fault : Fault) : Prop :=
  ∃ place, IsLeast {place | ∃ other, FaultAt table watched place other} place ∧ FaultAt table watched place fault

theorem CellFault.unique {header record : List String} {watched : Nat → Prop} {row j : Nat} {fault other : Fault}
    (first : CellFault header record watched row j fault) (second : CellFault header record watched row j other) :
    fault = other := by
  obtain ⟨-, named, held, refused⟩ := first
  obtain ⟨-, named', held', refused'⟩ := second
  obtain rfl := Option.some.inj (named.symm.trans named')
  obtain rfl := Option.some.inj (held.symm.trans held')
  obtain rfl := Except.error.inj (refused.symm.trans refused')
  rfl

theorem exists_place (place : ℕ ×ₗ ℕ) : ∃ i j, place = toLex (i, j) :=
  ⟨(ofLex place).1, (ofLex place).2, rfl⟩

section Faults
variable {table : Table} {watched : Nat → Prop} {fault : Fault}

theorem faultAt_iff {i j : Nat} : FaultAt table watched (toLex (i, j)) fault ↔
    (∃ refused, table.records[i]? = some (.error refused) ∧ j = 0 ∧ fault = .badRecord (i + 1) refused) ∨
      ∃ record, table.records[i]? = some (.ok record) ∧ CellFault table.header record watched (i + 1) j fault := by
  constructor
  · intro faulty
    generalize same : toLex (i, j) = place at faulty
    cases faulty with
    | record rejected =>
      obtain ⟨rfl, rfl⟩ := Prod.mk.inj (toLex.injective same)
      exact Or.inl ⟨_, rejected, rfl, rfl⟩
    | cell read bad =>
      obtain ⟨rfl, rfl⟩ := Prod.mk.inj (toLex.injective same)
      exact Or.inr ⟨_, read, bad⟩
  · rintro (⟨refused, rejected, rfl, rfl⟩ | ⟨record, read, bad⟩)
    · exact .record rejected
    · exact .cell read bad

theorem FaultAt.unique {place : ℕ ×ₗ ℕ} {other : Fault} (first : FaultAt table watched place fault)
    (second : FaultAt table watched place other) : fault = other := by
  obtain ⟨i, j, rfl⟩ := exists_place place
  rcases faultAt_iff.mp first with ⟨refused, rejected, -, rfl⟩ | ⟨record, read, bad⟩
  · rcases faultAt_iff.mp second with ⟨again, rejected', -, rfl⟩ | ⟨record, read, -⟩
    · rw [rejected] at rejected'
      cases rejected'
      rfl
    · rw [rejected] at read
      cases read
  · rcases faultAt_iff.mp second with ⟨again, rejected, -, -⟩ | ⟨same, read', bad'⟩
    · rw [read] at rejected
      cases rejected
    · rw [read] at read'
      cases read'
      exact bad.unique bad'

end Faults

/-! ### Readers -/

/-- `f` reads a record unless a watched cell is no number, and then names the first one. -/
structure Watches {β : Type} (header : List String) (watched : Nat → Prop) (f : Nat → List String → Except Fault β) :
    Prop where
  clean : ∀ {row record v}, record.length = header.length → f row record = .ok v →
    ∀ j fault, ¬CellFault header record watched row j fault
  first : ∀ {row record fault}, record.length = header.length → f row record = .error fault →
    ∃ j, CellFault header record watched row j fault ∧ ∀ k other, CellFault header record watched row k other → j ≤ k

theorem readCell_eq_error {row : Nat} {column text : String} {fault : Fault} :
    readCell row column text = .error fault ↔
      ∃ refused, Decimal.read text = .error refused ∧ fault = .notNumber row column text refused := by
  unfold readCell
  cases Decimal.read text with
  | ok v => simp
  | error refused => simp [eq_comm]

theorem firstCell_of_readCells {row : Nat} {header record : List String} {fault : Fault}
    (failed : readCells row header record = .error fault) :
    ∃ j, CellFault header record (fun _ => True) row j fault ∧
      ∀ k other, CellFault header record (fun _ => True) row k other → j ≤ k := by
  fun_induction readCells row header record with
  | case1 column header text record first here =>
    cases failed
    obtain ⟨refused, unread, rfl⟩ := readCell_eq_error.mp here
    exact ⟨0, .unread trivial rfl rfl unread, fun k _ _ => Nat.zero_le k⟩
  | case2 column header text record v read ih =>
    obtain ⟨j, ⟨-, named, held, unread⟩, least⟩ := ih (map_eq_error.mp failed)
    refine ⟨j + 1, .unread trivial named held unread, ?_⟩
    rintro k other ⟨-, named', held', unread'⟩
    cases k with
    | zero =>
      cases held'
      rw [readCell_eq_ok.mp read] at unread'
      cases unread'
    | succ k => exact Nat.succ_le_succ (least k _ (.unread trivial named' held' unread'))
  | case3 => cases failed

theorem watches_readCells (header : List String) :
    Watches header (fun _ => True) fun row record => readCells row header record where
  clean := by
    rintro row record values same read j fault ⟨-, -, held, unread⟩
    have here := congrArg (·[j]?) (read_of_readCells same read)
    simp only [List.getElem?_map, held, Option.map_some, unread] at here
    obtain ⟨v, -, clash⟩ := Option.map_eq_some_iff.mp here.symm
    cases clash
  first _ failed := firstCell_of_readCells failed

theorem watches_readCellAt {header : List String} {name : String} {index : Nat} (named : header[index]? = some name) :
    Watches header (· = index) (readCellAt name index) where
  clean := by
    rintro row record v same read j fault ⟨rfl, -, held, unread⟩
    obtain ⟨text, held', number⟩ := readCellAt_eq_ok.mp read
    rw [held] at held'
    cases held'
    rw [unread] at number
    cases number
  first := by
    intro row record fault same failed
    have inside : index < record.length := by
      rw [same]
      exact (List.getElem?_eq_some_iff.mp named).1
    unfold readCellAt at failed
    rw [List.getElem?_eq_getElem inside] at failed
    obtain ⟨refused, unread, rfl⟩ := readCell_eq_error.mp failed
    refine ⟨index, .unread rfl named (List.getElem?_eq_getElem inside) unread, ?_⟩
    rintro k other ⟨rfl, -, -, -⟩
    exact le_refl _

section Reports
variable {β : Type} {table : Table} {watched : Nat → Prop} {f : Nat → List String → Except Fault β}

theorem clean_of_read (rectangular : table.Rectangular) (watches : Watches table.header watched f) {i : Nat}
    {record : List String} {v : β} (held : table.records[i]? = some (.ok record)) (read : f (1 + i) record = .ok v)
    (j : Nat) (fault : Fault) : ¬FaultAt table watched (toLex (i, j)) fault := by
  intro faulty
  rcases faultAt_iff.mp faulty with ⟨refused, rejected, -⟩ | ⟨same, held', bad⟩
  · rw [held] at rejected
    cases rejected
  · rw [held] at held'
    cases held'
    rw [Nat.add_comm] at read
    exact watches.clean (rectangular record (List.mem_of_getElem? held)) read j fault bad

theorem clean_of_readEach (rectangular : table.Rectangular) (watches : Watches table.header watched f)
    {values : List β} (read : readEach f 1 table.records = .ok values) (place : ℕ ×ₗ ℕ) (fault : Fault) :
    ¬FaultAt table watched place fault := by
  obtain ⟨i, j, rfl⟩ := exists_place place
  obtain ⟨length, each⟩ := readEach_eq_ok.mp read
  cases found : values[i]? with
  | none =>
    have outside : table.records[i]? = none := by
      rw [List.getElem?_eq_none_iff, ← length]
      exact List.getElem?_eq_none_iff.mp found
    intro faulty
    rcases faultAt_iff.mp faulty with ⟨refused, rejected, -⟩ | ⟨record, held, -⟩
    · rw [outside] at rejected
      cases rejected
    · rw [outside] at held
      cases held
  | some v =>
    obtain ⟨record, held, value⟩ := each i v found
    exact clean_of_read rectangular watches held value j fault

theorem firstFault_of_readEach (rectangular : table.Rectangular) (watches : Watches table.header watched f)
    {fault : Fault} (failed : readEach f 1 table.records = .error fault) : FirstFault table watched fault := by
  obtain ⟨i, before, fails⟩ := failsAt_of_readEach failed
  -- no fault stands in an earlier row
  have earlier : ∀ k j other, FaultAt table watched (toLex (k, j)) other → i ≤ k := by
    intro k j other faulty
    by_contra less
    obtain ⟨record, v, held, read⟩ := before k (not_le.mp less)
    exact clean_of_read rectangular watches held read j other faulty
  rcases fails with ⟨refused, rejected, rfl⟩ | ⟨record, held, here⟩
  · rw [Nat.add_comm]
    refine ⟨toLex (i, 0), ⟨⟨_, .record rejected⟩, ?_⟩, .record rejected⟩
    rintro place ⟨other, faulty⟩
    obtain ⟨k, j, rfl⟩ := exists_place place
    rw [Prod.Lex.toLex_le_toLex]
    rcases Nat.lt_or_eq_of_le (earlier k j other faulty) with less | same
    · exact Or.inl less
    · exact Or.inr ⟨same, Nat.zero_le j⟩
  · rw [Nat.add_comm] at here
    obtain ⟨j, bad, least⟩ := watches.first (rectangular record (List.mem_of_getElem? held)) here
    refine ⟨toLex (i, j), ⟨⟨_, .cell held bad⟩, ?_⟩, .cell held bad⟩
    rintro place ⟨other, faulty⟩
    obtain ⟨k, l, rfl⟩ := exists_place place
    rw [Prod.Lex.toLex_le_toLex]
    rcases Nat.lt_or_eq_of_le (earlier k l other faulty) with less | rfl
    · exact Or.inl less
    · refine Or.inr ⟨rfl, ?_⟩
      rcases faultAt_iff.mp faulty with ⟨refused, rejected, -⟩ | ⟨same, held', bad'⟩
      · rw [held] at rejected
        cases rejected
      · rw [held] at held'
        cases held'
        exact least l other bad'

theorem FirstFault.unique {fault other : Fault} (first : FirstFault table watched fault)
    (second : FirstFault table watched other) : fault = other := by
  obtain ⟨place, least, here⟩ := first
  obtain ⟨again, least', there⟩ := second
  obtain rfl := least.unique least'
  exact here.unique there

/-- A reader fails exactly if the table has a fault in a watched column or a rejected record, and with the first one. -/
theorem readEach_reports (rectangular : table.Rectangular) (watches : Watches table.header watched f) :
    ((∃ fault, readEach f 1 table.records = .error fault) ↔ ∃ place fault, FaultAt table watched place fault) ∧
      ∀ fault, readEach f 1 table.records = .error fault ↔ FirstFault table watched fault := by
  have reported : ∀ fault, readEach f 1 table.records = .error fault → FirstFault table watched fault :=
    fun fault => firstFault_of_readEach rectangular watches
  have fails : ∀ place fault, FaultAt table watched place fault →
      ∃ named, readEach f 1 table.records = .error named := by
    intro place fault faulty
    cases read : readEach f 1 table.records with
    | error named => exact ⟨named, rfl⟩
    | ok values => exact absurd faulty (clean_of_readEach rectangular watches read place fault)
  refine ⟨⟨?_, ?_⟩, fun fault => ⟨reported fault, ?_⟩⟩
  · rintro ⟨fault, failed⟩
    obtain ⟨place, -, faulty⟩ := reported fault failed
    exact ⟨place, fault, faulty⟩
  · rintro ⟨place, fault, faulty⟩
    exact fails place fault faulty
  · intro first
    have ⟨place, _, faulty⟩ := first
    obtain ⟨named, failed⟩ := fails place fault faulty
    rw [failed, (reported named failed).unique first]

end Reports

section Tables
variable {table : Table}

theorem matrix_reports (rectangular : table.Rectangular) :
    ((∃ fault, table.matrix = .error fault) ↔ ∃ place fault, FaultAt table (fun _ => True) place fault) ∧
      ∀ fault, table.matrix = .error fault ↔ FirstFault table (fun _ => True) fault :=
  readEach_reports rectangular (watches_readCells table.header)

theorem vector_reports (rectangular : table.Rectangular) {name : String} {index : Nat}
    (first : FirstAt table.header name index) :
    ((∃ fault, table.vector name = .error fault) ↔ ∃ place fault, FaultAt table (· = index) place fault) ∧
      ∀ fault, table.vector name = .error fault ↔ FirstFault table (· = index) fault := by
  rw [vector_eq first]
  exact readEach_reports rectangular (watches_readCellAt first.1)

end Tables

/-- The messages of a fault begin with its row, and name the column and the text of a cell. -/
theorem messages_of_faultAt {table : Table} {watched : Nat → Prop} {i j : Nat} {fault : Fault}
    (faulty : FaultAt table watched (toLex (i, j)) fault) :
    (∃ refused, table.records[i]? = some (.error refused) ∧
      fault.messages = [s!"Failed to read row {i + 1}", refused.message]) ∨
    ∃ record column text refused, table.records[i]? = some (.ok record) ∧ table.header[j]? = some column ∧
      record[j]? = some text ∧ Decimal.read text = .error refused ∧
      fault.messages = [s!"row {i + 1}, column '{column}': '{text}' is not a number", refused.message] := by
  rcases faultAt_iff.mp faulty with ⟨refused, rejected, -, rfl⟩ | ⟨record, read, -, named, held, unread⟩
  · exact Or.inl ⟨refused, rejected, rfl⟩
  · exact Or.inr ⟨record, _, _, _, read, named, held, unread, rfl⟩

/-- Under a header that can be read, a matrix fails exactly if a record is rejected or a cell is no number, and a
vector if a record is rejected or a cell of its column is no number; each names the first such fault, row by row, by
its row and, for a cell, the column and the text. Blank lines change no more than the places in the input. -/
theorem readers_report_first_fault {bytes : List UInt8} {table : Table} (header : ofBytes bytes = .ok table) :
    (((∃ fault, readMatrix bytes = .error fault) ↔ ∃ place fault, FaultAt table (fun _ => True) place fault) ∧
        ∀ fault, readMatrix bytes = .error fault ↔ FirstFault table (fun _ => True) fault) ∧
      (∀ name index, FirstAt table.header name index →
        ((∃ fault, readVector bytes name = .error fault) ↔ ∃ place fault, FaultAt table (· = index) place fault) ∧
          ∀ fault, readVector bytes name = .error fault ↔ FirstFault table (· = index) fault) ∧
      (∀ watched i j fault, FaultAt table watched (toLex (i, j)) fault →
        (∃ refused, table.records[i]? = some (.error refused) ∧
          fault.messages = [s!"Failed to read row {i + 1}", refused.message]) ∨
        ∃ record column text refused, table.records[i]? = some (.ok record) ∧ table.header[j]? = some column ∧
          record[j]? = some text ∧ Decimal.read text = .error refused ∧
          fault.messages = [s!"row {i + 1}, column '{column}': '{text}' is not a number", refused.message]) ∧
      ∀ before b rest, bytes = before ++ b :: rest → (scanner before).mode = .between →
        Scanner.endsRecord b = true → (before = [] → ¬byteOrderMark <+: rest) →
        (readMatrix bytes).mapError Fault.unplaced = (readMatrix (before ++ rest)).mapError Fault.unplaced ∧
          ∀ name, (readVector bytes name).mapError Fault.unplaced =
            (readVector (before ++ rest) name).mapError Fault.unplaced := by
  have rectangular := rectangular_ofBytes header
  refine ⟨?_, ?_, fun _ _ _ _ => messages_of_faultAt, ?_⟩
  · rw [readMatrix_eq header]
    exact matrix_reports rectangular
  · intro name index first
    rw [readVector_eq header]
    exact vector_reports rectangular first
  · rintro before b rest rfl between ends unmarked
    exact ⟨readMatrix_blankLine between ends unmarked, readVector_blankLine between ends unmarked⟩

/-- The lines `a,b`, `1,x`, an empty one and `2`: the matrix stops at `x`, and column `a` at the second record, which is
too short, with or without the empty line. -/
theorem readers_report_first_fault_short_record : ∃ (bytes : List UInt8) (table : Table),
    bytes = [97, 44, 98, 10, 49, 44, 120, 10] ++ 10 :: [50, 10] ∧ ofBytes bytes = .ok table ∧
      readMatrix bytes = .error (.notNumber 1 "b" "x" .malformed) ∧
      FirstFault table (fun _ => True) (.notNumber 1 "b" "x" .malformed) ∧
      readVector bytes "a" = .error (.badRecord 2 (.unequalLength 2 ⟨8, 3⟩ 1 2)) ∧
      FirstFault table (· = 0) (.badRecord 2 (.unequalLength 2 ⟨8, 3⟩ 1 2)) ∧
      (scanner [97, 44, 98, 10, 49, 44, 120, 10]).mode = .between ∧
      (readVector bytes "a").mapError Fault.unplaced =
        (readVector ([97, 44, 98, 10, 49, 44, 120, 10] ++ [50, 10]) "a").mapError Fault.unplaced := by
  have header : ofBytes [97, 44, 98, 10, 49, 44, 120, 10, 10, 50, 10] =
      .ok ⟨["a", "b"], [.ok ["1", "x"], .error (.unequalLength 2 ⟨8, 3⟩ 1 2)]⟩ := by rfl
  have matrix : readMatrix [97, 44, 98, 10, 49, 44, 120, 10, 10, 50, 10] =
      .error (.notNumber 1 "b" "x" .malformed) := by rfl
  have vector : readVector [97, 44, 98, 10, 49, 44, 120, 10, 10, 50, 10] "a" =
      .error (.badRecord 2 (.unequalLength 2 ⟨8, 3⟩ 1 2)) := by rfl
  have between : (scanner [97, 44, 98, 10, 49, 44, 120, 10]).mode = .between := by rfl
  obtain ⟨⟨-, whole⟩, columns, -, blank⟩ := readers_report_first_fault header
  obtain ⟨-, column⟩ := columns "a" 0 ⟨rfl, by simp⟩
  obtain ⟨-, unmoved⟩ := blank [97, 44, 98, 10, 49, 44, 120, 10] 10 [50, 10] rfl between rfl (by simp)
  exact ⟨_, _, rfl, header, matrix, (whole _).mp matrix, vector, (column _).mp vector, between, unmoved "a"⟩

end BranchBound.Table
