/-
# The rows of a sheet

`_consume_rows` reads a sheet in one pass: from the header row on it keeps of each row only the
columns whose header it knows, and before that row everything, to be cut down at the end.  The
rows that count are counted on the way, so a sheet that is too long is refused without reading
the rest.

`consumeRows_of_full` says what comes of this, without the pass: the rows are read in full, the
header is looked for, and then each row is cut.
-/
import ProductPdfQr.Importer.Products
import Mathlib.Data.Finset.Basic

namespace ProductPdfQr.Importer

/-! ## 1. Cells and rows -/

/-- An element `c`: its attributes `r` and `t`, the texts of the elements `t` in it, and the text
of its first `v`. -/
structure CellElement where
  reference : Option String
  type : Option String
  inlineTexts : List (Option String)
  value : Option (Option String)

/-- An element `row`: its attribute `r`, and the elements `c` in it. -/
structure RowElement where
  reference : Option String
  cells : List CellElement

/-- What ends the reading of a sheet. -/
inductive SheetError
  | valueError (message : String)
  | rejected (r : XlsxRejected)
  deriving DecidableEq

/-- The letters of a text that `^([A-Z]+)([1-9][0-9]*)$` matches. -/
def referenceLetters (reference : String) : Option (List Char) :=
  let isLetter := fun c : Char => 'A' ≤ c && c ≤ 'Z'
  match reference.toList.takeWhile isLetter, reference.toList.dropWhile isLetter with
  | c :: letters, d :: digits =>
    if '1' ≤ d && d ≤ '9' && digits.all (·.isDigit) then some (c :: letters) else none
  | _, _ => none

/-- `_column_index`. -/
def columnIndex (reference : String) (fallback : Nat) : Nat :=
  match referenceLetters reference with
  | none => fallback
  | some letters =>
    letters.foldl (fun value c => value * 26 + (c.toNat - 'A'.toNat) + 1) 0 - 1

/-- `shared_strings[index]`: an index may count from the end. -/
def itemAt (sharedStrings : List String) (index : Int) : Option String :=
  let position := if index < 0 then index + sharedStrings.length else index
  if position < 0 then none else sharedStrings[position.toNat]?

section Reading

variable (int : String → Option Int) (sharedStrings : List String)

/-- `_cell_text`. -/
def cellText (cell : CellElement) : Except SheetError String :=
  let cellType := cell.type.getD ""
  if cellType = "inlineStr" then .ok (String.join (cell.inlineTexts.map fun t => t.getD ""))
  else match cell.value with
  | none => .ok ""
  | some none => .ok ""
  | some (some value) =>
    if cellType = "s" then
      match (int value).bind (itemAt sharedStrings) with
      | some text => .ok text
      | none => .error (.valueError "Shared string index is invalid")
    else if cellType = "b" then .ok (if value = "1" then "TRUE" else "FALSE")
    else .ok value

/-- `_row_number`. -/
def rowNumber (row : RowElement) (fallback : Nat) : Except SheetError Int :=
  match row.reference with
  | none => .ok fallback
  | some raw => match int raw with
    | some number => .ok number
    | none => .error (.valueError "Worksheet row number is invalid")

/-- The loop of `_row_cells`, from the column after the last cell. -/
def rowCellsFrom (retainedColumns : Option (Finset Nat)) :
    Nat → List CellElement → Except SheetError (ParsedCells × Bool)
  | _, [] => .ok ([], false)
  | fallbackColumn, cell :: cells =>
    let column := columnIndex (cell.reference.getD "") fallbackColumn
    if 16383 < column then
      .error (.valueError "Worksheet column is outside the XLSX limit")
    else match cellText int sharedStrings cell with
    | .error e => .error e
    | .ok value => match rowCellsFrom retainedColumns (column + 1) cells with
      | .error e => .error e
      | .ok (values, hasNonblankCells) =>
        let kept := value ≠ "" && retainedColumns.all (column ∈ ·)
        .ok (if kept then (column, value) :: values else values,
          Text.strip value ≠ "" || hasNonblankCells)

/-- `_row_cells`. -/
def rowCells (row : RowElement) (retainedColumns : Option (Finset Nat)) :
    Except SheetError (ParsedCells × Bool) :=
  rowCellsFrom int sharedStrings retainedColumns 0 row.cells

end Reading

/-! ## 2. The pass -/

/-- The variables of the loop of `_consume_rows`. -/
structure Progress where
  parsedDataRows : List ParsedRow := []
  headerValues : ParsedCells := []
  headerHasNonblankCells : Bool := false
  headerSeen : Bool := false
  retainedColumns : Option (Finset Nat) := none
  nonblankDataRows : Nat := 0
  worksheetIsNonempty : Bool := false

def rowLimitExceeded (actualRows maxRows : Nat) : XlsxRejected where
  code := "xlsx_row_limit_exceeded"
  message := "数据行超过 5,000 行上限, 请分批导入。"
  detail := [("reason", .text "row_limit_exceeded"), ("actual_rows", .int actualRows),
    ("max_rows", .int maxRows)]
  statusCode := 413

/-- The cells of a row in some columns. -/
def restrictCells (columns : Finset Nat) (cells : ParsedCells) : ParsedCells :=
  cells.filter fun cell => cell.1 ∈ columns

def restrictRow (columns : Finset Nat) (row : ParsedRow) : ParsedRow :=
  { row with values := restrictCells columns row.values }

section Pass

variable (int : String → Option Int) (casefold : String → String) (sharedStrings : List String)

/-- The columns whose header is a known name of the code or of the name. -/
def recognisedColumns (headerValues : ParsedCells) : Finset Nat :=
  ((headerValues.filter fun cell =>
    (codeHeaders ++ nameHeaders).contains (casefold (Text.strip cell.2))).map Prod.fst).toFinset

/-- The body of the loop of `_consume_rows`. -/
def consumeRow (maxDataRows : Option Nat) (fallbackRowNumber : Nat) (row : RowElement)
    (p : Progress) : Except SheetError Progress :=
  match rowNumber int row fallbackRowNumber with
  | .error e => .error e
  | .ok number =>
    match rowCells int sharedStrings row (if number = 1 then none else p.retainedColumns) with
    | .error e => .error e
    | .ok (values, hasNonblankCells) =>
      let p := { p with worksheetIsNonempty := p.worksheetIsNonempty || hasNonblankCells }
      if number = 1 then
        if p.headerSeen then .ok p
        else .ok
          { p with
            headerSeen := true
            headerValues := values
            headerHasNonblankCells := hasNonblankCells
            retainedColumns := some (recognisedColumns casefold values) }
      else if number < 1 || !hasNonblankCells then .ok p
      else
        let p := { p with nonblankDataRows := p.nonblankDataRows + 1 }
        match maxDataRows.filter (· < p.nonblankDataRows) with
        | some maxRows => .error (.rejected (rowLimitExceeded p.nonblankDataRows maxRows))
        | none => .ok { p with parsedDataRows := p.parsedDataRows ++ [⟨number, values, true⟩] }

/-- The loop of `_consume_rows`. -/
def consumeFrom (maxDataRows : Option Nat) :
    Nat → List RowElement → Progress → Except SheetError Progress
  | _, [], p => .ok p
  | fallbackRowNumber, row :: rows, p =>
    match consumeRow int casefold sharedStrings maxDataRows fallbackRowNumber row p with
    | .error e => .error e
    | .ok p => consumeFrom maxDataRows (fallbackRowNumber + 1) rows p

/-- What `_consume_rows` returns after its loop. -/
def Progress.parsed (p : Progress) : List ParsedRow × Bool :=
  let consumedColumns := p.retainedColumns.getD ∅
  let parsedDataRows := p.parsedDataRows.map fun row =>
    (⟨row.rowNumber, restrictCells consumedColumns row.values, true⟩ : ParsedRow)
  (if p.headerSeen then ⟨1, p.headerValues, p.headerHasNonblankCells⟩ :: parsedDataRows
    else parsedDataRows, p.worksheetIsNonempty)

/-- `_consume_rows`. -/
def consumeRows (maxDataRows : Option Nat) (rows : List RowElement) :
    Except SheetError (List ParsedRow × Bool) :=
  match consumeFrom int casefold sharedStrings maxDataRows 1 rows {} with
  | .error e => .error e
  | .ok p => .ok p.parsed

/-! ## 3. Rows in full -/

/-- A row with its number and all its cells. -/
def rowInFull (fallbackRowNumber : Nat) (row : RowElement) : Except SheetError ParsedRow :=
  match rowNumber int row fallbackRowNumber, rowCells int sharedStrings row none with
  | .ok number, .ok (values, hasNonblankCells) => .ok ⟨number, values, hasNonblankCells⟩
  | .error e, _ => .error e
  | _, .error e => .error e

/-- All rows, if none is malformed. -/
def rowsInFull : Nat → List RowElement → Except SheetError (List ParsedRow)
  | _, [] => .ok []
  | fallbackRowNumber, row :: rows =>
    match rowInFull int sharedStrings fallbackRowNumber row with
    | .error e => .error e
    | .ok full => match rowsInFull (fallbackRowNumber + 1) rows with
      | .error e => .error e
      | .ok rest => .ok (full :: rest)

def headerRow (full : List ParsedRow) : Option ParsedRow := full.find? (·.rowNumber = 1)

def isDataRow (row : ParsedRow) : Bool := 1 < row.rowNumber && row.hasNonblankCells

/-- The columns that the header row, wherever it stands, names. -/
def consumedColumns (full : List ParsedRow) : Finset Nat :=
  match headerRow full with
  | none => ∅
  | some header => recognisedColumns casefold header.values

def dataRows (full : List ParsedRow) : List ParsedRow :=
  (full.filter isDataRow).map (restrictRow (consumedColumns casefold full))

/-- The headers and the rows that `parse_xlsx` takes from the rows of the first sheet. -/
def headersAndRows (firstRows : List ParsedRow) : ParsedCells × List ParsedRow :=
  (((firstRows.find? (·.rowNumber = 1)).map ParsedRow.values).getD [],
    firstRows.filter (1 < ·.rowNumber))

end Pass

/-! ## 4. One row -/

variable {int : String → Option Int} {casefold : String → String} {sharedStrings : List String}

/-- The cells of a row that are kept. -/
def retain : Option (Finset Nat) → ParsedCells → ParsedCells
  | none, cells => cells
  | some columns, cells => restrictCells columns cells

/-- Projecting while reading is projecting what has been read. -/
theorem rowCellsFrom_eq (retained : Option (Finset Nat)) (cells : List CellElement)
    (fallback : Nat) :
    rowCellsFrom int sharedStrings retained fallback cells =
      (rowCellsFrom int sharedStrings none fallback cells).map
        fun read => (retain retained read.1, read.2) := by
  induction cells generalizing fallback with
  | nil => cases retained <;> rfl
  | cons cell cells ih =>
    simp only [rowCellsFrom]
    split
    · rfl
    · cases cellText int sharedStrings cell with
      | error e => rfl
      | ok value =>
        dsimp only
        rw [ih]
        cases rowCellsFrom int sharedStrings none
            (columnIndex (cell.reference.getD "") fallback + 1) cells with
        | error e => rfl
        | ok read =>
          cases retained with
          | none => rfl
          | some columns =>
            by_cases hvalue : value = ""
            · simp [Except.map, retain, hvalue]
            · by_cases hcolumn : columnIndex (cell.reference.getD "") fallback ∈ columns <;>
                simp [Except.map, retain, restrictCells, hvalue, hcolumn]

theorem rowCells_eq (row : RowElement) (retained : Option (Finset Nat)) :
    rowCells int sharedStrings row retained =
      (rowCells int sharedStrings row none).map fun read => (retain retained read.1, read.2) :=
  rowCellsFrom_eq retained row.cells 0

/-- What the pass holds when the rows so far are these. -/
structure Consumed (casefold : String → String) (full : List ParsedRow) (p : Progress) :
    Prop where
  nonempty : p.worksheetIsNonempty = full.any (·.hasNonblankCells)
  count : p.nonblankDataRows = (full.filter isDataRow).length
  seen : p.headerSeen = (headerRow full).isSome
  header : ∀ header, headerRow full = some header →
    p.headerValues = header.values ∧ p.headerHasNonblankCells = header.hasNonblankCells
  retained : p.retainedColumns =
    (headerRow full).map fun header => recognisedColumns casefold header.values
  /-- Cut down to the columns that are retained in the end, the rows are the data rows. -/
  rows : ∀ columns, (∀ retained, p.retainedColumns = some retained → columns = retained) →
    p.parsedDataRows.map (restrictRow columns) =
      (full.filter isDataRow).map (restrictRow columns)

theorem Consumed.initial : Consumed casefold [] {} where
  nonempty := rfl
  count := rfl
  seen := rfl
  header := fun _ h => (nomatch h)
  retained := rfl
  rows := fun _ _ => rfl

theorem headerRow_snoc (full : List ParsedRow) (row : ParsedRow) :
    headerRow (full ++ [row]) =
      (headerRow full).or (if row.rowNumber = 1 then some row else none) := by
  rw [headerRow, List.find?_append]
  congr 1
  by_cases h : row.rowNumber = 1 <;> simp [h]

theorem isDataRow_of_header {row : ParsedRow} (h : row.rowNumber = 1) : isDataRow row = false := by
  rw [isDataRow, h]
  rfl

theorem filter_snoc_of_not {full : List ParsedRow} {row : ParsedRow} (h : isDataRow row = false) :
    (full ++ [row]).filter isDataRow = full.filter isDataRow := by
  rw [List.filter_append, List.filter_cons_of_neg (by simp [h]), List.filter_nil, List.append_nil]

theorem any_snoc (full : List ParsedRow) (row : ParsedRow) :
    (full ++ [row]).any (·.hasNonblankCells) =
      (full.any (·.hasNonblankCells) || row.hasNonblankCells) := by
  simp

/-- A row that is neither the header nor a data row. -/
theorem Consumed.pass {full : List ParsedRow} {p : Progress} (h : Consumed casefold full p)
    {row : ParsedRow} (hheader : headerRow (full ++ [row]) = headerRow full)
    (hdata : isDataRow row = false) :
    Consumed casefold (full ++ [row])
      { p with worksheetIsNonempty := p.worksheetIsNonempty || row.hasNonblankCells } where
  nonempty := by rw [any_snoc, ← h.nonempty]
  count := by rw [filter_snoc_of_not hdata, ← h.count]
  seen := by rw [hheader, ← h.seen]
  header := by
    rw [hheader]
    exact h.header
  retained := by rw [hheader, ← h.retained]
  rows := by
    rw [filter_snoc_of_not hdata]
    exact h.rows

/-- The first row numbered 1: what was kept before it is cut down at the end. -/
theorem Consumed.first_header {full : List ParsedRow} {p : Progress}
    (h : Consumed casefold full p) {row : ParsedRow} (hfound : headerRow full = none)
    (hnumber : row.rowNumber = 1) :
    Consumed casefold (full ++ [row])
      { p with
        worksheetIsNonempty := p.worksheetIsNonempty || row.hasNonblankCells
        headerSeen := true
        headerValues := row.values
        headerHasNonblankCells := row.hasNonblankCells
        retainedColumns := some (recognisedColumns casefold row.values) } := by
  have hheader : headerRow (full ++ [row]) = some row := by
    rw [headerRow_snoc, hfound, if_pos hnumber, Option.none_or]
  have hdata := isDataRow_of_header hnumber
  have hnone : p.retainedColumns = none := by rw [h.retained, hfound, Option.map_none]
  refine ⟨?_, ?_, ?_, ?_, ?_, ?_⟩
  · rw [any_snoc, ← h.nonempty]
  · rw [filter_snoc_of_not hdata, ← h.count]
  · rw [hheader, Option.isSome_some]
  · intro header hsome
    rw [hheader] at hsome
    obtain rfl := Option.some.inj hsome
    exact ⟨rfl, rfl⟩
  · rw [hheader, Option.map_some]
  · rw [filter_snoc_of_not hdata]
    intro columns _
    refine h.rows columns fun retained hretained => ?_
    rw [hnone] at hretained
    cases hretained

theorem restrictRow_retain {row : ParsedRow} (hdata : isDataRow row = true)
    {retained : Option (Finset Nat)} {columns : Finset Nat}
    (hcolumns : ∀ columns', retained = some columns' → columns = columns') :
    restrictRow columns ⟨row.rowNumber, retain retained row.values, true⟩ =
      restrictRow columns row := by
  have hnonblank : row.hasNonblankCells = true := (Bool.and_eq_true_iff.mp hdata).2
  rw [restrictRow, restrictRow, hnonblank]
  congr 1
  cases retained with
  | none => rfl
  | some columns' =>
    rw [hcolumns columns' rfl]
    exact List.filter_eq_self.mpr fun cell hcell => (List.mem_filter.mp hcell).2

theorem Consumed.data_row {full : List ParsedRow} {p : Progress} (h : Consumed casefold full p)
    {row : ParsedRow} (hdata : isDataRow row = true) :
    Consumed casefold (full ++ [row])
      { p with
        worksheetIsNonempty := p.worksheetIsNonempty || row.hasNonblankCells
        nonblankDataRows := p.nonblankDataRows + 1
        parsedDataRows := p.parsedDataRows ++
          [⟨row.rowNumber, retain p.retainedColumns row.values, true⟩] } := by
  have hnumber : row.rowNumber ≠ 1 := by
    intro hone
    rw [isDataRow_of_header hone] at hdata
    cases hdata
  have hheader : headerRow (full ++ [row]) = headerRow full := by
    rw [headerRow_snoc, if_neg hnumber, Option.or_none]
  have hfilter : (full ++ [row]).filter isDataRow = full.filter isDataRow ++ [row] := by
    rw [List.filter_append, List.filter_cons_of_pos hdata, List.filter_nil]
  refine ⟨?_, ?_, ?_, ?_, ?_, ?_⟩
  · rw [any_snoc, ← h.nonempty]
  · rw [hfilter, List.length_append, List.length_singleton, ← h.count]
  · rw [hheader, ← h.seen]
  · rw [hheader]
    exact h.header
  · rw [hheader, ← h.retained]
  · intro columns hcolumns
    rw [hfilter, List.map_append, List.map_append, h.rows columns hcolumns, List.map_singleton,
      List.map_singleton, restrictRow_retain hdata hcolumns]

/-! ### The body of the loop -/

theorem rowInFull_eq_ok {index : Nat} {element : RowElement} {row : ParsedRow} :
    rowInFull int sharedStrings index element = .ok row ↔
      rowNumber int element index = .ok row.rowNumber ∧
        rowCells int sharedStrings element none = .ok (row.values, row.hasNonblankCells) := by
  unfold rowInFull
  cases rowNumber int element index with
  | error e => simp
  | ok number =>
    cases rowCells int sharedStrings element none with
    | error e => simp
    | ok read =>
      rcases row with ⟨number', values, nonblank⟩
      rcases read with ⟨values', nonblank'⟩
      simp

/-- A row that can be read is taken in, unless it is a data row too many. -/
theorem consumeRow_of_full {full : List ParsedRow} {p : Progress} (h : Consumed casefold full p)
    {maxDataRows : Option Nat} {index : Nat} {element : RowElement} {row : ParsedRow}
    (hrow : rowInFull int sharedStrings index element = .ok row) :
    (∃ p', consumeRow int casefold sharedStrings maxDataRows index element p = .ok p' ∧
      Consumed casefold (full ++ [row]) p' ∧
      (isDataRow row = true → ∀ maxRows ∈ maxDataRows, p.nonblankDataRows < maxRows)) ∨
    (isDataRow row = true ∧ ∃ maxRows ∈ maxDataRows, maxRows < p.nonblankDataRows + 1 ∧
      consumeRow int casefold sharedStrings maxDataRows index element p =
        .error (.rejected (rowLimitExceeded (p.nonblankDataRows + 1) maxRows))) := by
  obtain ⟨hnumber, hcells⟩ := rowInFull_eq_ok.mp hrow
  unfold consumeRow
  rw [hnumber]
  dsimp only
  rw [rowCells_eq, hcells]
  dsimp only [Except.map]
  by_cases hone : row.rowNumber = 1
  · have hnot : isDataRow row ≠ true := by simp [isDataRow_of_header hone]
    refine .inl ?_
    rw [if_pos hone, if_pos hone]
    cases hfound : headerRow full with
    | none =>
      have hseen : p.headerSeen = false := by rw [h.seen, hfound, Option.isSome_none]
      rw [hseen]
      exact ⟨_, rfl, h.first_header hfound hone, fun hdata => absurd hdata hnot⟩
    | some header =>
      have hseen : p.headerSeen = true := by rw [h.seen, hfound, Option.isSome_some]
      rw [hseen]
      refine ⟨_, rfl, ?_, fun hdata => absurd hdata hnot⟩
      have hsame : headerRow (full ++ [row]) = headerRow full := by
        rw [headerRow_snoc, hfound, Option.some_or]
      have hpass := h.pass hsame (isDataRow_of_header hone)
      rw [hseen] at hpass
      exact hpass
  · rw [if_neg hone, if_neg hone]
    by_cases hdata : isDataRow row = true
    · have hkept : (decide (row.rowNumber < 1) || !row.hasNonblankCells) = false := by
        obtain ⟨hlarge, hnonblank⟩ := Bool.and_eq_true_iff.mp hdata
        have : ¬ row.rowNumber < 1 := by
          have := of_decide_eq_true hlarge
          omega
        simp [this, hnonblank]
      rw [hkept]
      cases hlimit : maxDataRows.filter (· < p.nonblankDataRows + 1) with
      | some maxRows =>
        obtain ⟨hmax, hless⟩ := Option.filter_eq_some_iff.mp hlimit
        exact .inr ⟨hdata, maxRows, hmax, of_decide_eq_true hless, by simp⟩
      | none =>
        refine .inl ⟨_, by simp, h.data_row hdata, fun _ maxRows hmax => ?_⟩
        by_contra hnot
        rw [show maxDataRows = some maxRows from hmax] at hlimit
        simp at hlimit
        omega
    · have hskipped : (decide (row.rowNumber < 1) || !row.hasNonblankCells) = true := by
        by_contra hnot
        refine hdata ?_
        simp only [Bool.or_eq_true, decide_eq_true_eq, Bool.not_eq_true', not_or, not_lt,
          Bool.not_eq_false] at hnot
        simp only [isDataRow, Bool.and_eq_true, decide_eq_true_eq]
        exact ⟨by omega, hnot.2⟩
      rw [hskipped]
      refine .inl ⟨_, rfl, h.pass ?_ (by simpa using hdata), fun h => absurd h hdata⟩
      rw [headerRow_snoc, if_neg hone, Option.or_none]

/-- What the body of the loop takes in, it can read. -/
theorem full_of_consumeRow {p p' : Progress} {maxDataRows : Option Nat} {index : Nat}
    {element : RowElement}
    (h : consumeRow int casefold sharedStrings maxDataRows index element p = .ok p') :
    ∃ row, rowInFull int sharedStrings index element = .ok row := by
  unfold consumeRow at h
  cases hnumber : rowNumber int element index with
  | error e =>
    rw [hnumber] at h
    cases h
  | ok number =>
    rw [hnumber] at h
    dsimp only at h
    rw [rowCells_eq] at h
    cases hcells : rowCells int sharedStrings element none with
    | error e =>
      rw [hcells] at h
      cases h
    | ok read => exact ⟨⟨number, read.1, read.2⟩, rowInFull_eq_ok.mpr ⟨hnumber, hcells⟩⟩

/-! ## 5. The pass -/

/-- No more data rows than the limit. -/
def Within (maxDataRows : Option Nat) (full : List ParsedRow) : Prop :=
  ∀ maxRows ∈ maxDataRows, (full.filter isDataRow).length ≤ maxRows

theorem Within.of_append {maxDataRows : Option Nat} {full rest : List ParsedRow}
    (h : Within maxDataRows (full ++ rest)) : Within maxDataRows full := by
  intro maxRows hmax
  have := h maxRows hmax
  rw [List.filter_append, List.length_append] at this
  omega

/-- Rows that can be read are taken in up to the data row that is one too many. -/
theorem consumeFrom_of_full {maxDataRows : Option Nat} {elements : List RowElement} {index : Nat}
    {rest : List ParsedRow} (hrest : rowsInFull int sharedStrings index elements = .ok rest)
    {full : List ParsedRow} {p : Progress} (h : Consumed casefold full p)
    (hwithin : Within maxDataRows full) :
    (∃ p', consumeFrom int casefold sharedStrings maxDataRows index elements p = .ok p' ∧
      Consumed casefold (full ++ rest) p' ∧ Within maxDataRows (full ++ rest)) ∨
    ∃ maxRows ∈ maxDataRows, maxRows < ((full ++ rest).filter isDataRow).length ∧
      consumeFrom int casefold sharedStrings maxDataRows index elements p =
        .error (.rejected (rowLimitExceeded (maxRows + 1) maxRows)) := by
  induction elements generalizing index rest full p with
  | nil =>
    obtain rfl := Except.ok.inj hrest
    rw [List.append_nil]
    exact .inl ⟨p, rfl, h, hwithin⟩
  | cons element elements ih =>
    rw [rowsInFull] at hrest
    cases hrow : rowInFull int sharedStrings index element with
    | error e =>
      rw [hrow] at hrest
      cases hrest
    | ok row =>
      cases htail : rowsInFull int sharedStrings (index + 1) elements with
      | error e =>
        rw [hrow, htail] at hrest
        cases hrest
      | ok tail =>
        rw [hrow, htail] at hrest
        obtain rfl := Except.ok.inj hrest
        rw [consumeFrom, List.append_cons]
        rcases consumeRow_of_full h hrow with ⟨p', hp', hconsumed, hroom⟩ | hover
        · rw [hp']
          refine ih htail hconsumed fun maxRows hmax => ?_
          rw [List.filter_append, List.length_append]
          by_cases hdata : isDataRow row = true
          · rw [List.filter_cons_of_pos hdata, List.filter_nil, List.length_singleton]
            have := hroom hdata maxRows hmax
            rwa [h.count] at this
          · rw [List.filter_cons_of_neg hdata, List.filter_nil]
            exact hwithin maxRows hmax
        · obtain ⟨hdata, maxRows, hmax, hless, hraised⟩ := hover
          rw [hraised]
          have hcount : p.nonblankDataRows = maxRows := by
            have := hwithin maxRows hmax
            rw [← h.count] at this
            omega
          refine .inr ⟨maxRows, hmax, ?_, by rw [hcount]⟩
          rw [List.filter_append, List.filter_append, List.filter_cons_of_pos hdata,
            List.filter_nil, List.length_append, List.length_append, List.length_singleton,
            ← h.count]
          omega

theorem full_of_consumeFrom {maxDataRows : Option Nat} {elements : List RowElement} {index : Nat}
    {p p' : Progress}
    (h : consumeFrom int casefold sharedStrings maxDataRows index elements p = .ok p') :
    ∃ full, rowsInFull int sharedStrings index elements = .ok full := by
  induction elements generalizing index p with
  | nil => exact ⟨[], rfl⟩
  | cons element elements ih =>
    rw [consumeFrom] at h
    cases hstep : consumeRow int casefold sharedStrings maxDataRows index element p with
    | error e =>
      rw [hstep] at h
      cases h
    | ok q =>
      rw [hstep] at h
      obtain ⟨row, hrow⟩ := full_of_consumeRow hstep
      obtain ⟨rest, hrest⟩ := ih h
      exact ⟨row :: rest, by rw [rowsInFull, hrow, hrest]⟩

/-- The rows that are returned: the first row numbered 1, and the data rows cut down to the
columns it names. -/
theorem Consumed.parsed {full : List ParsedRow} {p : Progress} (h : Consumed casefold full p) :
    p.parsed = ((headerRow full).toList ++ dataRows casefold full,
      full.any (·.hasNonblankCells)) := by
  have hcolumns : p.retainedColumns.getD ∅ = consumedColumns casefold full := by
    rw [h.retained, consumedColumns]
    cases headerRow full <;> rfl
  have hrows := h.rows (consumedColumns casefold full) fun retained hretained => by
    rw [← hcolumns, hretained, Option.getD_some]
  -- all of them have a cell that is not blank
  have hnonblank : p.parsedDataRows.map (fun row => (⟨row.rowNumber,
      restrictCells (consumedColumns casefold full) row.values, true⟩ : ParsedRow)) =
      dataRows casefold full := by
    have htrue := congrArg (List.map fun row => { row with hasNonblankCells := true }) hrows
    rw [List.map_map, List.map_map] at htrue
    rw [dataRows]
    refine Eq.trans htrue (List.map_congr_left fun row hrow => ?_)
    have hdata := (Bool.and_eq_true_iff.mp (List.mem_filter.mp hrow).2).2
    rw [Function.comp_apply, restrictRow, hdata]
  rw [Progress.parsed, hcolumns, h.nonempty, hnonblank]
  cases hfound : headerRow full with
  | none =>
    have hseen : p.headerSeen = false := by rw [h.seen, hfound, Option.isSome_none]
    rw [hseen]
    rfl
  | some header =>
    have hseen : p.headerSeen = true := by rw [h.seen, hfound, Option.isSome_some]
    have hnumber : header.rowNumber = 1 := by simpa using List.find?_some hfound
    obtain ⟨hvalues, hflag⟩ := h.header header hfound
    rw [hseen, hvalues, hflag, ← hnumber]
    rfl

/-- Rows that can be read are returned, or are too many. -/
theorem consumeRows_of_full {maxDataRows : Option Nat} {elements : List RowElement}
    {full : List ParsedRow} (h : rowsInFull int sharedStrings 1 elements = .ok full) :
    (Within maxDataRows full ∧ consumeRows int casefold sharedStrings maxDataRows elements =
      .ok ((headerRow full).toList ++ dataRows casefold full,
        full.any (·.hasNonblankCells))) ∨
    ∃ maxRows ∈ maxDataRows, maxRows < (full.filter isDataRow).length ∧
      consumeRows int casefold sharedStrings maxDataRows elements =
        .error (.rejected (rowLimitExceeded (maxRows + 1) maxRows)) := by
  have hnone : Within maxDataRows [] := fun _ _ => Nat.zero_le _
  rcases consumeFrom_of_full h (@Consumed.initial casefold) hnone with
    ⟨p, hp, hconsumed, hwithin⟩ | ⟨maxRows, hmax, hless, hraised⟩
  · refine .inl ⟨hwithin, ?_⟩
    rw [consumeRows, hp]
    exact congrArg Except.ok hconsumed.parsed
  · exact .inr ⟨maxRows, hmax, hless, by rw [consumeRows, hraised]⟩

/-- The workbook is made of the cells of the header and of the data rows. -/
theorem headersAndRows_parsed (casefold : String → String) (full : List ParsedRow) :
    headersAndRows ((headerRow full).toList ++ dataRows casefold full) =
      (((headerRow full).map ParsedRow.values).getD [], dataRows casefold full) := by
  have hlarge : ∀ row ∈ dataRows casefold full, 1 < row.rowNumber := by
    intro row hrow
    obtain ⟨read, hread, rfl⟩ := List.mem_map.mp hrow
    exact of_decide_eq_true (Bool.and_eq_true_iff.mp (List.mem_filter.mp hread).2).1
  have hdata : (dataRows casefold full).filter (1 < ·.rowNumber) = dataRows casefold full :=
    List.filter_eq_self.mpr fun row hrow => decide_eq_true (hlarge row hrow)
  have hnone : (dataRows casefold full).find? (·.rowNumber = 1) = none := by
    refine List.find?_eq_none.mpr fun row hrow hone => ?_
    have := hlarge row hrow
    have := of_decide_eq_true hone
    omega
  rw [headersAndRows, List.find?_append, List.filter_append, hdata, hnone, Option.or_none]
  cases hfound : headerRow full with
  | none => rfl
  | some header =>
    have hnumber : header.rowNumber = 1 := by simpa using List.find?_some hfound
    simp [hnumber]

/-- Where the header stands makes no difference: what is returned is the header, the data rows in
its columns and whether some cell is not blank; and rows that can be read are refused exactly
when there are more data rows than the limit. -/
theorem consumeRows_correct (int : String → Option Int) (casefold : String → String)
    (sharedStrings : List String) (maxDataRows : Option Nat) (elements : List RowElement) :
    (∀ returned, consumeRows int casefold sharedStrings maxDataRows elements = .ok returned →
      ∃ full, rowsInFull int sharedStrings 1 elements = .ok full ∧
        returned = ((headerRow full).toList ++ dataRows casefold full,
          full.any (·.hasNonblankCells))) ∧
    ∀ full, rowsInFull int sharedStrings 1 elements = .ok full →
      ((∃ r, consumeRows int casefold sharedStrings maxDataRows elements =
          .error (.rejected r)) ↔
        ∃ maxRows ∈ maxDataRows, maxRows < (dataRows casefold full).length) := by
  refine ⟨fun returned hreturned => ?_, fun full hfull => ?_⟩
  · have hloop : ∃ p, consumeFrom int casefold sharedStrings maxDataRows 1 elements {} = .ok p := by
      rw [consumeRows] at hreturned
      split at hreturned
      · cases hreturned
      · exact ⟨_, by assumption⟩
    obtain ⟨p, hp⟩ := hloop
    obtain ⟨full, hfull⟩ := full_of_consumeFrom hp
    refine ⟨full, hfull, ?_⟩
    rcases consumeRows_of_full hfull with ⟨-, hok⟩ | ⟨_, _, _, hraised⟩
    · exact Except.ok.inj (hreturned.symm.trans hok)
    · rw [hraised] at hreturned
      cases hreturned
  · rw [dataRows, List.length_map]
    rcases consumeRows_of_full hfull with ⟨hwithin, hok⟩ | ⟨maxRows, hmax, hless, hraised⟩
    · rw [hok]
      refine ⟨fun ⟨_, h⟩ => (nomatch h), fun ⟨maxRows, hmax, hless⟩ => ?_⟩
      exact absurd hless (not_lt.mpr (hwithin maxRows hmax))
    · exact ⟨fun _ => ⟨maxRows, hmax, hless⟩, fun _ => ⟨_, hraised⟩⟩

-- a row numbered 2 is cut down to the columns of the header that comes after it
example :
    let text (reference value : String) : CellElement :=
      ⟨some reference, none, [], some (some value)⟩
    let rows : List RowElement :=
      [⟨some "2", [text "A2" "P-1", text "C2" "x"]⟩, ⟨some "1", [text "A1" "编码", text "C1" "?"]⟩]
    (consumeRows (fun text => if text = "2" then some 2 else some 1) id [] none rows).toOption =
      some ([⟨1, [(0, "编码"), (2, "?")], true⟩, ⟨2, [(0, "P-1")], true⟩], true) := by
  decide +kernel

end ProductPdfQr.Importer
