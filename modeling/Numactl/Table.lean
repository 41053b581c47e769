import Mathlib.Logic.Function.Basic
import Numactl.Base.SelectionSort
import Numactl.Base.Words

/-! The tables `numastat` prints (`vtab` in `numastat.c`): cells in row order, a map that gives the order of the
rows, and flags, widths and decimal places. The doubles of the cells are a type with an order and a zero; all that
is computed with them is finite, and no cell holds a negative zero. -/

namespace Numactl

/-- The room in the buffers for a line that is read and for a cell that is printed (`SMALL_BUF_SIZE`). -/
abbrev smallBufSize : Nat := 128

/-- What a cell holds, by its type. -/
inductive Cell (D : Type) where
  | null
  | double (d : D)
  | string (s : List Char)
  | repchar (c : Char)
  deriving DecidableEq

/-- What the C library and the machine make of the contents of a cell: the text of a double with so many
decimal places, and the bytes of other cells read as a double. -/
structure CellFormat (D : Type) where
  text : Nat → D → List Char
  stringBits : List Char → D
  repcharBits : Char → D

/-- `COL_JUSTIFY_MASK` selects it, and without it a column is centered. -/
inductive Justify where
  | left
  | right
  | center
  deriving DecidableEq

structure Flags where
  seenData : Bool
  nonZeroData : Bool
  alwaysShow : Bool
  deriving DecidableEq

@[ext] structure Vtab (D : Type) where
  headerRows : Nat
  headerCols : Nat
  dataRows : Nat
  dataCols : Nat
  cell : Nat → Cell D
  rowIxMap : Nat → Nat
  rowFlags : Nat → Flags
  colFlags : Nat → Flags
  colJustify : Nat → Justify
  colWidth : Nat → Nat
  colDecimalPlaces : Nat → Nat

namespace Vtab

variable {D : Type}

def allRows (table : Vtab D) : Nat := table.headerRows + table.dataRows

def allCols (table : Vtab D) : Nat := table.headerCols + table.dataCols

/-- `GET_CELL_PTR`, as a place. -/
def cellIx (table : Vtab D) (row col : Nat) : Nat := row * table.allCols + col

def getCell (table : Vtab D) (row col : Nat) : Cell D := table.cell (table.cellIx row col)

def setCell (table : Vtab D) (row col : Nat) (c : Cell D) : Vtab D :=
  { table with cell := Function.update table.cell (table.cellIx row col) c }

/-- `init_table`. -/
def initTable (headerRows headerCols dataRows dataCols : Nat) : Vtab D where
  headerRows := headerRows
  headerCols := headerCols
  dataRows := dataRows
  dataCols := dataCols
  cell := fun _ => .null
  rowIxMap := id
  rowFlags := fun _ => ⟨false, false, false⟩
  colFlags := fun _ => ⟨false, false, false⟩
  colJustify := fun _ => .center
  colWidth := fun _ => 0
  colDecimalPlaces := fun _ => 0

def setRowFlag (table : Vtab D) (row : Nat) (set : Flags → Flags) : Vtab D :=
  { table with rowFlags := Function.update table.rowFlags row (set (table.rowFlags row)) }

def setColFlag (table : Vtab D) (col : Nat) (set : Flags → Flags) : Vtab D :=
  { table with colFlags := Function.update table.colFlags col (set (table.colFlags col)) }

def setColJustification (table : Vtab D) (col : Nat) (justify : Justify) : Vtab D :=
  { table with colJustify := Function.update table.colJustify col justify }

/-- `set_col_width`, which keeps a width below `SMALL_BUF_SIZE`. -/
def setColWidth (table : Vtab D) (col width : Nat) : Vtab D :=
  { table with
    colWidth := Function.update table.colWidth col (if smallBufSize ≤ width then smallBufSize - 1 else width) }

def setColDecimalPlaces (table : Vtab D) (col places : Nat) : Vtab D :=
  { table with colDecimalPlaces := Function.update table.colDecimalPlaces col places }

def stringAssign (table : Vtab D) (row col : Nat) (s : List Char) : Vtab D := table.setCell row col (.string s)

def repcharAssign (table : Vtab D) (row col : Nat) (c : Char) : Vtab D := table.setCell row col (.repchar c)

/-! How the columns are displayed is no part of the cells. -/

theorem allCols_setCell (table : Vtab D) (row col : Nat) (c : Cell D) :
    (table.setCell row col c).allCols = table.allCols := rfl

section Columns

variable (table : Vtab D) (ix row col : Nat)

theorem allCols_setColWidth (width : Nat) : (table.setColWidth ix width).allCols = table.allCols := rfl

theorem getCell_setColWidth (width : Nat) :
    (table.setColWidth ix width).getCell row col = table.getCell row col := rfl

theorem allCols_setColDecimalPlaces (places : Nat) :
    (table.setColDecimalPlaces ix places).allCols = table.allCols := rfl

theorem getCell_setColDecimalPlaces (places : Nat) :
    (table.setColDecimalPlaces ix places).getCell row col = table.getCell row col := rfl

theorem allCols_setColJustification (justify : Justify) :
    (table.setColJustification ix justify).allCols = table.allCols := rfl

theorem getCell_setColJustification (justify : Justify) :
    (table.setColJustification ix justify).getCell row col = table.getCell row col := rfl

end Columns

/-- The rows and columns of the data area, in the order in which they are gone through. -/
def dataPlaces (table : Vtab D) : List (Nat × Nat) :=
  (List.range' table.headerRows table.dataRows).flatMap fun row =>
    (List.range' table.headerCols table.dataCols).map fun col => (row, col)

/-- `zero_table_data` for cells of type `CELL_TYPE_DOUBLE`. -/
def zeroTableData [Zero D] (table : Vtab D) : Vtab D :=
  table.dataPlaces.foldl (fun t place => t.setCell place.1 place.2 (.double 0)) table

end Vtab

namespace Cell

variable {D : Type}

/-- The field `d` of a cell, whatever its type is. -/
def asDouble [Zero D] (format : CellFormat D) : Cell D → D
  | .null => 0
  | .double d => d
  | .string s => format.stringBits s
  | .repchar c => format.repcharBits c

/-- Neither empty nor a repeated character. -/
def isData : Cell D → Bool
  | .null => false
  | .double _ => true
  | .string _ => true
  | .repchar _ => false

/-- The field `l` of a data cell is not 0. -/
def isNonZero [Zero D] [DecidableEq D] : Cell D → Bool
  | .null => false
  | .double d => d ≠ 0
  | .string _ => true
  | .repchar _ => false

/-- `fmt_cell_data` writes into its buffer only: at its end, and `max_width - 1` times where it repeats a
character. -/
def inBuffer (c : Cell D) (maxWidth : Nat) : Bool :=
  match c with
  | .repchar _ => 0 < maxWidth && maxWidth < smallBufSize
  | _ => maxWidth < smallBufSize

/-- The text `fmt_cell_data` leaves in the buffer, up to the null. -/
def cellText (format : CellFormat D) (c : Cell D) (maxWidth decimalPlaces : Nat) : List Char :=
  let buf := match c with
    | .null => []
    | .double d => (format.text decimalPlaces d).take (smallBufSize - 1)
    | .string s => s.take (smallBufSize - 1)
    | .repchar c => List.replicate (maxWidth - 1) c
  (buf.take maxWidth).takeWhile (· ≠ '\x00')

/-- `fmt_cell_data`, where it stays in its buffer. -/
def fmtCellData (format : CellFormat D) (c : Cell D) (maxWidth decimalPlaces : Nat) : Option (List Char) :=
  if c.inBuffer maxWidth then some (c.cellText format maxWidth decimalPlaces) else none

/-- A text with the blanks around it. -/
def justified (justify : Justify) (width : Nat) (p : List Char) : List Char :=
  let blanks (n : Nat) : List Char := List.replicate n ' '
  match justify with
  | .left => p ++ blanks (width - p.length)
  | .right => blanks (width - p.length) ++ p
  | .center =>
      let before := (width - p.length + 1) / 2
      blanks before ++ p ++ blanks (width - p.length - before)

/-- `display_justified_cell`. -/
def displayJustifiedCell (format : CellFormat D) (c : Cell D) (justify : Justify) (width decimalPlaces : Nat) :
    Option (List Char) :=
  (c.fmtCellData format width decimalPlaces).map (justified justify width)

end Cell

namespace Vtab

variable {D : Type}

def doubleAddto [Zero D] [Add D] (format : CellFormat D) (table : Vtab D) (row col : Nat) (d : D) : Vtab D :=
  table.setCell row col (.double ((table.getCell row col).asDouble format + d))

/-- `sort_rows_descending_by_col`: only the row map changes. -/
def sortRowsDescendingByCol [Zero D] [LinearOrder D] (format : CellFormat D) (table : Vtab D)
    (startRow stopRow col : Nat) : Vtab D :=
  { table with
    rowIxMap :=
      SelectionSort.sort (fun row => (table.getCell row col).asDouble format) table.rowIxMap startRow stopRow }

/-- The width a column needs, in the loop of `auto_set_col_width`. -/
def neededWidth (format : CellFormat D) (table : Vtab D) (col : Nat) (maxWidth : Fin smallBufSize)
    (width row : Nat) : Nat :=
  match table.getCell row col with
  | .repchar _ => width
  | c => max width (c.cellText format maxWidth (table.colDecimalPlaces col)).length

/-- `auto_set_col_width`, for a largest width with which the cells stay in their buffer. -/
def autoSetColWidth (format : CellFormat D) (table : Vtab D) (col minWidth : Nat) (maxWidth : Fin smallBufSize) :
    Vtab D :=
  let width := (List.range table.allRows).foldl (table.neededWidth format col maxWidth) minWidth
  { table with colWidth := Function.update table.colWidth col (min (width + 1) maxWidth) }

end Vtab

/-- The last arguments of `display_table`. -/
structure ShowOptions where
  unseenRows : Bool
  unseenCols : Bool
  zeroRows : Bool
  zeroCols : Bool

/-- A cell as it is printed, and where it comes from. -/
structure PrintedCell (D : Type) where
  row : Nat
  col : Nat
  cell : Cell D
  text : List Char

inductive PrintedLine (D : Type) where
  | blank
  | cells (cs : List (PrintedCell D))

/-- What `display_table` prints: one of two messages or lines, if it gets to their end and every cell stays in its
buffer. -/
inductive TableOutput (D : Type) where
  | noData
  | noNonZeroData
  | lines (ls : Option (List (PrintedLine D)))

namespace Vtab

variable {D : Type}

/-- The state of the first loop of `display_table`. -/
structure Marking (D : Type) where
  table : Vtab D
  someSeenData : Bool
  someNonZeroData : Bool

def markCell [Zero D] [DecidableEq D] (s : Marking D) (place : Nat × Nat) : Marking D :=
  let c := s.table.getCell place.1 place.2
  if c.isData then
    let seen := (s.table.setRowFlag place.1 fun f => { f with seenData := true }).setColFlag place.2
      fun f => { f with seenData := true }
    if c.isNonZero then
      { table := (seen.setRowFlag place.1 fun f => { f with nonZeroData := true }).setColFlag place.2
          fun f => { f with nonZeroData := true }
        someSeenData := true
        someNonZeroData := true }
    else { s with table := seen, someSeenData := true }
  else s

def markData [Zero D] [DecidableEq D] (table : Vtab D) : Marking D :=
  table.dataPlaces.foldl markCell ⟨table, false, false⟩

variable (format : CellFormat D) (table : Vtab D) (screenWidth : Nat) (options : ShowOptions)

/-- A row after the header rows is displayed. -/
def showsRow (row : Nat) : Bool :=
  (table.rowFlags row).alwaysShow ||
    ((options.unseenRows || (table.rowFlags row).seenData) && (options.zeroRows || (table.rowFlags row).nonZeroData))

def showsCol (col : Nat) : Bool :=
  (table.colFlags col).alwaysShow ||
    ((options.unseenCols || (table.colFlags col).seenData) && (options.zeroCols || (table.colFlags col).nonZeroData))

def printCell (row col : Nat) : Option (PrintedCell D) :=
  let c := table.getCell row col
  (c.displayJustifiedCell format (table.colJustify col) (table.colWidth col) (table.colDecimalPlaces col)).map
    fun text => { row, col, cell := c, text }

/-- The columns of a line with so many of them left: what is printed, and the column after the last. -/
def lineLoop (row : Nat) : Nat → Nat → Nat → Option (List (PrintedCell D) × Nat)
  | 0, col, _ => some ([], col)
  | left + 1, col, curLineWidth => do
      let printed ← (if table.showsCol options col then [col] else []).mapM (table.printCell format row)
      let curLineWidth := if table.showsCol options col then curLineWidth + table.colWidth col else curLineWidth
      if table.allCols ≤ col + 1 ∨ screenWidth < curLineWidth + table.colWidth (col + 1) then
        return (printed, col + 1)
      else
        let rest ← lineLoop row left (col + 1) curLineWidth
        return (printed ++ rest.1, rest.2)

def displayLine (dataCol row : Nat) : Option (List (PrintedCell D) × Nat) := do
  let header ← (List.range table.headerCols).mapM (table.printCell format row)
  let width := (List.range table.headerCols).foldl (fun width col => width + table.colWidth col) 0
  let rest ← table.lineLoop format screenWidth options row (table.allCols - dataCol) dataCol width
  return (header ++ rest.1, rest.2)

/-- One row of a section, with the lines printed and the `col` left by the rows before it. -/
def displayRow (dataCol : Nat) (s : List (PrintedLine D) × Int) (rowIx : Nat) :
    Option (List (PrintedLine D) × Int) :=
  let row := table.rowIxMap rowIx
  if table.headerRows ≤ row ∧ ¬table.showsRow options row then some s
  else
    (table.displayLine format screenWidth options dataCol row).map fun line =>
      (s.1 ++ [.cells line.1], (line.2 : Int))

/-- The sections from `dataCol` on. A section without a row would not get further. -/
def sectionLoop : Nat → Nat → Int → Option (List (PrintedLine D))
  | 0, _, _ => none
  | fuel + 1, dataCol, col =>
      if table.allCols ≤ dataCol then some []
      else if ¬table.showsCol options dataCol then sectionLoop fuel (dataCol + 1) col
      else do
        let rows ← (List.range table.allRows).foldlM (table.displayRow format screenWidth options dataCol) ([], col)
        if rows.2 < 0 then none
        else
          let rest ← sectionLoop fuel rows.2.toNat rows.2
          return (if 0 < col then [.blank] else []) ++ rows.1 ++ rest

/-- `display_table`: the table with its flags set, and what is printed. Each section takes at least one column,
if it has a row. -/
def displayTable [Zero D] [DecidableEq D] : Vtab D × TableOutput D :=
  let s := table.markData
  if ¬s.someSeenData then (s.table, .noData)
  else if ¬s.someNonZeroData ∧ ¬options.zeroRows ∧ ¬options.zeroCols then (s.table, .noNonZeroData)
  else
    (s.table,
      .lines (s.table.sectionLoop format screenWidth options (s.table.allCols + 1) s.table.headerCols (-1)))

end Vtab

/-! ### What the loops over the data area change -/

namespace Vtab

variable {D : Type} {table : Vtab D}

theorem mem_dataPlaces {place : Nat × Nat} :
    place ∈ table.dataPlaces ↔ (table.headerRows ≤ place.1 ∧ place.1 < table.allRows) ∧
      table.headerCols ≤ place.2 ∧ place.2 < table.allCols := by
  obtain ⟨row, col⟩ := place
  simp only [dataPlaces, List.mem_flatMap, List.mem_map, List.mem_range'_1, Prod.mk.injEq, allRows, allCols]
  constructor
  · rintro ⟨row', hrow, col', hcol, rfl, rfl⟩
    exact ⟨hrow, hcol⟩
  · rintro ⟨hrow, hcol⟩
    exact ⟨row, hrow, col, hcol, rfl, rfl⟩

theorem cellIx_inj {row col row' col' : Nat} (hcol : col < table.allCols) (hcol' : col' < table.allCols)
    (h : table.cellIx row col = table.cellIx row' col') : row = row' ∧ col = col' :=
  Words.place_inj hcol hcol' h

/-- The places in the array of cells. -/
def ixs (table : Vtab D) (places : List (Nat × Nat)) : List Nat :=
  places.map fun place => table.cellIx place.1 place.2

theorem mem_ixs_cons {place : Nat × Nat} {places : List (Nat × Nat)} {ix : Nat} :
    ix ∈ table.ixs (place :: places) ↔ ix = table.cellIx place.1 place.2 ∨ ix ∈ table.ixs places :=
  List.mem_cons

/-- Cells set one after the other to the same value. -/
theorem foldl_setCell (c : Cell D) (places : List (Nat × Nat)) :
    places.foldl (fun t place => t.setCell place.1 place.2 c) table =
      { table with cell := fun ix => if ix ∈ table.ixs places then c else table.cell ix } := by
  induction places generalizing table with
  | nil => simp [ixs]
  | cons place places ih =>
      have hcell : (fun ix => if ix ∈ table.ixs places then c else (table.setCell place.1 place.2 c).cell ix) =
          fun ix => if ix ∈ table.ixs (place :: places) then c else table.cell ix := by
        funext ix
        simp only [mem_ixs_cons, setCell]
        by_cases hlater : ix ∈ table.ixs places
        · rw [if_pos hlater, if_pos (Or.inr hlater)]
        · rw [if_neg hlater]
          by_cases heq : ix = table.cellIx place.1 place.2
          · rw [heq, Function.update_self, if_pos (Or.inl rfl)]
          · rw [Function.update_of_ne heq, if_neg (not_or.mpr ⟨heq, hlater⟩)]
      rw [List.foldl_cons, ih, ← hcell]
      rfl

theorem zeroTableData_eq [Zero D] (table : Vtab D) :
    table.zeroTableData =
      { table with cell := fun ix => if ix ∈ table.ixs table.dataPlaces then .double 0 else table.cell ix } :=
  foldl_setCell _ _

section Mark

variable [Zero D] [DecidableEq D]

/-- Flags of rows or columns after those with data, and those with data that is not zero, are marked. -/
def markFlags (flags : Nat → Flags) (seen nonZero : Nat → Bool) (i : Nat) : Flags where
  seenData := (flags i).seenData || seen i
  nonZeroData := (flags i).nonZeroData || nonZero i
  alwaysShow := (flags i).alwaysShow

/-- Some of the places, in a row or in a column, hold data of a kind. -/
def anyAt (table : Vtab D) (places : List (Nat × Nat)) (side : Nat × Nat → Nat) (p : Cell D → Bool) (i : Nat) : Bool :=
  places.any fun place => side place == i && p (table.getCell place.1 place.2)

theorem isData_of_isNonZero {c : Cell D} (h : c.isNonZero = true) : c.isData = true := by
  cases c with
  | null => cases h
  | double d => rfl
  | string s => rfl
  | repchar c => cases h

omit [Zero D] [DecidableEq D] in
theorem update_flags (flags : Nat → Flags) (i : Nat) (seen nonZero : Bool) :
    Function.update flags i ⟨(flags i).seenData || seen, (flags i).nonZeroData || nonZero, (flags i).alwaysShow⟩ =
      markFlags flags (fun k => i == k && seen) fun k => i == k && nonZero := by
  funext k
  by_cases hk : k = i
  · subst hk
    simp [markFlags]
  · have hne : (i == k) = false := beq_eq_false_iff_ne.mpr (Ne.symm hk)
    rw [Function.update_of_ne hk, markFlags, hne, Bool.false_and, Bool.false_and, Bool.or_false, Bool.or_false]

omit [Zero D] [DecidableEq D] in
theorem markFlags_nothing (flags : Nat → Flags) : markFlags flags (fun _ => false) (fun _ => false) = flags := by
  funext i
  rw [markFlags, Bool.or_false, Bool.or_false]

omit [Zero D] [DecidableEq D] in
theorem markFlags_markFlags (flags : Nat → Flags) (seen nonZero seen' nonZero' : Nat → Bool) :
    markFlags (markFlags flags seen nonZero) seen' nonZero' =
      markFlags flags (fun i => seen i || seen' i) fun i => nonZero i || nonZero' i := by
  funext i
  simp [markFlags, Bool.or_assoc]

/-- One cell of the loop marks its row and its column. -/
theorem markCell_eq (s : Marking D) (place : Nat × Nat) :
    markCell s place =
      let c := s.table.getCell place.1 place.2
      { table :=
          { s.table with
            rowFlags := markFlags s.table.rowFlags (fun i => place.1 == i && c.isData)
              fun i => place.1 == i && c.isNonZero
            colFlags := markFlags s.table.colFlags (fun i => place.2 == i && c.isData)
              fun i => place.2 == i && c.isNonZero }
        someSeenData := s.someSeenData || c.isData
        someNonZeroData := s.someNonZeroData || c.isNonZero } := by
  obtain ⟨table, someSeen, someNonZero⟩ := s
  rw [markCell]
  dsimp only
  simp only [← update_flags]
  by_cases hnonZero : (table.getCell place.1 place.2).isNonZero = true
  · simp [setRowFlag, setColFlag, isData_of_isNonZero hnonZero, hnonZero]
  · by_cases hdata : (table.getCell place.1 place.2).isData = true
    · simp [setRowFlag, setColFlag, hdata, hnonZero]
    · simp [hdata, hnonZero]

/-- What the loop has marked after some places. -/
theorem foldl_markCell (places : List (Nat × Nat)) (someSeen someNonZero : Bool) :
    places.foldl markCell ⟨table, someSeen, someNonZero⟩ =
      { table :=
          { table with
            rowFlags := markFlags table.rowFlags (table.anyAt places Prod.fst Cell.isData)
              (table.anyAt places Prod.fst Cell.isNonZero)
            colFlags := markFlags table.colFlags (table.anyAt places Prod.snd Cell.isData)
              (table.anyAt places Prod.snd Cell.isNonZero) }
        someSeenData := someSeen || places.any fun place => (table.getCell place.1 place.2).isData
        someNonZeroData := someNonZero || places.any fun place => (table.getCell place.1 place.2).isNonZero } := by
  induction places generalizing table someSeen someNonZero with
  | nil =>
      have hnone : ∀ (side : Nat × Nat → Nat) (p : Cell D → Bool), table.anyAt [] side p = fun _ => false :=
        fun _ _ => rfl
      simp only [hnone, markFlags_nothing, List.any_nil, Bool.or_false, List.foldl_nil]
  | cons place places ih =>
      rw [List.foldl_cons, markCell_eq]
      dsimp only
      rw [ih]
      simp only [markFlags_markFlags, List.any_cons, Bool.or_assoc]
      rfl

theorem markData_eq :
    table.markData =
      { table :=
          { table with
            rowFlags := markFlags table.rowFlags (table.anyAt table.dataPlaces Prod.fst Cell.isData)
              (table.anyAt table.dataPlaces Prod.fst Cell.isNonZero)
            colFlags := markFlags table.colFlags (table.anyAt table.dataPlaces Prod.snd Cell.isData)
              (table.anyAt table.dataPlaces Prod.snd Cell.isNonZero) }
        someSeenData := table.dataPlaces.any fun place => (table.getCell place.1 place.2).isData
        someNonZeroData := table.dataPlaces.any fun place => (table.getCell place.1 place.2).isNonZero } := by
  rw [markData, foldl_markCell, Bool.false_or, Bool.false_or]

/-- Displaying a table changes its flags. -/
theorem displayTable_fst (format : CellFormat D) (table : Vtab D) (screenWidth : Nat) (options : ShowOptions) :
    (table.displayTable format screenWidth options).1 = table.markData.table := by
  rw [displayTable]
  split
  · rfl
  · split
    · rfl
    · rfl

end Mark

end Vtab

end Numactl
