import Numactl.Numastat
import Numactl.TableDisplay

/-! Tables of single processes, printed from one table after the other was (`show_process_info` in
`numastat.c`). Of earlier processes the cells are zeroed; what is left are the marks of rows and columns and the
order of the rows. A process is shown as it would be alone where neither makes a difference to its own numbers. -/

namespace Numactl

namespace Numastat

/-! ### What is done to a table before it is displayed -/

section Prepare

variable {D : Type} {stat : Numastat D}

/-- The row of dashes, when each process has its own table. -/
def ruleRow : Nat := headerRows + processMeminfo.length

/-- The columns `setColWidths` gives a new width. -/
def autoSized (stat : Numastat D) (col : Nat) : Bool :=
  if stat.compressDisplay then col < headerCols + stat.numNodes + 1 else col = 0

def autoWidth (stat : Numastat D) (table : Vtab D) (col : Nat) : Nat :=
  if stat.compressDisplay then
    min ((List.range table.allRows).foldl (table.neededWidth stat.format col ⟨16, sixteen_lt⟩) 4 + 1) 16
  else min ((List.range table.allRows).foldl (table.neededWidth stat.format col ⟨24, twentyFour_lt⟩) 16 + 1) 24

theorem autoWidth_bounds (table : Vtab D) (col : Nat) :
    0 < stat.autoWidth table col ∧ stat.autoWidth table col < smallBufSize := by
  have hsize : smallBufSize = 128 := rfl
  rw [autoWidth]
  split
  · omega
  · omega

theorem setColWidths_eq (table : Vtab D) :
    stat.setColWidths table =
      { table with
        colWidth := fun col => if stat.autoSized col then stat.autoWidth table col else table.colWidth col } := by
  by_cases hcompress : stat.compressDisplay = true
  · have hfold : ∀ n, (List.range n).foldl (fun t col => t.autoSetColWidth stat.format col 4 ⟨16, sixteen_lt⟩) table =
        { table with
          colWidth := fun col => if col < n then stat.autoWidth table col else table.colWidth col } := by
      intro n
      induction n with
      | zero => simp
      | succ n ih =>
          rw [List.range_succ, List.foldl_append, ih, List.foldl_cons, List.foldl_nil]
          apply Vtab.ext <;> try rfl
          funext col
          by_cases hcol : col = n
          · subst hcol
            simp only [Vtab.autoSetColWidth, Function.update_self, autoWidth, if_pos hcompress, Nat.lt_succ_self,
              if_true]
            rfl
          · simp only [Vtab.autoSetColWidth, Function.update_of_ne hcol, Nat.lt_succ_iff_lt_or_eq, hcol, or_false]
    simp only [setColWidths, if_pos hcompress, hfold, autoSized, decide_eq_true_eq]
  · simp only [setColWidths, if_neg hcompress, autoSized, decide_eq_true_eq]
    apply Vtab.ext <;> try rfl
    funext col
    by_cases hcol : col = 0
    · subst hcol
      simp only [Vtab.autoSetColWidth, Function.update_self, autoWidth, if_neg hcompress, if_true]
    · simp only [Vtab.autoSetColWidth, Function.update_of_ne hcol, if_neg hcol]

theorem setRule_eq (row : Nat) (table : Vtab D) :
    stat.setRule row table =
      { table with
        rowFlags := Function.update table.rowFlags row { table.rowFlags row with alwaysShow := true }
        cell := fun ix =>
          if ix ∈ table.ixs ((List.range (headerCols + stat.numNodes + 1)).map (row, ·)) then .repchar '-'
          else table.cell ix } := by
  have hfold := @Vtab.foldl_setCell D (table.setRowFlag row fun f => { f with alwaysShow := true }) (.repchar '-')
    ((List.range (headerCols + stat.numNodes + 1)).map (row, ·))
  rw [List.foldl_map] at hfold
  exact hfold

/-- A cell with nothing, or with a repeated character, has no part in the width of its column. -/
def isBlank : Cell D → Bool
  | .null => true
  | .double _ => false
  | .string _ => false
  | .repchar _ => true

theorem neededWidth_of_isBlank {format : CellFormat D} {table : Vtab D} {row col : Nat}
    (h : isBlank (table.getCell row col) = true) (maxWidth : Fin smallBufSize) (width : Nat) :
    table.neededWidth format col maxWidth width row = width := by
  rw [Vtab.neededWidth]
  cases hcell : table.getCell row col with
  | null => simp [Cell.cellText]
  | double d => rw [hcell] at h; cases h
  | string s => rw [hcell] at h; cases h
  | repchar c => rfl

/-! ### The table before the first process -/

/-- A table for single processes as it is before the first of them. Its row of dashes has no label. -/
structure Fresh (stat : Numastat D) (table : Vtab D) : Prop where
  headerRows_eq : table.headerRows = headerRows
  headerCols_eq : table.headerCols = headerCols
  dataRows_eq : table.dataRows = processMeminfo.length + 2
  dataCols_eq : table.dataCols = stat.numNodes + 1
  rowIxMap_eq : table.rowIxMap = id
  rowFlags_eq : table.rowFlags = fun _ => ⟨false, false, false⟩
  colFlags_eq : table.colFlags = fun _ => ⟨false, false, false⟩
  rule : table.getCell ruleRow 0 = .null

namespace Fresh

variable {table : Vtab D}

theorem allCols_eq (h : Fresh stat table) : table.allCols = stat.totalColIx + 1 := by
  rw [Vtab.allCols, h.headerCols_eq, h.dataCols_eq, totalColIx]
  omega

theorem allRows_eq (h : Fresh stat table) : table.allRows = 8 := by
  rw [Vtab.allRows, h.headerRows_eq, h.dataRows_eq]
  rfl

theorem setCell (h : Fresh stat table) {row col : Nat} (hcol : col ≤ stat.totalColIx)
    (hne : row ≠ ruleRow ∨ col ≠ 0) (c : Cell D) : Fresh stat (table.setCell row col c) where
  headerRows_eq := h.headerRows_eq
  headerCols_eq := h.headerCols_eq
  dataRows_eq := h.dataRows_eq
  dataCols_eq := h.dataCols_eq
  rowIxMap_eq := h.rowIxMap_eq
  rowFlags_eq := h.rowFlags_eq
  colFlags_eq := h.colFlags_eq
  rule := by
    have hplace : table.cellIx ruleRow 0 ≠ table.cellIx row col := by
      intro heq
      have hcols := h.allCols_eq
      obtain ⟨hrow, hzero⟩ := Vtab.cellIx_inj (by omega) (by omega) heq
      rcases hne with hne | hne
      · exact hne hrow.symm
      · exact hne hzero.symm
    have hrule := h.rule
    change Function.update table.cell (table.cellIx row col) c (table.cellIx ruleRow 0) = .null
    rw [Function.update_of_ne hplace]
    exact hrule

/-- How columns look is no part of it. -/
theorem of_same (h : Fresh stat table) {justify : Nat → Justify} {width places : Nat → Nat} :
    Fresh stat { table with colJustify := justify, colWidth := width, colDecimalPlaces := places } :=
  ⟨h.headerRows_eq, h.headerCols_eq, h.dataRows_eq, h.dataCols_eq, h.rowIxMap_eq, h.rowFlags_eq, h.colFlags_eq, h.rule⟩

theorem setNodeColumn (h : Fresh stat table) {nodeIx : Nat} (hnode : nodeIx ≤ stat.numNodes) :
    Fresh stat (stat.setNodeColumn table nodeIx) := by
  have hcol : headerCols + nodeIx ≤ stat.totalColIx := Nat.add_le_add_left hnode _
  have hheader : Fresh stat (table.stringAssign 0 (headerCols + nodeIx) (stat.nodeHeader.getD nodeIx [])) :=
    h.setCell hcol (Or.inl (by decide)) _
  have hline : Fresh stat ((table.stringAssign 0 (headerCols + nodeIx)
      (stat.nodeHeader.getD nodeIx [])).repcharAssign 1 (headerCols + nodeIx) '-') :=
    hheader.setCell hcol (Or.inl (by decide)) _
  exact hline.of_same

theorem zeroTableData [Zero D] (h : Fresh stat table) : Fresh stat table.zeroTableData := by
  apply List.foldlRecOn (motive := Fresh stat) table.dataPlaces _ h
  intro t ht place hplace
  obtain ⟨-, hcol, hlt⟩ := Vtab.mem_dataPlaces.mp hplace
  rw [h.headerCols_eq] at hcol
  rw [h.allCols_eq] at hlt
  exact ht.setCell (Nat.le_of_lt_succ hlt) (Or.inr (Nat.one_le_iff_ne_zero.mp hcol)) _

end Fresh

variable {numPids : Nat}

theorem showSubCategories_verbose (hverbose : stat.verbose = true) : stat.showSubCategories numPids = true := by
  rw [showSubCategories, hverbose, Bool.true_or]

theorem dataRows_verbose (hverbose : stat.verbose = true) : stat.dataRows numPids = processMeminfo.length := by
  rw [dataRows, showSubCategories_verbose hverbose, if_pos rfl]

theorem totalRowIx_verbose (hverbose : stat.verbose = true) : stat.totalRowIx numPids = ruleRow + 1 := by
  rw [totalRowIx, dataRows_verbose hverbose, ruleRow]

theorem fresh_processTable [Zero D] (hverbose : stat.verbose = true) : Fresh stat (stat.processTable numPids) := by
  have hinit : Fresh stat (Vtab.initTable headerRows headerCols (stat.dataRows numPids + 2) (stat.numNodes + 1)) :=
    ⟨rfl, rfl, by rw [dataRows_verbose hverbose]; rfl, rfl, rfl, rfl, rfl, rfl⟩
  have htotal := hinit.setCell (Nat.zero_le _)
    (Or.inl (by rw [totalRowIx_verbose hverbose]; exact Nat.succ_ne_self ruleRow : stat.totalRowIx numPids ≠ ruleRow))
    (.string "Total".toList)
  have hlabels : ∀ t, Fresh stat t → Fresh stat (stat.setRowLabels numPids t) := by
    intro t ht
    rw [setRowLabels, showSubCategories_verbose hverbose, if_pos rfl]
    apply List.foldlRecOn (motive := Fresh stat) _ _ ht
    intro t ht row hrow
    rw [List.mem_range] at hrow
    have hne : headerRows + row ≠ ruleRow := (Nat.add_lt_add_left hrow headerRows).ne
    exact ht.setCell (Nat.zero_le _) (Or.inl hne) _
  apply Fresh.zeroTableData
  apply List.foldlRecOn (motive := Fresh stat) _ _ (hlabels _ htotal).of_same
  intro t ht nodeIx hnode
  rw [List.mem_range] at hnode
  exact ht.setNodeColumn (Nat.le_of_lt_succ hnode)

theorem colWidth_setNodeColumns (n : Nat) (t : Vtab D) (col : Nat) :
    ((List.range n).foldl stat.setNodeColumn t).colWidth col =
      if headerCols ≤ col ∧ col < headerCols + n then 16 else t.colWidth col := by
  induction n with
  | zero => rw [if_neg (by omega)]; rfl
  | succ n ih =>
      rw [List.range_succ, List.foldl_append, List.foldl_cons, List.foldl_nil]
      by_cases hcol : col = headerCols + n
      · rw [if_pos (by omega), hcol]
        exact Function.update_self _ _ _
      · have hother : (headerCols ≤ col ∧ col < headerCols + (n + 1)) ↔ headerCols ≤ col ∧ col < headerCols + n := by
          omega
        rw [if_congr hother rfl rfl, ← ih]
        exact Function.update_of_ne hcol _ _

theorem colWidth_processTable [Zero D] {col : Nat} (hle : col ≤ stat.totalColIx) :
    (stat.processTable numPids).colWidth col = 16 := by
  rw [processTable, Vtab.zeroTableData_eq]
  dsimp only
  rw [colWidth_setNodeColumns]
  by_cases hcol : col = 0
  · have hleft : ¬headerCols ≤ 0 := by decide
    rw [hcol, if_neg fun hdata => hleft hdata.1, Vtab.setColJustification, Vtab.setColWidth]
    dsimp only
    rw [Function.update_self]
    rfl
  · rw [totalColIx] at hle
    rw [if_pos ⟨Nat.one_le_iff_ne_zero.mpr hcol, by omega⟩]

/-- The number of processes does not matter. -/
theorem processTable_verbose [Zero D] (hverbose : stat.verbose = true) :
    stat.processTable numPids = stat.processTable 1 := by
  simp only [processTable, setRowLabels, showSubCategories_verbose hverbose, dataRows_verbose hverbose,
    totalRowIx_verbose hverbose]

theorem zeroTableData_processTable [Zero D] :
    (stat.processTable numPids).zeroTableData = stat.processTable numPids := by
  have hidem : ∀ t : Vtab D, t.zeroTableData.zeroTableData = t.zeroTableData := by
    intro t
    rw [Vtab.zeroTableData_eq t, Vtab.zeroTableData_eq]
    apply Vtab.ext <;> try rfl
    funext ix
    change (if ix ∈ t.ixs t.dataPlaces then Cell.double 0
      else if ix ∈ t.ixs t.dataPlaces then Cell.double 0 else t.cell ix) = _
    by_cases hix : ix ∈ t.ixs t.dataPlaces
    · rw [if_pos hix]
      exact (if_pos hix).symm
    · rw [if_neg hix]
  exact hidem _

/-! ### One table after the other -/

def rulePlace (table : Vtab D) : Nat := table.cellIx ruleRow 0

/-- A table with what another one has left: its flags, the order of its rows, its widths and the label of its row
of dashes. -/
def reusing (base left : Vtab D) : Vtab D :=
  { base with
    rowFlags := left.rowFlags
    colFlags := left.colFlags
    rowIxMap := left.rowIxMap
    colWidth := left.colWidth
    cell := Function.update base.cell (rulePlace base) (left.cell (rulePlace base)) }

variable {table left : Vtab D}

theorem Fresh.cellIx_ne_rulePlace (h : Fresh stat table) (row : Nat) {col : Nat} (hcol : headerCols ≤ col)
    (hle : col ≤ stat.totalColIx) : table.cellIx row col ≠ rulePlace table := by
  intro heq
  have hcols := h.allCols_eq
  obtain ⟨-, hzero⟩ := Vtab.cellIx_inj (by omega) (by omega) heq
  rw [hzero] at hcol
  exact absurd hcol (by decide)

theorem doubleAddto_reusing [Zero D] [Add D] (h : Fresh stat table) (row : Nat) {col : Nat} (hcol : headerCols ≤ col)
    (hle : col ≤ stat.totalColIx) (d : D) :
    (reusing table left).doubleAddto stat.format row col d =
      reusing (table.doubleAddto stat.format row col d) left := by
  have hne := h.cellIx_ne_rulePlace row hcol hle
  apply Vtab.ext <;> try rfl
  change Function.update (Function.update table.cell (rulePlace table) (left.cell (rulePlace table)))
      (table.cellIx row col) (.double ((Function.update table.cell (rulePlace table) (left.cell (rulePlace table))
        (table.cellIx row col)).asDouble stat.format + d)) =
    Function.update (Function.update table.cell (table.cellIx row col)
      (.double ((table.cell (table.cellIx row col)).asDouble stat.format + d))) (rulePlace table)
      (left.cell (rulePlace table))
  rw [Function.update_of_ne hne, Function.update_comm hne]

theorem Fresh.doubleAddto [Zero D] [Add D] (h : Fresh stat table) (row : Nat) {col : Nat} (hcol : headerCols ≤ col)
    (hle : col ≤ stat.totalColIx) (d : D) : Fresh stat (table.doubleAddto stat.format row col d) :=
  h.setCell hle (Or.inr (Nat.one_le_iff_ne_zero.mp hcol)) _

theorem Fresh.rulePlace_notMem (h : Fresh stat table) : rulePlace table ∉ table.ixs table.dataPlaces := by
  intro hmem
  obtain ⟨⟨row, col⟩, hplace, heq⟩ := List.mem_map.mp hmem
  obtain ⟨-, hcol, hlt⟩ := Vtab.mem_dataPlaces.mp hplace
  rw [h.headerCols_eq] at hcol
  rw [h.allCols_eq] at hlt
  exact h.cellIx_ne_rulePlace row hcol (Nat.le_of_lt_succ hlt) heq

variable {rowOf : Nat → Nat} {totalRow : Nat} {adds : List (Addition D)}

theorem Fresh.addAll [Zero D] [Add D] (h : Fresh stat table) (hplaced : ∀ a ∈ adds, stat.Placed rowOf totalRow a) :
    Fresh stat (table.addAll stat.format adds) := by
  apply List.foldlRecOn (motive := Fresh stat) adds _ h
  intro t ht a ha
  obtain ⟨-, hcol, hle⟩ := hplaced a ha
  exact ht.doubleAddto a.row hcol hle a.value

/-- The numbers of a process are the same in a table that is used again. -/
theorem addAll_reusing [Zero D] [Add D] (h : Fresh stat table) (hplaced : ∀ a ∈ adds, stat.Placed rowOf totalRow a) :
    (reusing table left).addAll stat.format adds = reusing (table.addAll stat.format adds) left := by
  induction adds generalizing table with
  | nil => rfl
  | cons a adds ih =>
      obtain ⟨-, hcol, hle⟩ := hplaced a List.mem_cons_self
      rw [Vtab.addAll, List.foldl_cons, doubleAddto_reusing h a.row hcol hle]
      exact ih (h.doubleAddto a.row hcol hle a.value) fun b hb => hplaced b (List.mem_cons_of_mem a hb)

theorem cell_of_zeroed [Zero D] {base : Vtab D} (hzero : base.zeroTableData = base) {ix : Nat}
    (hix : ix ∈ base.ixs base.dataPlaces) : base.cell ix = .double 0 := by
  have hcell := congrArg (fun t => t.cell ix) hzero
  rw [Vtab.zeroTableData_eq] at hcell
  dsimp only at hcell
  rw [if_pos hix] at hcell
  exact hcell.symm

/-- A table that differs from a zeroed one in its data area, flags, widths and rows is zeroed to it again. -/
theorem zeroTableData_eq_reusing [Zero D] {base : Vtab D} (hzero : base.zeroTableData = base)
    (hframe : left = { base with
      rowFlags := left.rowFlags
      colFlags := left.colFlags
      rowIxMap := left.rowIxMap
      colWidth := left.colWidth
      cell := left.cell })
    (hrule : rulePlace base ∉ base.ixs base.dataPlaces)
    (hcells : ∀ ix, ix ∉ base.ixs base.dataPlaces → ix ≠ rulePlace base → left.cell ix = base.cell ix) :
    left.zeroTableData = reusing base left := by
  have hcell : (fun ix => if ix ∈ base.ixs base.dataPlaces then Cell.double 0 else left.cell ix) =
      Function.update base.cell (rulePlace base) (left.cell (rulePlace base)) := by
    funext ix
    by_cases hix : ix ∈ base.ixs base.dataPlaces
    · have hne : ix ≠ rulePlace base := fun heq => hrule (heq ▸ hix)
      rw [if_pos hix, Function.update_of_ne hne, cell_of_zeroed hzero hix]
    · rw [if_neg hix]
      by_cases heq : ix = rulePlace base
      · rw [heq, Function.update_self]
      · rw [Function.update_of_ne heq, hcells ix hix heq]
  rw [Vtab.zeroTableData_eq, reusing, ← hcell]
  generalize left.rowFlags = rowFlags, left.colFlags = colFlags, left.rowIxMap = rowIxMap, left.colWidth = colWidth,
    left.cell = cell at *
  rw [hframe]
  rfl

/-- The table before its rows are sorted. -/
def ready (stat : Numastat D) (table : Vtab D) : Vtab D := stat.setRule ruleRow (stat.setColWidths table)

/-- The places of the row of dashes. -/
def ruleIxs (stat : Numastat D) (table : Vtab D) : List Nat :=
  table.ixs ((List.range (headerCols + stat.numNodes + 1)).map (ruleRow, ·))

theorem rulePlace_mem_ruleIxs : rulePlace table ∈ stat.ruleIxs table := by
  refine List.mem_map.mpr ⟨(ruleRow, 0), List.mem_map.mpr ⟨0, ?_, rfl⟩, rfl⟩
  rw [List.mem_range]
  exact Nat.succ_pos _

/-- A place of the row of dashes is its label or in the data area. -/
theorem mem_data_of_mem_ruleIxs (h : Fresh stat table) {ix : Nat} (hix : ix ∈ stat.ruleIxs table) :
    ix = rulePlace table ∨ ix ∈ table.ixs table.dataPlaces := by
  obtain ⟨place, hplace, rfl⟩ := List.mem_map.mp hix
  obtain ⟨col, hcol, rfl⟩ := List.mem_map.mp hplace
  rw [List.mem_range] at hcol
  obtain rfl | hpos := Nat.eq_zero_or_pos col
  · exact Or.inl rfl
  · refine Or.inr (List.mem_map.mpr ⟨(ruleRow, col), Vtab.mem_dataPlaces.mpr ?_, rfl⟩)
    rw [h.allRows_eq, h.allCols_eq, h.headerRows_eq, h.headerCols_eq]
    exact ⟨(by decide : headerRows ≤ ruleRow ∧ ruleRow < 8), hpos, hcol⟩

theorem cellIx_mem_ruleIxs_iff (h : Fresh stat table) {row col : Nat} (hle : col ≤ stat.totalColIx) :
    table.cellIx row col ∈ stat.ruleIxs table ↔ row = ruleRow := by
  have hcols := h.allCols_eq
  constructor
  · intro hmem
    obtain ⟨place, hplace, heq⟩ := List.mem_map.mp hmem
    obtain ⟨k, hk, rfl⟩ := List.mem_map.mp hplace
    rw [List.mem_range] at hk
    have hkcols : k < table.allCols := by
      rw [hcols, totalColIx]
      exact hk
    exact (Vtab.cellIx_inj hkcols (by omega) heq).1.symm
  · rintro rfl
    refine List.mem_map.mpr ⟨(ruleRow, col), List.mem_map.mpr ⟨col, ?_, rfl⟩, rfl⟩
    rw [List.mem_range]
    exact Nat.lt_succ_of_le hle

theorem ready_eq (table : Vtab D) :
    stat.ready table =
      { table with
        rowFlags := Function.update table.rowFlags ruleRow { table.rowFlags ruleRow with alwaysShow := true }
        cell := fun ix => if ix ∈ stat.ruleIxs table then .repchar '-' else table.cell ix
        colWidth := fun col => if stat.autoSized col then stat.autoWidth table col else table.colWidth col } := by
  rw [ready, setRule_eq, setColWidths_eq]
  rfl

/-- A label of dashes needs no more width than none. -/
theorem neededWidth_reusing (h : Fresh stat table) (hblank : isBlank (left.cell (rulePlace table)) = true) {col : Nat}
    (maxWidth : Fin smallBufSize) :
    (reusing table left).neededWidth stat.format col maxWidth = table.neededWidth stat.format col maxWidth := by
  funext width row
  by_cases hplace : table.cellIx row col = rulePlace table
  · have hnew : (reusing table left).getCell row col = left.cell (rulePlace table) := by
      change Function.update table.cell (rulePlace table) _ (table.cellIx row col) = _
      rw [hplace, Function.update_self]
    have hold : table.getCell row col = .null := by
      rw [Vtab.getCell, hplace]
      exact h.rule
    rw [neededWidth_of_isBlank (by rw [hnew]; exact hblank), neededWidth_of_isBlank (by rw [hold]; rfl)]
  · have hcell : (reusing table left).getCell row col = table.getCell row col := Function.update_of_ne hplace _ _
    rw [Vtab.neededWidth, Vtab.neededWidth, hcell]
    rfl

/-- All that the table before has a part in are the flags and the order of the rows. -/
theorem ready_reusing (h : Fresh stat table) (hblank : isBlank (left.cell (rulePlace table)) = true)
    (hwidths : ∀ col, ¬stat.autoSized col = true → left.colWidth col = table.colWidth col) :
    stat.ready (reusing table left) =
      { stat.ready table with
        rowFlags := Function.update left.rowFlags ruleRow { left.rowFlags ruleRow with alwaysShow := true }
        colFlags := left.colFlags
        rowIxMap := left.rowIxMap } := by
  rw [ready_eq, ready_eq]
  apply Vtab.ext <;> try rfl
  · funext ix
    change (if ix ∈ stat.ruleIxs table then Cell.repchar '-' else
      Function.update table.cell (rulePlace table) (left.cell (rulePlace table)) ix) = _
    dsimp only
    by_cases hix : ix ∈ stat.ruleIxs table
    · rw [if_pos hix, if_pos hix]
    · have hne : ix ≠ rulePlace table := fun heq => hix (heq ▸ rulePlace_mem_ruleIxs)
      rw [if_neg hix, if_neg hix, Function.update_of_ne hne]
  · funext col
    dsimp only
    by_cases hauto : stat.autoSized col = true
    · rw [if_pos hauto, if_pos hauto, autoWidth, autoWidth, neededWidth_reusing h hblank, neededWidth_reusing h hblank]
      rfl
    · rw [if_neg hauto, if_neg hauto]
      exact hwidths col hauto

/-! ### The numbers of a process -/

/-- The rows with numbers, which the row of dashes is not. -/
def IsNumberRow (row : Nat) : Prop := headerRows ≤ row ∧ row ≤ ruleRow + 1 ∧ row ≠ ruleRow

/-- Only the numbers of a process are data. -/
structure Numbers (stat : Numastat D) (own : Vtab D) : Prop where
  headerRows_eq : own.headerRows = headerRows
  headerCols_eq : own.headerCols = headerCols
  dataRows_eq : own.dataRows = processMeminfo.length + 2
  dataCols_eq : own.dataCols = stat.numNodes + 1
  isData : ∀ row col, headerRows ≤ row → row ≤ ruleRow + 1 → row ≠ ruleRow → headerCols ≤ col →
    col ≤ stat.totalColIx → (own.getCell row col).isData = true
  rule : ∀ col, col ≤ stat.totalColIx → own.getCell ruleRow col = .repchar '-'
  widths : ∀ col, col ≤ stat.totalColIx → 0 < own.colWidth col ∧ own.colWidth col < smallBufSize

namespace Numbers

variable {own : Vtab D}

theorem mem_dataPlaces (h : Numbers stat own) {place : Nat × Nat} :
    place ∈ own.dataPlaces ↔ (headerRows ≤ place.1 ∧ place.1 ≤ ruleRow + 1) ∧
      headerCols ≤ place.2 ∧ place.2 ≤ stat.totalColIx := by
  rw [Vtab.mem_dataPlaces, Vtab.allRows, Vtab.allCols, h.headerRows_eq, h.headerCols_eq, h.dataRows_eq, h.dataCols_eq,
    totalColIx]
  simp only [ruleRow]
  omega

theorem seen_row (h : Numbers stat own) {row : Nat} (hrow : IsNumberRow row) :
    own.anyAt own.dataPlaces Prod.fst Cell.isData row = true := by
  refine List.any_eq_true.mpr ⟨(row, headerCols), h.mem_dataPlaces.mpr ⟨⟨hrow.1, hrow.2.1⟩, le_refl _, ?_⟩, ?_⟩
  · exact Nat.le_add_right _ _
  · rw [beq_self_eq_true, Bool.true_and]
    exact h.isData row headerCols hrow.1 hrow.2.1 hrow.2.2 (le_refl _) (Nat.le_add_right _ _)

theorem seen_col (h : Numbers stat own) {col : Nat} (hcol : headerCols ≤ col) (hle : col ≤ stat.totalColIx) :
    own.anyAt own.dataPlaces Prod.snd Cell.isData col = true := by
  have hrows : headerRows ≤ ruleRow + 1 := by decide
  refine List.any_eq_true.mpr ⟨(headerRows, col), h.mem_dataPlaces.mpr ⟨⟨le_refl _, hrows⟩, hcol, hle⟩, ?_⟩
  rw [beq_self_eq_true, Bool.true_and]
  exact h.isData headerRows col (le_refl _) (by decide) (by decide) hcol hle

theorem someSeen (h : Numbers stat own) :
    (own.dataPlaces.any fun place => (own.getCell place.1 place.2).isData) = true := by
  refine List.any_eq_true.mpr
    ⟨(headerRows, headerCols), h.mem_dataPlaces.mpr ⟨⟨le_refl _, by decide⟩, le_refl _, ?_⟩, ?_⟩
  · exact Nat.le_add_right _ _
  · exact h.isData headerRows headerCols (le_refl _) (by decide) (by decide) (le_refl _) (Nat.le_add_right _ _)

end Numbers

/-- What a table leaves to the next one: no flag that always shows but for the dashes, and an order of the
categories' rows. -/
structure Leaves (stat : Numastat D) (left : Vtab D) : Prop where
  rows : ∀ row, row ≠ ruleRow → (left.rowFlags row).alwaysShow = false
  cols : ∀ col, (left.colFlags col).alwaysShow = false
  outside : ∀ k, k < headerRows ∨ ruleRow - 1 < k → left.rowIxMap k = k
  window : (SelectionSort.window left.rowIxMap headerRows (ruleRow - 1)).Perm
    (SelectionSort.window id headerRows (ruleRow - 1))
  unsorted : stat.sortTable = false → left.rowIxMap = id

/-- Nothing is left by a table before the first process. -/
structure Untouched (left : Vtab D) : Prop where
  rowFlags_eq : left.rowFlags = fun _ => ⟨false, false, false⟩
  colFlags_eq : left.colFlags = fun _ => ⟨false, false, false⟩
  rowIxMap_eq : left.rowIxMap = id

theorem Fresh.untouched (h : Fresh stat table) : Untouched table := ⟨h.rowFlags_eq, h.colFlags_eq, h.rowIxMap_eq⟩

theorem Untouched.leaves {first : Vtab D} (h : Untouched first) (stat : Numastat D) : Leaves stat first where
  rows row _ := by rw [h.rowFlags_eq]
  cols col := by rw [h.colFlags_eq]
  outside k _ := by rw [h.rowIxMap_eq, id]
  window := by rw [h.rowIxMap_eq]
  unsorted _ := h.rowIxMap_eq

end Prepare

/-! ### What is displayed -/

section Display

variable {D : Type} [LinearOrder D] [Zero D] {stat : Numastat D}

/-- The number by which a row is sorted. -/
def sortKey (stat : Numastat D) (table : Vtab D) (row : Nat) : D :=
  (table.getCell row stat.sortCol).asDouble stat.format

/-- The order of the rows, from the order they had before. -/
def sortedMap (stat : Numastat D) (table : Vtab D) (rowIxMap : Nat → Nat) : Nat → Nat :=
  if stat.sortTable then SelectionSort.sort (stat.sortKey table) rowIxMap headerRows (ruleRow - 1) else rowIxMap

/-- The table that is displayed: a process's own numbers, with the flags and the order of the rows that another
table has left. -/
def displayed (stat : Numastat D) (own left : Vtab D) : Vtab D :=
  { own with
    rowFlags := Function.update left.rowFlags ruleRow { left.rowFlags ruleRow with alwaysShow := true }
    colFlags := left.colFlags
    rowIxMap := stat.sortedMap own left.rowIxMap }

theorem sortRows_verbose (hverbose : stat.verbose = true) {numPids : Nat} (table : Vtab D) :
    stat.sortRows numPids table = { table with rowIxMap := stat.sortedMap table table.rowIxMap } := by
  rw [sortRows, sortedMap, dataRows_verbose hverbose]
  by_cases hsort : stat.sortTable = true
  · rw [if_pos hsort, if_pos hsort]
    rfl
  · rw [if_neg hsort, if_neg hsort]

theorem prepareTable_verbose (hverbose : stat.verbose = true) {numPids : Nat} (table : Vtab D) :
    stat.prepareTable numPids table = stat.sortRows numPids (stat.ready table) := by
  rw [prepareTable, totalRowIx_verbose hverbose]
  rfl

theorem prepareTable_reusing (hverbose : stat.verbose = true) {numPids : Nat} {table left : Vtab D}
    (h : Fresh stat table) (hblank : isBlank (left.cell (rulePlace table)) = true)
    (hwidths : ∀ col, ¬stat.autoSized col = true → left.colWidth col = table.colWidth col) :
    stat.prepareTable numPids (reusing table left) = stat.displayed (stat.ready table) left := by
  rw [prepareTable_verbose hverbose, ready_reusing h hblank hwidths, sortRows_verbose hverbose]
  rfl

/-- The row has a number that is not 0. -/
def rowNonZero (own : Vtab D) (row : Nat) : Bool := own.anyAt own.dataPlaces Prod.fst Cell.isNonZero row

def colNonZero (own : Vtab D) (col : Nat) : Bool := own.anyAt own.dataPlaces Prod.snd Cell.isNonZero col

def someNonZero (own : Vtab D) : Bool := own.dataPlaces.any fun place => (own.getCell place.1 place.2).isNonZero

/-- The displayed table after its rows and columns are marked. -/
def marked (stat : Numastat D) (own left : Vtab D) : Vtab D := (stat.displayed own left).markData.table

theorem marked_eq (own left : Vtab D) :
    stat.marked own left =
      { own with
        rowFlags := Vtab.markFlags
          (Function.update left.rowFlags ruleRow { left.rowFlags ruleRow with alwaysShow := true })
          (own.anyAt own.dataPlaces Prod.fst Cell.isData) (rowNonZero own)
        colFlags := Vtab.markFlags left.colFlags (own.anyAt own.dataPlaces Prod.snd Cell.isData) (colNonZero own)
        rowIxMap := stat.sortedMap own left.rowIxMap } := by
  rw [marked, Vtab.markData_eq]
  rfl

variable {own left : Vtab D}

theorem showsRow_marked (h : Numbers stat own) (hleft : Leaves stat left) {row : Nat} (hrow : IsNumberRow row) :
    (stat.marked own left).showsRow stat.showOptions row =
      (stat.showZeroData || ((left.rowFlags row).nonZeroData || rowNonZero own row)) := by
  rw [marked_eq, Vtab.showsRow]
  simp only [Vtab.markFlags, Function.update_of_ne hrow.2.2, hleft.rows row hrow.2.2, h.seen_row hrow, showOptions,
    Bool.or_true, Bool.true_and, Bool.false_or]

theorem showsRow_rule : (stat.marked own left).showsRow stat.showOptions ruleRow = true := by
  rw [marked_eq, Vtab.showsRow]
  simp only [Vtab.markFlags, Function.update_self, Bool.true_or]

theorem showsCol_marked (h : Numbers stat own) (hleft : Leaves stat left) {col : Nat} (hcol : headerCols ≤ col)
    (hle : col ≤ stat.totalColIx) :
    (stat.marked own left).showsCol stat.showOptions col =
      (stat.showZeroData || ((left.colFlags col).nonZeroData || colNonZero own col)) := by
  rw [marked_eq, Vtab.showsCol]
  simp only [Vtab.markFlags, hleft.cols col, h.seen_col hcol hle, showOptions, Bool.or_true, Bool.true_and,
    Bool.false_or]

/-- A row of a category, or the total, is displayed. -/
def rowShown (stat : Numastat D) (own left : Vtab D) (row : Nat) : Bool :=
  stat.showZeroData || ((left.rowFlags row).nonZeroData || rowNonZero own row)

def colShown (stat : Numastat D) (own left : Vtab D) (col : Nat) : Bool :=
  stat.showZeroData || ((left.colFlags col).nonZeroData || colNonZero own col)

/-- The rows of the categories in the order in which they are displayed. -/
def categoryRows (stat : Numastat D) (own left : Vtab D) : List Nat :=
  (SelectionSort.window (stat.sortedMap own left.rowIxMap) headerRows (ruleRow - 1)).filter (stat.rowShown own left)

/-- All rows displayed. -/
def rowsShown (stat : Numastat D) (own left : Vtab D) : List Nat :=
  List.range headerRows ++ stat.categoryRows own left ++ [ruleRow] ++
    [ruleRow + 1].filter (stat.rowShown own left)

def colsShown (stat : Numastat D) (own left : Vtab D) : List (List Nat) :=
  LineLayout.sections (stat.colShown own left) own.colWidth own.allCols own.headerWidth stat.screenWidth
    (own.allCols + 1) own.headerCols

theorem sortedMap_outside (hleft : Leaves stat left) {k : Nat} (hk : k < headerRows ∨ ruleRow - 1 < k) :
    stat.sortedMap own left.rowIxMap k = k := by
  rw [sortedMap]
  split
  · rw [SelectionSort.sort_of_outside hk]
    exact hleft.outside k hk
  · exact hleft.outside k hk

theorem window_sortedMap (hleft : Leaves stat left) :
    (SelectionSort.window (stat.sortedMap own left.rowIxMap) headerRows (ruleRow - 1)).Perm
      (SelectionSort.window id headerRows (ruleRow - 1)) := by
  rw [sortedMap]
  split
  · exact SelectionSort.window_sort.trans hleft.window
  · exact hleft.window

theorem mem_window {m : Nat → Nat} (h : (SelectionSort.window m headerRows (ruleRow - 1)).Perm
    (SelectionSort.window id headerRows (ruleRow - 1))) {row : Nat} :
    row ∈ SelectionSort.window m headerRows (ruleRow - 1) ↔ headerRows ≤ row ∧ row < ruleRow := by
  rw [h.mem_iff, SelectionSort.window, List.map_id, List.mem_range'_1]
  simp only [headerRows, ruleRow]
  omega

theorem displayedRows_marked (h : Numbers stat own) (hleft : Leaves stat left) :
    (stat.marked own left).displayedRows stat.showOptions = stat.rowsShown own left := by
  have hmap : (stat.marked own left).rowIxMap = stat.sortedMap own left.rowIxMap := by rw [marked_eq]
  have hall : (stat.marked own left).allRows = 8 := by
    rw [marked_eq, Vtab.allRows, h.headerRows_eq, h.dataRows_eq]
    rfl
  have hheader : (stat.marked own left).headerRows = headerRows := by
    rw [marked_eq]
    exact h.headerRows_eq
  have hsplit : (List.range 8).map (stat.sortedMap own left.rowIxMap) =
      List.range headerRows ++ SelectionSort.window (stat.sortedMap own left.rowIxMap) headerRows (ruleRow - 1) ++
        [ruleRow] ++ [ruleRow + 1] := by
    have hrange : List.range 8 = List.range headerRows ++ List.range' headerRows (ruleRow - 1 + 1 - headerRows) ++
        [ruleRow] ++ [ruleRow + 1] := by decide
    have htop : (List.range headerRows).map (stat.sortedMap own left.rowIxMap) = List.range headerRows := by
      refine (List.map_congr_left fun k hk => ?_).trans (List.map_id' _)
      exact sortedMap_outside hleft (Or.inl (List.mem_range.mp hk))
    rw [hrange, List.map_append, List.map_append, List.map_append, htop, List.map_singleton, List.map_singleton,
      sortedMap_outside hleft (Or.inr (by decide)), sortedMap_outside hleft (Or.inr (by decide))]
    rfl
  have hnumber : ∀ row, IsNumberRow row →
      (decide (row < headerRows) || (stat.marked own left).showsRow stat.showOptions row) =
        stat.rowShown own left row := by
    intro row hrow
    rw [showsRow_marked h hleft hrow, decide_eq_false (Nat.not_lt.mpr hrow.1), Bool.false_or]
    rfl
  have htop : (List.range headerRows).filter (fun row =>
      decide (row < headerRows) || (stat.marked own left).showsRow stat.showOptions row) = List.range headerRows := by
    rw [List.filter_eq_self]
    intro row hrow
    rw [decide_eq_true (List.mem_range.mp hrow), Bool.true_or]
  have hrule : [ruleRow].filter (fun row =>
      decide (row < headerRows) || (stat.marked own left).showsRow stat.showOptions row) = [ruleRow] := by
    rw [List.filter_singleton, showsRow_rule, Bool.or_true]
    rfl
  rw [Vtab.displayedRows, hall, hmap, hheader, hsplit, List.filter_append, List.filter_append, List.filter_append,
    htop, hrule, rowsShown, categoryRows]
  congr 1
  · congr 2
    apply List.filter_congr
    intro row hrow
    obtain ⟨hle, hlt⟩ := (mem_window (window_sortedMap hleft)).mp hrow
    exact hnumber row ⟨hle, by omega, hlt.ne⟩
  · apply List.filter_congr
    intro row hrow
    obtain rfl := List.mem_singleton.mp hrow
    exact hnumber _ ⟨by decide, le_refl _, by decide⟩

/-- The columns are as wide as the buffers of the cells allow. -/
theorem inBuffers_marked (h : Numbers stat own) : (stat.marked own left).InBuffers stat.showOptions := by
  intro row _ dataCol hdata col hcol
  have hle : col ≤ stat.totalColIx := by
    have hlast := (Vtab.mem_shownCols.mp hdata).1.2
    rw [marked_eq, Vtab.allCols, h.headerCols_eq, h.dataCols_eq] at hlast
    rw [marked_eq, h.headerCols_eq, List.mem_append, List.mem_range, List.mem_singleton] at hcol
    rw [totalColIx]
    omega
  have hwidth : (stat.marked own left).colWidth = own.colWidth := by rw [marked_eq]
  obtain ⟨hpos, hlt⟩ := h.widths col hle
  rw [hwidth]
  cases (stat.marked own left).getCell row col with
  | null => exact decide_eq_true hlt
  | double d => exact decide_eq_true hlt
  | string s => exact decide_eq_true hlt
  | repchar c => exact Bool.and_eq_true_iff.mpr ⟨decide_eq_true hpos, decide_eq_true hlt⟩

theorem sectionCols_marked (h : Numbers stat own) (hleft : Leaves stat left) :
    (stat.marked own left).sectionCols stat.screenWidth stat.showOptions = stat.colsShown own left := by
  have hcols : own.allCols = stat.totalColIx + 1 := by
    rw [Vtab.allCols, h.headerCols_eq, h.dataCols_eq, totalColIx]
    omega
  have hshows : ∀ col, own.headerCols ≤ col → col < own.allCols →
      (stat.marked own left).showsCol stat.showOptions col = stat.colShown own left col := by
    intro col hcol hlt
    rw [h.headerCols_eq] at hcol
    exact showsCol_marked h hleft hcol (by omega)
  rw [Vtab.sectionCols, colsShown, ← LineLayout.sections_congr hshows]
  generalize (stat.marked own left).showsCol stat.showOptions = shows
  rw [marked_eq]
  rfl

/-- What is printed for a process: a message, or its own numbers in the rows and columns shown. -/
theorem displayTable_displayed (h : Numbers stat own) (hleft : Leaves stat left) :
    ((stat.displayed own left).displayTable stat.format stat.screenWidth stat.showOptions).2 =
      if someNonZero own = false ∧ stat.showZeroData = false then .noNonZeroData
      else .lines (some (own.printSections stat.format (stat.rowsShown own left) true (stat.colsShown own left))) := by
  have hseen : (stat.displayed own left).markData.someSeenData = true := by
    rw [Vtab.markData_eq]
    exact h.someSeen
  have hnonZero : (stat.displayed own left).markData.someNonZeroData = someNonZero own := by
    rw [Vtab.markData_eq]
    rfl
  have hrows : (stat.marked own left).displayedRows stat.showOptions ≠ [] := by
    rw [displayedRows_marked h hleft, rowsShown]
    simp
  have hprint : ∀ rows first secs, (stat.marked own left).printSections stat.format rows first secs =
      own.printSections stat.format rows first secs := by
    intro rows first secs
    induction secs generalizing first with
    | nil => rfl
    | cons cols secs ih =>
        rw [Vtab.printSections, Vtab.printSections, ih]
        congr 2
        apply List.map_congr_left
        intro row _
        rw [marked_eq]
        rfl
  have hlines : (stat.marked own left).sectionLoop stat.format stat.screenWidth stat.showOptions
      ((stat.marked own left).allCols + 1) (stat.marked own left).headerCols (-1) =
        some (own.printSections stat.format (stat.rowsShown own left) true (stat.colsShown own left)) := by
    rw [Vtab.sectionLoop_eq (inBuffers_marked h) hrows (le_refl _) (by omega), displayedRows_marked h hleft, hprint,
      ← sectionCols_marked h hleft]
    rfl
  rw [Vtab.displayTable, if_neg (not_not.mpr hseen), hnonZero]
  change (if ¬someNonZero own = true ∧ ¬stat.showZeroData = true ∧ ¬stat.showZeroData = true then
    (stat.marked own left, TableOutput.noNonZeroData) else (stat.marked own left, TableOutput.lines _)).2 = _
  rw [marked] at hlines
  rw [hlines]
  by_cases hnone : someNonZero own = false ∧ stat.showZeroData = false
  · rw [if_pos hnone, hnone.1, hnone.2]
    rfl
  · rw [if_neg hnone, if_neg]
    intro hboth
    exact hnone ⟨Bool.eq_false_iff.mpr hboth.1, Bool.eq_false_iff.mpr hboth.2.1⟩

/-- What an earlier table has left makes no difference to the numbers of a process: no mark of a row or column is
of one that is zero in them, and the order of the rows is the first one unless no two rows shown have the same
number to be sorted by. -/
structure Unaffected (stat : Numastat D) (own left : Vtab D) : Prop where
  shown : stat.showZeroData = true ∨ someNonZero own = false ∨
    (∀ row, IsNumberRow row → (left.rowFlags row).nonZeroData = true → rowNonZero own row = true) ∧
      ∀ col, headerCols ≤ col → col ≤ stat.totalColIx → (left.colFlags col).nonZeroData = true →
        colNonZero own col = true
  ordered : stat.sortTable = false ∨ someNonZero own = false ∧ stat.showZeroData = false ∨
    (∀ row, headerRows ≤ row → row < ruleRow → left.rowIxMap row = row) ∨
      ∀ row row', headerRows ≤ row → row < ruleRow → headerRows ≤ row' → row' < ruleRow →
        (stat.showZeroData || rowNonZero own row) = true → (stat.showZeroData || rowNonZero own row') = true →
          stat.sortKey own row = stat.sortKey own row' → row = row'

instance : DecidablePred IsNumberRow := fun row =>
  inferInstanceAs (Decidable (headerRows ≤ row ∧ row ≤ ruleRow + 1 ∧ row ≠ ruleRow))

theorem unaffected_iff :
    Unaffected stat own left ↔
      (stat.showZeroData = true ∨ someNonZero own = false ∨
        (∀ row < ruleRow + 2, IsNumberRow row → (left.rowFlags row).nonZeroData = true → rowNonZero own row = true) ∧
          ∀ col < stat.totalColIx + 1, headerCols ≤ col → (left.colFlags col).nonZeroData = true →
            colNonZero own col = true) ∧
      (stat.sortTable = false ∨ someNonZero own = false ∧ stat.showZeroData = false ∨
        (∀ row < ruleRow, headerRows ≤ row → left.rowIxMap row = row) ∨
          ∀ row < ruleRow, ∀ row' < ruleRow, headerRows ≤ row ∧ headerRows ≤ row' ∧
            (stat.showZeroData || rowNonZero own row) = true ∧ (stat.showZeroData || rowNonZero own row') = true ∧
              stat.sortKey own row = stat.sortKey own row' → row = row') := by
  constructor
  · rintro ⟨hshown, hordered⟩
    refine ⟨hshown.imp_right (Or.imp_right fun h => ⟨fun row _ => h.1 row, fun col hlt hle => ?_⟩), ?_⟩
    · exact h.2 col hle (Nat.le_of_lt_succ hlt)
    · refine hordered.imp_right (Or.imp_right (Or.imp (fun h row hlt hle => h row hle hlt) ?_))
      rintro h row hlt row' hlt' ⟨hle, hle', hshown, hshown', hkey⟩
      exact h row row' hle hlt hle' hlt' hshown hshown' hkey
  · rintro ⟨hshown, hordered⟩
    refine ⟨hshown.imp_right (Or.imp_right fun h => ⟨fun row hrow => ?_, fun col hle hlt => ?_⟩), ?_⟩
    · exact h.1 row (Nat.lt_succ_of_le hrow.2.1) hrow
    · exact h.2 col (Nat.lt_succ_of_le hlt) hle
    · refine hordered.imp_right (Or.imp_right (Or.imp (fun h row hle hlt => h row hlt hle) ?_))
      intro h row row' hle hlt hle' hlt' hshown hshown' hkey
      exact h row hlt row' hlt' ⟨hle, hle', hshown, hshown', hkey⟩

instance (own left : Vtab D) : Decidable (Unaffected stat own left) := decidable_of_iff _ unaffected_iff.symm

theorem Untouched.rowShown_eq {first : Vtab D} (h : Untouched first) (row : Nat) :
    stat.rowShown own first row = (stat.showZeroData || rowNonZero own row) := by
  rw [rowShown, h.rowFlags_eq, Bool.false_or]

theorem Untouched.colShown_eq {first : Vtab D} (h : Untouched first) (col : Nat) :
    stat.colShown own first col = (stat.showZeroData || colNonZero own col) := by
  rw [colShown, h.colFlags_eq, Bool.false_or]

theorem mem_colsShown (h : Numbers stat own) {col : Nat} :
    col ∈ (stat.colsShown own left).flatten ↔
      (headerCols ≤ col ∧ col ≤ stat.totalColIx) ∧ stat.colShown own left col = true := by
  rw [colsShown, LineLayout.flatten_sections (by omega), LineLayout.line, List.mem_filter, List.mem_range'_1,
    h.headerCols_eq, Vtab.allCols, h.headerCols_eq, h.dataCols_eq, totalColIx]
  apply and_congr_left'
  omega

/-- Some column is displayed, if anything is. -/
theorem exists_mem_colsShown (h : Numbers stat own) (hsome : ¬(someNonZero own = false ∧ stat.showZeroData = false)) :
    ∃ col, headerCols ≤ col ∧ ∀ left, col ∈ (stat.colsShown own left).flatten := by
  by_cases hzero : stat.showZeroData = true
  · refine ⟨headerCols, le_refl _, fun left => ?_⟩
    rw [mem_colsShown h, colShown, hzero, Bool.true_or]
    exact ⟨⟨le_refl _, Nat.le_add_right _ _⟩, rfl⟩
  · have hnonZero : someNonZero own = true :=
      Bool.eq_true_of_not_eq_false fun hnone => hsome ⟨hnone, Bool.eq_false_iff.mpr hzero⟩
    obtain ⟨⟨row, col⟩, hplace, hcell⟩ := List.any_eq_true.mp hnonZero
    have hcol : colNonZero own col = true :=
      List.any_eq_true.mpr ⟨(row, col), hplace, by rw [beq_self_eq_true, Bool.true_and]; exact hcell⟩
    refine ⟨col, (h.mem_dataPlaces.mp hplace).2.1, fun left => ?_⟩
    rw [mem_colsShown h, colShown, hcol, Bool.or_true, Bool.or_true]
    exact ⟨(h.mem_dataPlaces.mp hplace).2, rfl⟩

theorem mem_rowsShown (hleft : Leaves stat left) {row : Nat} (hrow : IsNumberRow row) :
    row ∈ stat.rowsShown own left ↔ stat.rowShown own left row = true := by
  obtain ⟨hle, htotal, hrule⟩ := hrow
  simp only [rowsShown, categoryRows, List.mem_append, List.mem_filter, List.mem_range, List.mem_singleton,
    mem_window (window_sortedMap hleft)]
  constructor
  · rintro (((hlt | ⟨-, hshown⟩) | rfl) | ⟨-, hshown⟩)
    · omega
    · exact hshown
    · exact absurd rfl hrule
    · exact hshown
  · intro hshown
    obtain hlt | rfl : row < ruleRow ∨ row = ruleRow + 1 := by omega
    · exact Or.inl (Or.inl (Or.inr ⟨⟨hle, hlt⟩, hshown⟩))
    · exact Or.inr ⟨rfl, hshown⟩

theorem shown_eq_iff {zero left own : Bool} :
    (zero || (left || own)) = (zero || own) ↔ zero = true ∨ (left = true → own = true) := by
  cases zero <;> cases left <;> cases own <;> simp

/-- The categories come in the same order, as far as they are shown. -/
theorem categoryRows_of_unaffected (hleft : Leaves stat left) {first : Vtab D} (hfirst : Untouched first)
    (hguard : Unaffected stat own left) (hsome : ¬(someNonZero own = false ∧ stat.showZeroData = false))
    (hrows : ∀ row, IsNumberRow row → stat.rowShown own left row = stat.rowShown own first row) :
    stat.categoryRows own left = stat.categoryRows own first := by
  have hfilter : stat.categoryRows own left =
      (SelectionSort.window (stat.sortedMap own left.rowIxMap) headerRows (ruleRow - 1)).filter
        (stat.rowShown own first) := by
    apply List.filter_congr
    intro row hrow
    obtain ⟨hle, hlt⟩ := (mem_window (window_sortedMap hleft)).mp hrow
    exact hrows row ⟨hle, by omega, hlt.ne⟩
  rw [hfilter, categoryRows]
  rcases hguard.ordered with hsort | hnone | hinit | hties
  · rw [hleft.unsorted hsort, hfirst.rowIxMap_eq]
  · exact absurd hnone hsome
  · have hmap : left.rowIxMap = id := by
      funext k
      by_cases hk : headerRows ≤ k ∧ k < ruleRow
      · exact hinit k hk.1 hk.2
      · have hpos : headerRows < ruleRow := by decide
        exact hleft.outside k (by omega)
    rw [hmap, hfirst.rowIxMap_eq]
  · by_cases hsort : stat.sortTable = true
    · rw [sortedMap, sortedMap, if_pos hsort, if_pos hsort]
      apply SelectionSort.filter_window_sort (hleft.window.trans (hfirst.leaves stat).window.symm)
      intro row hrow row' hrow' hshown hshown' hkey
      rw [mem_window hleft.window] at hrow hrow'
      rw [hfirst.rowShown_eq] at hshown hshown'
      exact hties row row' hrow.1 hrow.2 hrow'.1 hrow'.2 hshown hshown' hkey
    · rw [hleft.unsorted (Bool.eq_false_iff.mpr hsort), hfirst.rowIxMap_eq]

/-- Where it makes no difference, the process is shown as it would be alone. -/
theorem displayTable_of_unaffected (h : Numbers stat own) (hleft : Leaves stat left) {first : Vtab D}
    (hfirst : Untouched first) (hguard : Unaffected stat own left) :
    ((stat.displayed own left).displayTable stat.format stat.screenWidth stat.showOptions).2 =
      ((stat.displayed own first).displayTable stat.format stat.screenWidth stat.showOptions).2 := by
  rw [displayTable_displayed h hleft, displayTable_displayed h (hfirst.leaves stat)]
  by_cases hnone : someNonZero own = false ∧ stat.showZeroData = false
  · rw [if_pos hnone, if_pos hnone]
  have hmarks : ∀ {nonZero number : Bool}, (stat.showZeroData = true ∨ (nonZero = true → number = true)) →
      (stat.showZeroData || (nonZero || number)) = (stat.showZeroData || number) := shown_eq_iff.mpr
  have hrows : ∀ row, IsNumberRow row → stat.rowShown own left row = stat.rowShown own first row := by
    intro row hrow
    rw [hfirst.rowShown_eq]
    apply hmarks
    rcases hguard.shown with hzero | hsome | ⟨hrows, -⟩
    · exact Or.inl hzero
    · exact Or.inl (Bool.eq_true_of_not_eq_false fun hzero => hnone ⟨hsome, hzero⟩)
    · exact Or.inr (hrows row hrow)
  have hcols : ∀ col, own.headerCols ≤ col → col < own.allCols →
      stat.colShown own left col = stat.colShown own first col := by
    intro col hcol hlt
    rw [h.headerCols_eq] at hcol
    rw [Vtab.allCols, h.headerCols_eq, h.dataCols_eq] at hlt
    rw [hfirst.colShown_eq]
    apply hmarks
    rcases hguard.shown with hzero | hsome | ⟨-, hcols⟩
    · exact Or.inl hzero
    · exact Or.inl (Bool.eq_true_of_not_eq_false fun hzero => hnone ⟨hsome, hzero⟩)
    · exact Or.inr (hcols col hcol (by rw [totalColIx]; omega))
  have hcategories := categoryRows_of_unaffected hleft hfirst hguard hnone hrows
  have htotal : [ruleRow + 1].filter (stat.rowShown own left) = [ruleRow + 1].filter (stat.rowShown own first) := by
    apply List.filter_congr
    intro row hrow
    obtain rfl := List.mem_singleton.mp hrow
    exact hrows _ ⟨by decide, le_refl _, by decide⟩
  rw [if_neg hnone, if_neg hnone, rowsShown, rowsShown, hcategories, htotal, colsShown, colsShown,
    LineLayout.sections_congr hcols]

/-- Without sorting, it is shown as it would be alone only there. -/
theorem unaffected_of_displayTable (h : Numbers stat own) (hleft : Leaves stat left) {first : Vtab D}
    (hfirst : Untouched first) (hsort : stat.sortTable = false)
    (hsame : ((stat.displayed own left).displayTable stat.format stat.screenWidth stat.showOptions).2 =
      ((stat.displayed own first).displayTable stat.format stat.screenWidth stat.showOptions).2) :
    Unaffected stat own left := by
  refine ⟨?_, Or.inl hsort⟩
  by_cases hzero : stat.showZeroData = true
  · exact Or.inl hzero
  by_cases hsome : someNonZero own = true
  swap
  · exact Or.inr (Or.inl (Bool.eq_false_iff.mpr hsome))
  have hnot : ¬(someNonZero own = false ∧ stat.showZeroData = false) := fun hnone => by
    rw [hsome] at hnone
    cases hnone.1
  rw [displayTable_displayed h hleft, displayTable_displayed h (hfirst.leaves stat), if_neg hnot, if_neg hnot,
    TableOutput.lines.injEq, Option.some.injEq] at hsame
  have hprinted : ∀ row col, headerCols ≤ col →
      (row ∈ stat.rowsShown own left ∧ col ∈ (stat.colsShown own left).flatten ↔
        row ∈ stat.rowsShown own first ∧ col ∈ (stat.colsShown own first).flatten) := by
    intro row col hcol
    have hheader : own.headerCols ≤ col := h.headerCols_eq.trans_le hcol
    rw [← Vtab.shownIn_printSections hheader, hsame, Vtab.shownIn_printSections hheader]
  have hrule : ∀ left, ruleRow ∈ stat.rowsShown own left := by
    intro left
    simp [rowsShown]
  obtain ⟨col, hcol, hmem⟩ := exists_mem_colsShown h hnot
  have hmark : ∀ {nonZero number : Bool},
      ((stat.showZeroData || (nonZero || number)) = true ↔ (stat.showZeroData || number) = true) →
        nonZero = true → number = true := by
    intro nonZero number hiff
    exact (shown_eq_iff.mp (Bool.eq_iff_iff.mpr hiff)).resolve_left hzero
  refine Or.inr (Or.inr ⟨fun row hrow => ?_, fun col hcol hle => ?_⟩)
  · have hiff := hprinted row col hcol
    rw [and_iff_left (hmem left), and_iff_left (hmem first), mem_rowsShown hleft hrow,
      mem_rowsShown (hfirst.leaves stat) hrow, hfirst.rowShown_eq] at hiff
    exact hmark hiff
  · have hiff := hprinted ruleRow col hcol
    rw [and_iff_right (hrule left), and_iff_right (hrule first), mem_colsShown h, mem_colsShown h,
      and_iff_right ⟨hcol, hle⟩, and_iff_right ⟨hcol, hle⟩, hfirst.colShown_eq] at hiff
    exact hmark hiff

/-- The rows are in the same order where it is shown as it would be alone. -/
theorem rowsShown_of_displayTable (h : Numbers stat own) (hleft : Leaves stat left) {first : Vtab D}
    (hfirst : Untouched first) (hsome : ¬(someNonZero own = false ∧ stat.showZeroData = false))
    (hsame : ((stat.displayed own left).displayTable stat.format stat.screenWidth stat.showOptions).2 =
      ((stat.displayed own first).displayTable stat.format stat.screenWidth stat.showOptions).2) :
    stat.rowsShown own left = stat.rowsShown own first := by
  rw [displayTable_displayed h hleft, displayTable_displayed h (hfirst.leaves stat), if_neg hsome, if_neg hsome,
    TableOutput.lines.injEq, Option.some.injEq] at hsame
  obtain ⟨col, -, hmem⟩ := exists_mem_colsShown h hsome
  have hsecs : ∀ left, stat.colsShown own left ≠ [] := by
    intro left hnil
    have hcol := hmem left
    rw [hnil] at hcol
    cases hcol
  exact Vtab.rows_of_printSections (h.headerCols_eq ▸ Nat.one_pos) (hsecs left) (hsecs first) hsame

end Display

end Numastat

end Numactl
