import Numactl.SortColumn

/-! The table of all processes (`show_process_info` in `numastat.c` without `-v`). Every file that is read adds up
to a row of the table and to the total, and the table is displayed in the iteration of the last process, behind
the place where an iteration ends early because a file cannot be opened. -/

namespace Numactl

namespace Numastat

/-! ### Sums -/

section Sums

variable {D : Type} [Zero D] [Add D]

/-- Values added one after the other, as a cell is added to. -/
def sumOf (vs : List D) : D := vs.foldl (· + ·) 0

def nodeSum (es : List (Entry D)) (nodeIx : Nat) : D :=
  sumOf ((es.filter fun e => decide (e.nodeIx = nodeIx)).map (·.value))

def allSum (es : List (Entry D)) : D := sumOf (es.map (·.value))

/-- The row has the sums of the entries for each node, and their sum. -/
structure HoldsSums (stat : Numastat D) (table : Vtab D) (row : Nat) (es : List (Entry D)) : Prop where
  node : ∀ i < stat.numNodes, table.getCell row (headerCols + i) = .double (nodeSum es i)
  total : table.getCell row stat.totalColIx = .double (allSum es)

theorem sumOf_concat (vs : List D) (v : D) : sumOf (vs ++ [v]) = sumOf vs + v := by
  rw [sumOf, List.foldl_append]
  rfl

theorem allSum_concat (es : List (Entry D)) (e : Entry D) : allSum (es ++ [e]) = allSum es + e.value := by
  rw [allSum, List.map_append]
  exact sumOf_concat _ _

theorem nodeSum_concat (es : List (Entry D)) (e : Entry D) (i : Nat) :
    nodeSum (es ++ [e]) i = if e.nodeIx = i then nodeSum es i + e.value else nodeSum es i := by
  rw [nodeSum, List.filter_append, List.filter_singleton]
  by_cases hi : e.nodeIx = i
  · rw [if_pos hi, decide_eq_true hi, cond_true, List.map_append]
    exact sumOf_concat _ _
  · rw [if_neg hi, decide_eq_false hi, cond_false, List.append_nil]
    rfl

variable {stat : Numastat D} {table : Vtab D}

omit [Zero D] [Add D] in
theorem getCell_setCell {row col row' col' : Nat} (hcol : col < table.allCols) (hcol' : col' < table.allCols)
    (c : Cell D) :
    (table.setCell row col c).getCell row' col' = if row' = row ∧ col' = col then c else table.getCell row' col' := by
  change Function.update table.cell (table.cellIx row col) c (table.cellIx row' col') = _
  by_cases hplace : row' = row ∧ col' = col
  · rw [if_pos hplace, hplace.1, hplace.2, Function.update_self]
  · rw [if_neg hplace, Function.update_of_ne fun heq => hplace (Vtab.cellIx_inj hcol' hcol heq)]
    rfl

theorem allCols_addValue (totalRow row col : Nat) (value : D) :
    (stat.addValue totalRow table row col value).allCols = table.allCols := by
  rw [addValue, Vtab.doubleAddto, Vtab.allCols_setCell, Vtab.doubleAddto, Vtab.allCols_setCell, Vtab.doubleAddto,
    Vtab.allCols_setCell, Vtab.doubleAddto, Vtab.allCols_setCell]

theorem getCell_doubleAddto {row col row' col' : Nat} (hcol : col < table.allCols) (hcol' : col' < table.allCols)
    (d : D) :
    (table.doubleAddto stat.format row col d).getCell row' col' =
      if row' = row ∧ col' = col then .double ((table.getCell row' col').asDouble stat.format + d)
      else table.getCell row' col' := by
  rw [Vtab.doubleAddto, getCell_setCell hcol hcol']
  by_cases hplace : row' = row ∧ col' = col
  · rw [if_pos hplace, if_pos hplace, hplace.1, hplace.2]
  · rw [if_neg hplace, if_neg hplace]

/-- A value is added to four cells: in its row and in the row of the total, each in its column and in the column
of the total. -/
theorem getCell_addValue (hcols : table.allCols = stat.totalColIx + 1) {totalRow row col row' col' : Nat}
    (hrow : row ≠ totalRow) (hcol : col < stat.totalColIx) (hcol' : col' ≤ stat.totalColIx) (value : D) :
    (stat.addValue totalRow table row col value).getCell row' col' =
      if (row' = row ∨ row' = totalRow) ∧ (col' = col ∨ col' = stat.totalColIx) then
        .double ((table.getCell row' col').asDouble stat.format + value)
      else table.getCell row' col' := by
  have hall : ∀ t : Vtab D, t.allCols = stat.totalColIx + 1 → ∀ r c : Nat, c ≤ stat.totalColIx →
      (t.doubleAddto stat.format r c value).allCols = stat.totalColIx + 1 ∧
        (t.doubleAddto stat.format r c value).getCell row' col' =
          if row' = r ∧ col' = c then .double ((t.getCell row' col').asDouble stat.format + value)
          else t.getCell row' col' :=
    fun t ht r c hc => ⟨ht, getCell_doubleAddto (by omega) (by omega) value⟩
  obtain ⟨h1, hcell1⟩ := hall table hcols row col hcol.le
  obtain ⟨h2, hcell2⟩ := hall _ h1 row stat.totalColIx le_rfl
  obtain ⟨h3, hcell3⟩ := hall _ h2 totalRow col hcol.le
  obtain ⟨-, hcell4⟩ := hall _ h3 totalRow stat.totalColIx le_rfl
  rw [addValue, hcell4, hcell3, hcell2, hcell1]
  by_cases hr : row' = row
  · by_cases hc : col' = col
    · simp only [hr, hc, hrow, hcol.ne, true_and, and_true, or_false, if_true, if_false, false_and]
    · simp only [hr, hc, hrow, true_and, and_false, false_and, true_or, false_or, if_false]
  · by_cases ht : row' = totalRow
    · by_cases hc : col' = col
      · simp only [ht, hc, hrow.symm, hcol.ne, true_and, or_true, true_or, if_true, if_false, false_and]
      · simp only [ht, hc, hrow.symm, true_and, and_false, false_and, or_true, false_or, if_false]
    · simp only [hr, ht, false_and, or_self, if_false]

/-- The sums of a row with the value of one more entry. -/
theorem HoldsSums.addValue (hcols : table.allCols = stat.totalColIx + 1) {totalRow row row' : Nat}
    {es : List (Entry D)} {e : Entry D} (h : HoldsSums stat table row' es) (hrow : row ≠ totalRow)
    (hnode : e.nodeIx < stat.numNodes) :
    HoldsSums stat (stat.addValue totalRow table row (headerCols + e.nodeIx) e.value) row'
      (if row' = row ∨ row' = totalRow then es ++ [e] else es) := by
  have hcol : headerCols + e.nodeIx < stat.totalColIx := Nat.add_lt_add_left hnode _
  by_cases hin : row' = row ∨ row' = totalRow
  · rw [if_pos hin]
    constructor
    · intro i hi
      have hi' : headerCols + i < stat.totalColIx := Nat.add_lt_add_left hi _
      rw [getCell_addValue hcols hrow hcol hi'.le, h.node i hi, nodeSum_concat]
      by_cases heq : e.nodeIx = i
      · rw [if_pos ⟨hin, Or.inl (by rw [heq])⟩, if_pos heq]
        rfl
      · rw [if_neg (by omega), if_neg heq]
    · rw [getCell_addValue hcols hrow hcol le_rfl, if_pos ⟨hin, Or.inr rfl⟩, h.total, allSum_concat]
      rfl
  · rw [if_neg hin]
    constructor
    · intro i hi
      have hi' : headerCols + i < stat.totalColIx := Nat.add_lt_add_left hi _
      rw [getCell_addValue hcols hrow hcol hi'.le, if_neg fun h => hin h.1, h.node i hi]
    · rw [getCell_addValue hcols hrow hcol le_rfl, if_neg fun h => hin h.1, h.total]

/-- A row has the sums of its own entries besides those it had, and the row of the total those of all. -/
theorem HoldsSums.addEntries (hcols : table.allCols = stat.totalColIx + 1) {rowOf : Nat → Nat} {totalRow row : Nat}
    {sofar es : List (Entry D)} (h : HoldsSums stat table row sofar) (hrows : ∀ e ∈ es, rowOf e.category ≠ totalRow)
    (hnodes : ∀ e ∈ es, e.nodeIx < stat.numNodes) :
    HoldsSums stat (stat.addEntries rowOf totalRow table es) row
      (sofar ++ es.filter fun e => decide (row = rowOf e.category ∨ row = totalRow)) := by
  induction es generalizing table sofar with
  | nil =>
      rw [List.filter_nil, List.append_nil]
      exact h
  | cons e es ih =>
      rw [List.forall_mem_cons] at hrows hnodes
      have hstep := h.addValue hcols hrows.1 hnodes.1
      have hrest := ih ((allCols_addValue totalRow _ _ e.value).trans hcols) hstep hrows.2 hnodes.2
      rw [List.filter_cons]
      by_cases hin : row = rowOf e.category ∨ row = totalRow
      · rw [if_pos hin, List.append_assoc] at hrest
        rw [if_pos (decide_eq_true hin)]
        exact hrest
      · rw [if_neg hin] at hrest
        rw [if_neg (by rw [decide_eq_true_eq]; exact hin)]
        exact hrest

end Sums

/-! ### The table before the first process -/

section Shape

variable {D : Type} {stat : Numastat D} {n after : Nat} {table : Vtab D}

theorem Shaped.allCols_eq (h : Shaped stat n after table) : table.allCols = stat.totalColIx + 1 := by
  rw [Vtab.allCols, h.headerCols_eq, h.dataCols_eq, totalColIx]
  omega

theorem Shaped.allRows_eq (h : Shaped stat n after table) : table.allRows = headerRows + n + after := by
  rw [Vtab.allRows, h.headerRows_eq, h.dataRows_eq]
  omega

theorem Shaped.addEntries [Zero D] [Add D] (h : Shaped stat n after table) (rowOf : Nat → Nat) (totalRow : Nat)
    (es : List (Entry D)) : Shaped stat n after (stat.addEntries rowOf totalRow table es) :=
  Shaped.foldl (fun _ e ht => ht.addValue totalRow (rowOf e.category) (headerCols + e.nodeIx) e.value) h es

/-- Every row of the table begins with sums of nothing. -/
theorem holdsSums_processTable [Zero D] [Add D] {numPids row : Nat} (hle : headerRows ≤ row)
    (hlt : row ≤ stat.totalRowIx numPids) : HoldsSums stat (stat.processTable numPids) row [] := by
  have hshape := @shaped_processTable D _ stat numPids
  have hzero : ∀ col, headerCols ≤ col → col ≤ stat.totalColIx →
      (stat.processTable numPids).getCell row col = .double 0 := by
    intro col hcol hcolTotal
    refine cell_of_zeroed zeroTableData_processTable (List.mem_map.mpr ⟨(row, col), ?_, rfl⟩)
    rw [Vtab.mem_dataPlaces, hshape.allRows_eq, hshape.allCols_eq, hshape.headerRows_eq, hshape.headerCols_eq]
    rw [totalRowIx] at hlt
    omega
  exact ⟨fun i hi => hzero _ (Nat.le_add_right _ _) (Nat.add_le_add_left hi.le _),
    hzero _ (Nat.le_add_right _ _) le_rfl⟩

end Shape

/-! ### The table displayed -/

section Displayed

variable {D : Type} [LinearOrder D] [Zero D] [Add D] {stat : Numastat D} {numPids : Nat} {table : Vtab D}

omit [Add D] in
/-- Only the row of dashes is written over before the table is displayed. -/
theorem getCell_prepareTable (hshape : Shaped stat (stat.dataRows numPids) 2 table) {row col : Nat}
    (hrule : row ≠ stat.totalRowIx numPids - 1) (hcol : col ≤ stat.totalColIx) :
    (stat.prepareTable numPids table).getCell row col = table.getCell row col := by
  have hsame : (stat.prepareTable numPids table).getCell row col =
      (stat.setRule (stat.totalRowIx numPids - 1) (stat.setColWidths table)).getCell row col := by
    rw [Numastat.prepareTable, sortRows]
    split
    · rfl
    · rfl
  have hout : table.cellIx row col ∉
      table.ixs ((List.range (headerCols + stat.numNodes + 1)).map (stat.totalRowIx numPids - 1, ·)) := by
    intro hmem
    obtain ⟨place, hplace, heq⟩ := List.mem_map.mp hmem
    obtain ⟨k, hk, rfl⟩ := List.mem_map.mp hplace
    rw [List.mem_range] at hk
    have hcols := hshape.allCols_eq
    rw [totalColIx] at hcols hcol
    exact hrule (Vtab.cellIx_inj (by omega) (by omega) heq).1.symm
  rw [hsame, setRule_eq, setColWidths_eq]
  exact if_neg hout

theorem HoldsSums.prepareTable (hshape : Shaped stat (stat.dataRows numPids) 2 table) {row : Nat} {es : List (Entry D)}
    (h : HoldsSums stat table row es) (hrule : row ≠ stat.totalRowIx numPids - 1) :
    HoldsSums stat (stat.prepareTable numPids table) row es :=
  ⟨fun i hi => (getCell_prepareTable hshape hrule (Nat.add_le_add_left hi.le _)).trans (h.node i hi),
    (getCell_prepareTable hshape hrule le_rfl).trans h.total⟩

omit [Add D] in
theorem Shaped.displayTable {n after : Nat} (h : Shaped stat n after table) :
    Shaped stat n after (table.displayTable stat.format stat.screenWidth stat.showOptions).1 := by
  rw [Vtab.displayTable_fst, Vtab.markData_eq]
  exact ⟨h.headerRows_eq, h.headerCols_eq, h.dataRows_eq, h.dataCols_eq, h.inPlace.of_content _ _ _ _⟩

omit [Add D] in
theorem Shaped.sortRows (h : Shaped stat (stat.dataRows numPids) 2 table) :
    Shaped stat (stat.dataRows numPids) 2 (stat.sortRows numPids table) := by
  rw [Numastat.sortRows]
  split
  · have hsorted := h.inPlace.sortRows stat.format stat.sortCol
    rw [h.headerRows_eq] at hsorted
    exact ⟨h.headerRows_eq, h.headerCols_eq, h.dataRows_eq, h.dataCols_eq, hsorted⟩
  · exact h

omit [Add D] in
theorem Shaped.prepareTable (h : Shaped stat (stat.dataRows numPids) 2 table) :
    Shaped stat (stat.dataRows numPids) 2 (stat.prepareTable numPids table) := by
  rw [Numastat.prepareTable, setRule_eq, setColWidths_eq]
  exact Shaped.sortRows ⟨h.headerRows_eq, h.headerCols_eq, h.dataRows_eq, h.dataCols_eq,
    h.inPlace.of_content _ _ _ table.colFlags⟩

/-- The row holds the sums, and it is displayed unless `-z` leaves it out. -/
def ShowsSums (stat : Numastat D) (table : Vtab D) (row : Nat) (es : List (Entry D)) : Prop :=
  HoldsSums stat table row es ∧
    (stat.showZeroData = true ∨ allSum es ≠ 0 →
      row ∈ (table.displayTable stat.format stat.screenWidth stat.showOptions).1.displayedRows stat.showOptions)

omit [Add D] in
/-- A row with a number is displayed, if zeros are or the number is none. -/
theorem mem_displayedRows {n : Nat} (h : Shaped stat n 2 table) {row : Nat} {d : D}
    (hcell : table.getCell row stat.totalColIx = .double d) (hle : headerRows ≤ row)
    (hlt : row < headerRows + n + 2) (hshown : stat.showZeroData = true ∨ d ≠ 0) :
    row ∈ (table.displayTable stat.format stat.screenWidth stat.showOptions).1.displayedRows stat.showOptions := by
  have hplace : (row, stat.totalColIx) ∈ table.dataPlaces := by
    rw [Vtab.mem_dataPlaces, h.allRows_eq, h.allCols_eq, h.headerRows_eq, h.headerCols_eq]
    exact ⟨⟨hle, hlt⟩, Nat.le_add_right _ _, Nat.lt_succ_self _⟩
  have hany : ∀ p : Cell D → Bool, p (.double d) = true → table.anyAt table.dataPlaces Prod.fst p row = true := by
    intro p hp
    exact List.any_eq_true.mpr ⟨_, hplace, by rw [beq_self_eq_true, Bool.true_and, hcell, hp]⟩
  have hshows : (table.displayTable stat.format stat.screenWidth stat.showOptions).1.showsRow stat.showOptions row =
      true := by
    rw [Vtab.displayTable_fst, Vtab.markData_eq, Vtab.showsRow]
    simp only [Vtab.markFlags, hany Cell.isData rfl, Bool.or_true, Bool.true_and, Bool.or_eq_true, showOptions]
    obtain hzero | hne := hshown
    · exact Or.inr (Or.inl hzero)
    · exact Or.inr (Or.inr (Or.inr (hany Cell.isNonZero (decide_eq_true hne))))
  have hdisplay := h.displayTable
  rw [Vtab.displayedRows_of_inPlace hdisplay.inPlace, List.mem_append, List.mem_append, List.mem_filter,
    List.mem_filter, hdisplay.inPlace.window.mem_iff, List.mem_range'_1, List.mem_range'_1, hdisplay.headerRows_eq,
    hdisplay.allRows_eq]
  obtain hdata | htotal := Nat.lt_or_ge row (headerRows + n)
  · exact Or.inl (Or.inr ⟨⟨hle, hdata⟩, hshows⟩)
  · exact Or.inr ⟨⟨htotal, by omega⟩, hshows⟩

theorem showsSums_prepareTable (hshape : Shaped stat (stat.dataRows numPids) 2 table) {row : Nat}
    {es : List (Entry D)} (h : HoldsSums stat table row es) (hle : headerRows ≤ row)
    (hlt : row ≤ stat.totalRowIx numPids) (hrule : row ≠ stat.totalRowIx numPids - 1) :
    ShowsSums stat (stat.prepareTable numPids table) row es := by
  have hsums := h.prepareTable hshape hrule
  rw [totalRowIx] at hlt
  exact ⟨hsums, mem_displayedRows hshape.prepareTable hsums.total hle (by omega)⟩

end Displayed

/-! ### The run -/

section Run

variable {D : Type} [LinearOrder D] [Zero D] [Add D] [Mul D] [Div D] [IntCast D] {stat : Numastat D}

def isTable : ProcessOutput D → Bool
  | .cantRead => false
  | .summed => false
  | .table _ => true
  | .stopped _ => false

/-- The entries of a process, none if its file cannot be opened. -/
def entriesOf (stat : Numastat D) (process : Process) : List (Entry D) :=
  match process.numaMaps with
  | none => []
  | some maps =>
      match stat.fileEntries maps with
      | .error _ => []
      | .ok es => es

/-- What can be opened is read to its end. -/
def Reads (stat : Numastat D) (process : Process) : Prop :=
  ∀ maps, process.numaMaps = some maps → stat.fileEntries maps = .ok (stat.entriesOf process)

omit [Add D] in
theorem entriesOf_none {process : Process} (h : process.numaMaps = none) : stat.entriesOf process = [] := by
  rw [entriesOf, h]

omit [Add D] in
theorem counted_entriesOf (process : Process) : ∀ e ∈ stat.entriesOf process, stat.Counted e := by
  rw [entriesOf]
  cases process.numaMaps with
  | none => exact fun e he => absurd he List.not_mem_nil
  | some maps =>
      dsimp only
      cases hfile : stat.fileEntries maps with
      | error why => exact fun e he => absurd he List.not_mem_nil
      | ok es => exact counted_fileEntries hfile

/-- The table with a process's label and its entries. -/
def withProcess (stat : Numastat D) (numPids pidIx : Nat) (table : Vtab D) (process : Process) : Vtab D :=
  stat.addEntries (fun _ => headerRows + pidIx) (stat.totalRowIx numPids)
    (table.stringAssign (headerRows + pidIx) 0 process.label) (stat.entriesOf process)

variable {numPids : Nat}

/-- One of several processes: its file adds its entries, and only after the last one the table is displayed. -/
theorem showProcess_of_several (hsub : stat.showSubCategories numPids = false) {process : Process}
    (hreads : stat.Reads process) (pidIx : Nat) (table : Vtab D) :
    stat.showProcess numPids pidIx table process =
      match process.numaMaps with
      | none => (.cantRead, some (stat.withProcess numPids pidIx table process))
      | some _ =>
          if pidIx + 1 = numPids then
            let shown := (stat.prepareTable numPids (stat.withProcess numPids pidIx table process)).displayTable
              stat.format stat.screenWidth stat.showOptions
            (.table shown.2, some shown.1)
          else (.summed, some (stat.withProcess numPids pidIx table process)) := by
  rw [showProcess, startProcess, hsub, if_neg Bool.false_ne_true]
  cases hmaps : process.numaMaps with
  | none =>
      dsimp only
      rw [withProcess, entriesOf_none hmaps]
      rfl
  | some maps =>
      dsimp only
      rw [readNumaMaps_eq, hreads maps hmaps]
      simp only [Bool.false_eq_true, false_or]
      rfl

/-- The rows after some processes: those of each, and the total. -/
def rowsAfter (stat : Numastat D) (totalRow : Nat) :
    Nat → (Nat → List (Entry D)) → List Process → Nat → List (Entry D)
  | _, rows, [] => rows
  | pidIx, rows, process :: processes =>
      rowsAfter stat totalRow (pidIx + 1)
        (fun row =>
          if row = headerRows + pidIx ∨ row = totalRow then rows row ++ stat.entriesOf process else rows row)
        processes

omit [Add D] in
theorem rowsAfter_total (totalRow pidIx : Nat) (rows : Nat → List (Entry D)) (processes : List Process) :
    stat.rowsAfter totalRow pidIx rows processes totalRow =
      rows totalRow ++ processes.flatMap stat.entriesOf := by
  induction processes generalizing pidIx rows with
  | nil => exact (List.append_nil _).symm
  | cons process processes ih =>
      rw [rowsAfter, ih, if_pos (Or.inr rfl), List.flatMap_cons, List.append_assoc]

omit [Add D] in
/-- A row before those of the processes to come is not changed by them. -/
theorem rowsAfter_before {totalRow pidIx row : Nat} (hrow : row < headerRows + pidIx) (htotal : row ≠ totalRow)
    (rows : Nat → List (Entry D)) (processes : List Process) :
    stat.rowsAfter totalRow pidIx rows processes row = rows row := by
  induction processes generalizing pidIx rows with
  | nil => rfl
  | cons process processes ih =>
      have hout : ¬(row = headerRows + pidIx ∨ row = totalRow) := not_or.mpr ⟨hrow.ne, htotal⟩
      rw [rowsAfter, ih (by omega), if_neg hout]

omit [Add D] in
theorem rowsAfter_process {totalRow pidIx : Nat} (rows : Nat → List (Entry D)) (pre : List Process)
    (process : Process) (post : List Process) (htotal : headerRows + (pidIx + pre.length) < totalRow) :
    stat.rowsAfter totalRow pidIx rows (pre ++ process :: post) (headerRows + (pidIx + pre.length)) =
      rows (headerRows + (pidIx + pre.length)) ++ stat.entriesOf process := by
  induction pre generalizing pidIx rows with
  | nil =>
      rw [List.length_nil, Nat.add_zero] at htotal ⊢
      rw [List.nil_append, rowsAfter, rowsAfter_before (by omega) htotal.ne, if_pos (Or.inl rfl)]
  | cons first pre ih =>
      rw [List.length_cons] at htotal ⊢
      have hlen : pidIx + (pre.length + 1) = pidIx + 1 + pre.length := by omega
      have hout : ¬(headerRows + (pidIx + 1 + pre.length) = headerRows + pidIx ∨
          headerRows + (pidIx + 1 + pre.length) = totalRow) := by omega
      rw [hlen] at htotal ⊢
      rw [List.cons_append, rowsAfter, ih _ htotal, if_neg hout]

/-- The table has the sums of these entries in its rows. -/
def HoldsRows (stat : Numastat D) (numPids : Nat) (table : Vtab D) (rows : Nat → List (Entry D)) : Prop :=
  Shaped stat (stat.dataRows numPids) 2 table ∧
    ∀ row, headerRows ≤ row → row ≤ stat.totalRowIx numPids → HoldsSums stat table row (rows row)

theorem HoldsRows.withProcess {table : Vtab D} {rows : Nat → List (Entry D)} (h : HoldsRows stat numPids table rows)
    {pidIx : Nat} (hpid : pidIx < stat.dataRows numPids) (process : Process) :
    HoldsRows stat numPids (stat.withProcess numPids pidIx table process) fun row =>
      if row = headerRows + pidIx ∨ row = stat.totalRowIx numPids then rows row ++ stat.entriesOf process
      else rows row := by
  obtain ⟨hshape, hsums⟩ := h
  refine ⟨(hshape.of_cell _).addEntries _ _ _, fun row hle hlt => ?_⟩
  have hcols := hshape.allCols_eq
  have hlabel : HoldsSums stat (table.stringAssign (headerRows + pidIx) 0 process.label) row (rows row) := by
    have hsame : ∀ col, headerCols ≤ col → col ≤ stat.totalColIx →
        (table.stringAssign (headerRows + pidIx) 0 process.label).getCell row col = table.getCell row col := by
      intro col hcol hlast
      rw [Vtab.stringAssign, getCell_setCell (by omega) (by omega), if_neg]
      exact fun h => absurd h.2 (Nat.one_le_iff_ne_zero.mp hcol)
    obtain ⟨hnode, htotal⟩ := hsums row hle hlt
    exact ⟨fun i hi => (hsame _ (Nat.le_add_right _ _) (Nat.add_le_add_left hi.le _)).trans (hnode i hi),
      (hsame _ (Nat.le_add_right _ _) le_rfl).trans htotal⟩
  have hrow : headerRows + pidIx ≠ stat.totalRowIx numPids := by
    rw [totalRowIx]
    omega
  have hcols' : (table.stringAssign (headerRows + pidIx) 0 process.label).allCols = stat.totalColIx + 1 := hcols
  have hadd := @HoldsSums.addEntries D _ _ stat _ hcols' (fun _ => headerRows + pidIx) _ row _
    (stat.entriesOf process) hlabel (fun _ _ => hrow) fun e he => (counted_entriesOf process e he).2
  dsimp only
  by_cases hin : row = headerRows + pidIx ∨ row = stat.totalRowIx numPids
  · rw [if_pos hin]
    rw [List.filter_eq_self.mpr fun _ _ => decide_eq_true hin] at hadd
    exact hadd
  · rw [if_neg hin]
    rw [List.filter_eq_nil_iff.mpr fun _ _ h => hin (of_decide_eq_true h), List.append_nil] at hadd
    exact hadd

/-- Several processes from one on: a table if the last file can be opened, and else none. -/
theorem filter_showProcesses (hsub : stat.showSubCategories numPids = false) (processes : List Process) (last : Process)
    (hreads : ∀ process ∈ processes ++ [last], stat.Reads process) {pidIx : Nat}
    (hlen : pidIx + processes.length + 1 = numPids)
    {table : Vtab D} {rows : Nat → List (Entry D)} (h : HoldsRows stat numPids table rows) :
    ∃ final, HoldsRows stat numPids final
        (stat.rowsAfter (stat.totalRowIx numPids) pidIx rows (processes ++ [last])) ∧
      (stat.showProcesses numPids pidIx table (processes ++ [last])).filter isTable =
        if last.numaMaps.isSome then
          [.table ((stat.prepareTable numPids final).displayTable stat.format stat.screenWidth stat.showOptions).2]
        else [] := by
  have hdata : stat.dataRows numPids = numPids := by
    rw [dataRows, hsub]
    exact if_neg Bool.false_ne_true
  induction processes generalizing pidIx table rows with
  | nil =>
      refine ⟨_, h.withProcess (by rw [List.length_nil] at hlen; omega : pidIx < _) last, ?_⟩
      rw [List.nil_append, showProcesses, showProcess_of_several hsub (hreads last (by simp))]
      cases hmaps : last.numaMaps with
      | none => rfl
      | some maps =>
          rw [List.length_nil] at hlen
          simp only [if_pos (show pidIx + 1 = numPids by omega)]
          rfl
  | cons process processes ih =>
      rw [List.length_cons] at hlen
      obtain ⟨final, hfinal, hrun⟩ := ih (fun p hp => hreads p (List.mem_cons_of_mem _ hp))
        (by omega : pidIx + 1 + processes.length + 1 = numPids) (h.withProcess (by omega : pidIx < _) process)
      refine ⟨final, hfinal, ?_⟩
      rw [← hrun, List.cons_append, showProcesses, showProcess_of_several hsub (hreads process (by simp))]
      cases process.numaMaps with
      | none => rfl
      | some maps =>
          simp only [if_neg (show ¬pidIx + 1 = numPids by omega)]
          rfl

/-- The row in which a process has its sums: that of the total if there is only one process. -/
def processRow (stat : Numastat D) (numPids pidIx : Nat) : Nat :=
  if stat.showSubCategories numPids then stat.totalRowIx numPids else headerRows + pidIx

/-- One table is displayed, and it has the sums of every process whose file can be opened, and of all. -/
def DisplaysTotals (stat : Numastat D) (processes : List Process) : Prop :=
  ∃ table, (stat.showProcessInfo processes).filter isTable =
      [.table (table.displayTable stat.format stat.screenWidth stat.showOptions).2] ∧
    (∀ pre process post, processes = pre ++ process :: post → process.numaMaps.isSome = true →
      ShowsSums stat table (stat.processRow processes.length pre.length) (stat.entriesOf process)) ∧
    ShowsSums stat table (stat.totalRowIx processes.length) (processes.flatMap stat.entriesOf)

/-- A single process has a row for each category, and its sums in the row of the total. -/
theorem showProcess_single (hverbose : stat.verbose = false) {process : Process} (hreads : stat.Reads process) :
    (stat.showProcess 1 0 (stat.processTable 1) process).1 =
      match process.numaMaps with
      | none => .cantRead
      | some _ =>
          .table ((stat.prepareTable 1 (stat.addEntries (headerRows + ·) (stat.totalRowIx 1) (stat.processTable 1)
            (stat.entriesOf process))).displayTable stat.format stat.screenWidth stat.showOptions).2 := by
  have hsub : stat.showSubCategories 1 = true := by
    rw [showSubCategories, hverbose]
    rfl
  rw [showProcess, startProcess, hsub]
  cases hmaps : process.numaMaps with
  | none => rfl
  | some maps =>
      dsimp only
      rw [if_pos rfl, if_neg (Nat.lt_irrefl 0), readNumaMaps_eq, hreads maps hmaps]
      simp only [true_or, if_true]
      rfl

theorem displaysTotals_single_iff (hverbose : stat.verbose = false) {process : Process}
    (hreads : stat.Reads process) : stat.DisplaysTotals [process] ↔ process.numaMaps.isSome = true := by
  have hshape := @shaped_processTable D _ stat 1
  have hsub : stat.showSubCategories 1 = true := by
    rw [showSubCategories, hverbose]
    rfl
  have htotal : stat.totalRowIx 1 = 7 := by
    rw [totalRowIx, dataRows, hsub]
    rfl
  have hinfo := @showProcess_single D _ _ _ _ _ _ stat hverbose process hreads
  rw [DisplaysTotals, showProcessInfo_singleton, hinfo]
  cases hmaps : process.numaMaps with
  | none =>
      refine ⟨fun h => ?_, fun h => by cases h⟩
      obtain ⟨table, htable, -⟩ := h
      cases htable
  | some maps =>
      refine ⟨fun _ => rfl, fun _ => ⟨_, rfl, ?_⟩⟩
      have hrows : ∀ e ∈ stat.entriesOf process, headerRows + e.category ≠ stat.totalRowIx 1 := by
        intro e he
        have hle := (counted_entriesOf process e he).1
        rw [htotal]
        simp only [headerRows, processPrivateIndex] at hle ⊢
        omega
      have hsums := (holdsSums_processTable (by rw [htotal]; decide) le_rfl).addEntries hshape.allCols_eq hrows
        fun e he => (counted_entriesOf process e he).2
      rw [List.filter_eq_self.mpr fun _ _ => decide_eq_true (Or.inr rfl), List.nil_append] at hsums
      have hshows := showsSums_prepareTable (hshape.addEntries (headerRows + ·) (stat.totalRowIx 1)
        (stat.entriesOf process)) hsums (by rw [htotal]; decide) le_rfl (by rw [htotal]; decide)
      refine ⟨fun pre p post hsplit _ => ?_, by simpa using hshows⟩
      obtain ⟨hpre, hp⟩ : pre = [] ∧ p = process := by
        cases pre with
        | nil => exact ⟨rfl, (List.cons.inj hsplit).1.symm⟩
        | cons first pre => simp at hsplit
      rw [hp, processRow, List.length_singleton, hsub, if_pos rfl]
      exact hshows

theorem displaysTotals_several_iff (hverbose : stat.verbose = false) (processes : List Process) (last : Process)
    (hsome : processes ≠ []) (hreads : ∀ process ∈ processes ++ [last], stat.Reads process) :
    stat.DisplaysTotals (processes ++ [last]) ↔ last.numaMaps.isSome = true := by
  generalize hlen : (processes ++ [last]).length = numPids
  have hcount : processes.length + 1 = numPids := by rw [← hlen, List.length_append, List.length_singleton]
  have hpos := List.length_pos_iff.mpr hsome
  have hsub : stat.showSubCategories numPids = false := by
    rw [showSubCategories, hverbose, Bool.false_or, beq_eq_false_iff_ne]
    omega
  have hdata : stat.dataRows numPids = numPids := by
    rw [dataRows, hsub]
    exact if_neg Bool.false_ne_true
  have hstart : HoldsRows stat numPids (stat.processTable numPids) fun _ => [] :=
    ⟨shaped_processTable numPids, fun row hle hlt => holdsSums_processTable hle hlt⟩
  obtain ⟨final, ⟨hshape, hsums⟩, hrun⟩ :=
    filter_showProcesses hsub processes last hreads (by omega : 0 + processes.length + 1 = numPids) hstart
  rw [DisplaysTotals, showProcessInfo, hlen, hrun]
  by_cases hlast : last.numaMaps.isSome = true
  · rw [if_pos hlast]
    refine ⟨fun _ => hlast, fun _ => ⟨_, rfl, fun pre process post hsplit _ => ?_, ?_⟩⟩
    · have hpre : pre.length < numPids := by
        rw [← hlen, hsplit, List.length_append, List.length_cons]
        omega
      have hrow : headerRows + (0 + pre.length) < stat.totalRowIx numPids := by
        rw [totalRowIx, hdata]
        omega
      have hholds := hsums (headerRows + (0 + pre.length)) (Nat.le_add_right _ _) hrow.le
      rw [hsplit, rowsAfter_process _ _ _ _ hrow, List.nil_append] at hholds
      rw [processRow, hsub, if_neg Bool.false_ne_true]
      rw [Nat.zero_add] at hholds hrow
      exact showsSums_prepareTable hshape hholds (Nat.le_add_right _ _) hrow.le
        (by rw [totalRowIx, hdata]; omega)
    · have hle : headerRows ≤ stat.totalRowIx numPids := by
        rw [totalRowIx]
        omega
      have hholds := hsums (stat.totalRowIx numPids) hle le_rfl
      rw [rowsAfter_total, List.nil_append] at hholds
      exact showsSums_prepareTable hshape hholds hle le_rfl (by rw [totalRowIx]; omega)
  · rw [if_neg hlast]
    refine ⟨fun h => ?_, fun h => absurd h hlast⟩
    obtain ⟨table, htable, -⟩ := h
    cases htable

/-- Without `-v`, one table with the sums of every file that can be opened is displayed exactly where the file of
the last process can be opened. -/
theorem displaysTotals_iff (hverbose : stat.verbose = false) (processes : List Process) (last : Process)
    (hreads : ∀ process ∈ processes ++ [last], stat.Reads process) :
    stat.DisplaysTotals (processes ++ [last]) ↔ last.numaMaps.isSome = true := by
  cases processes with
  | nil => exact displaysTotals_single_iff hverbose (hreads last (List.mem_singleton_self _))
  | cons first processes => exact displaysTotals_several_iff hverbose _ last (List.cons_ne_nil _ _) hreads

end Run

end Numastat

section Examples

open Numastat

/-- Two nodes without `-v`. -/
def overview : Numastat Int := { twoNodes true false with verbose := false }

/-- A process whose file cannot be opened. -/
def unreadable : Process := ⟨"2 (init)".toList, none⟩

theorem reads_unreadable : overview.Reads unreadable := fun _ h => nomatch h

theorem reads_processOf : overview.Reads (processOf "7f N0=256 N1=512\n") := by
  intro maps hmaps
  cases hmaps
  decide +kernel

/-- The first file cannot be opened, the second can. -/
theorem displaysTotals_first_unreadable :
    overview.DisplaysTotals [unreadable, processOf "7f N0=256 N1=512\n"] :=
  (displaysTotals_iff rfl [unreadable] _
    (List.forall_mem_cons.mpr ⟨reads_unreadable, List.forall_mem_singleton.mpr reads_processOf⟩)).mpr rfl

/-- The last file cannot be opened, and nothing is displayed for the first. -/
theorem not_displaysTotals_last_unreadable :
    (∀ process ∈ [processOf "7f N0=256 N1=512\n", unreadable], overview.Reads process) ∧
      ¬overview.DisplaysTotals [processOf "7f N0=256 N1=512\n", unreadable] := by
  refine ⟨List.forall_mem_cons.mpr ⟨reads_processOf, List.forall_mem_singleton.mpr reads_unreadable⟩, fun h => ?_⟩
  obtain ⟨table, htable, -⟩ := h
  have hnone : ((overview.showProcessInfo [processOf "7f N0=256 N1=512\n", unreadable]).filter isTable).length =
      0 := by decide +kernel
  rw [htable] at hnone
  cases hnone

end Examples

end Numactl
