import Mathlib.Algebra.BigOperators.Group.Finset.Piecewise
import Mathlib.Algebra.Field.Rat
import Mathlib.Algebra.Order.Ring.Rat
import Mathlib.Order.Interval.Finset.Nat
import Numactl.MapsLines
import Numactl.ProcessTotals

/-! The accounting of a file `numa_maps` (`show_process_info` in `numastat.c`). The file is read through a buffer of
2048 bytes, and every buffer is taken for a line. Lines with room for them in the buffer are accounted for as the
kernel writes them. Whatever a file holds, in every run the totals stay the sums of what they are totals of. -/

namespace Numactl

open CString (Decimal strtol forall_mem_of_all)

/-- `BUF_SIZE`. -/
def bufSize : Nat := 2048

/-- A file with this text, as the loop reads it; a buffer needs a byte for the NUL. -/
def NumaMaps.ofText (text : List Char) : NumaMaps := ⟨LineBuffer.buffers '\n' (bufSize - 1) text, false⟩

/-- The text of a file of lines. -/
def fileText (lines : List (List MapsWord)) : List Char := LineBuffer.joinLines '\n' (lines.map lineText)

namespace Numastat

/-! ### Totals -/

section Totals

variable {D : Type} [AddCommMonoid D]

/-- The number in a cell. -/
def number (stat : Numastat D) (table : Vtab D) (row col : Nat) : D := (table.getCell row col).asDouble stat.format

/-- The row of a category for a process. -/
def processRowOf (stat : Numastat D) (numPids pidIx category : Nat) : Nat :=
  headerRows + if stat.showSubCategories numPids then category else pidIx

/-- The rows of the categories, or of the processes. -/
def dataRowRange (stat : Numastat D) (numPids : Nat) : Finset Nat :=
  Finset.Ico headerRows (headerRows + stat.dataRows numPids)

/-- What an entry of a process adds to a cell: its value in its row and in the row of the total, each in the column
of its node and in that of the total. -/
def share (stat : Numastat D) (numPids pidIx row col : Nat) (e : Entry D) : D :=
  if (row = stat.processRowOf numPids pidIx e.category ∨ row = stat.totalRowIx numPids) ∧
      (col = headerCols + e.nodeIx ∨ col = stat.totalColIx) then e.value else 0

/-- Every total is the sum of its row or of its column. -/
structure Balanced (stat : Numastat D) (numPids : Nat) (table : Vtab D) : Prop where
  row : ∀ row, row ∈ stat.dataRowRange numPids ∨ row = stat.totalRowIx numPids →
    stat.number table row stat.totalColIx = ∑ i ∈ Finset.range stat.numNodes, stat.number table row (headerCols + i)
  col : ∀ col, headerCols ≤ col → col ≤ stat.totalColIx →
    stat.number table (stat.totalRowIx numPids) col = ∑ row ∈ stat.dataRowRange numPids, stat.number table row col

variable {stat : Numastat D} {numPids pidIx : Nat} {table : Vtab D} {e : Entry D}

omit [AddCommMonoid D] in
theorem dataRows_eq (stat : Numastat D) (numPids : Nat) :
    stat.dataRows numPids = if stat.showSubCategories numPids then processPrivateIndex + 1 else numPids := rfl

omit [AddCommMonoid D] in
theorem processRowOf_mem (hpid : pidIx < numPids) {category : Nat} (hcategory : category ≤ processPrivateIndex) :
    stat.processRowOf numPids pidIx category ∈ stat.dataRowRange numPids := by
  rw [dataRowRange, Finset.mem_Ico, processRowOf, dataRows_eq]
  refine ⟨Nat.le_add_right _ _, Nat.add_lt_add_left ?_ _⟩
  split
  · exact Nat.lt_succ_of_le hcategory
  · exact hpid

omit [AddCommMonoid D] in
theorem totalRowIx_notMem : stat.totalRowIx numPids ∉ stat.dataRowRange numPids := by
  rw [dataRowRange, Finset.mem_Ico, totalRowIx]
  omega

omit [AddCommMonoid D] in
theorem processRowOf_ne (hpid : pidIx < numPids) {category : Nat} (hcategory : category ≤ processPrivateIndex) :
    stat.processRowOf numPids pidIx category ≠ stat.totalRowIx numPids :=
  fun h => totalRowIx_notMem (h ▸ processRowOf_mem hpid hcategory)

/-- An entry of a process, added to the table. -/
def addEntry (stat : Numastat D) (numPids pidIx : Nat) (table : Vtab D) (e : Entry D) : Vtab D :=
  stat.addValue (stat.totalRowIx numPids) table (stat.processRowOf numPids pidIx e.category) (headerCols + e.nodeIx)
    e.value

theorem number_addEntry (hcols : table.allCols = stat.totalColIx + 1) (hpid : pidIx < numPids) (he : stat.Counted e)
    {row col : Nat} (hcol : col ≤ stat.totalColIx) :
    stat.number (stat.addEntry numPids pidIx table e) row col =
      stat.number table row col + stat.share numPids pidIx row col e := by
  have hnode : headerCols + e.nodeIx < stat.totalColIx := Nat.add_lt_add_left he.2 _
  rw [number, addEntry, getCell_addValue hcols (processRowOf_ne hpid he.1) hnode hcol, share]
  split
  · rfl
  · exact (add_zero _).symm

/-- The shares of a row are as much as its share of the total. -/
theorem sum_share_row (he : stat.Counted e) (row : Nat) :
    ∑ i ∈ Finset.range stat.numNodes, stat.share numPids pidIx row (headerCols + i) e =
      stat.share numPids pidIx row stat.totalColIx e := by
  have hshare : ∀ i ∈ Finset.range stat.numNodes, stat.share numPids pidIx row (headerCols + i) e =
      if e.nodeIx = i then stat.share numPids pidIx row stat.totalColIx e else 0 := by
    intro i hi
    have hne : headerCols + i ≠ stat.totalColIx := (Nat.add_lt_add_left (Finset.mem_range.mp hi) _).ne
    rw [share, share]
    by_cases hnode : e.nodeIx = i
    · simp only [hnode, true_or, or_true, and_true, if_true]
    · rw [if_neg hnode, if_neg]
      rintro ⟨-, hcol | hcol⟩
      · exact hnode (Nat.add_left_cancel hcol).symm
      · exact hne hcol
  rw [Finset.sum_congr rfl hshare, Finset.sum_ite_eq, if_pos (Finset.mem_range.mpr he.2)]

/-- The shares of a column are as much as the share of its total. -/
theorem sum_share_col (hpid : pidIx < numPids) (he : stat.Counted e) (col : Nat) :
    ∑ row ∈ stat.dataRowRange numPids, stat.share numPids pidIx row col e =
      stat.share numPids pidIx (stat.totalRowIx numPids) col e := by
  have hshare : ∀ row ∈ stat.dataRowRange numPids, stat.share numPids pidIx row col e =
      if stat.processRowOf numPids pidIx e.category = row then
        stat.share numPids pidIx (stat.totalRowIx numPids) col e else 0 := by
    intro row hrow
    have hne : row ≠ stat.totalRowIx numPids := fun h => totalRowIx_notMem (h ▸ hrow)
    rw [share, share]
    by_cases hrowOf : stat.processRowOf numPids pidIx e.category = row
    · simp only [hrowOf, true_or, or_true, true_and, if_true]
    · rw [if_neg hrowOf, if_neg]
      rintro ⟨heq | heq, -⟩
      · exact hrowOf heq.symm
      · exact hne heq
  rw [Finset.sum_congr rfl hshare, Finset.sum_ite_eq, if_pos (processRowOf_mem hpid he.1)]

theorem Balanced.addEntry (h : stat.Balanced numPids table) (hcols : table.allCols = stat.totalColIx + 1)
    (hpid : pidIx < numPids) (he : stat.Counted e) :
    stat.Balanced numPids (stat.addEntry numPids pidIx table e) := by
  have hnumber := fun row col hcol => @number_addEntry D _ stat numPids pidIx table e hcols hpid he row col hcol
  constructor
  · intro row hrow
    have hcol : ∀ i ∈ Finset.range stat.numNodes, headerCols + i ≤ stat.totalColIx := fun i hi =>
      Nat.add_le_add_left (Finset.mem_range.mp hi).le _
    rw [hnumber row _ le_rfl, h.row row hrow, Finset.sum_congr rfl fun i hi => hnumber row _ (hcol i hi),
      Finset.sum_add_distrib, sum_share_row he]
  · intro col hle hcol
    rw [hnumber _ col hcol, h.col col hle hcol, Finset.sum_congr rfl fun row _ => hnumber row col hcol,
      Finset.sum_add_distrib, sum_share_col hpid he]

/-- What entries add to the table: to each cell the shares of all of them, and the totals stay sums. -/
theorem addEntries_spec (hcols : table.allCols = stat.totalColIx + 1) (hpid : pidIx < numPids) {es : List (Entry D)}
    (hes : ∀ e ∈ es, stat.Counted e) :
    (∀ row col, col ≤ stat.totalColIx →
      stat.number (stat.addEntries (stat.processRowOf numPids pidIx) (stat.totalRowIx numPids) table es) row col =
        stat.number table row col + (es.map (stat.share numPids pidIx row col)).sum) ∧
    (stat.Balanced numPids table →
      stat.Balanced numPids
        (stat.addEntries (stat.processRowOf numPids pidIx) (stat.totalRowIx numPids) table es)) := by
  induction es generalizing table with
  | nil => exact ⟨fun row col _ => (add_zero _).symm, id⟩
  | cons e es ih =>
      rw [List.forall_mem_cons] at hes
      have hcols' : (stat.addEntry numPids pidIx table e).allCols = stat.totalColIx + 1 :=
        (allCols_addValue _ _ _ e.value).trans hcols
      obtain ⟨hnumbers, hbalanced⟩ := ih hcols' hes.2
      refine ⟨fun row col hcol => ?_, fun h => hbalanced (h.addEntry hcols hpid hes.1)⟩
      calc stat.number _ row col
          = stat.number (stat.addEntry numPids pidIx table e) row col +
              (es.map (stat.share numPids pidIx row col)).sum := hnumbers row col hcol
        _ = stat.number table row col + stat.share numPids pidIx row col e +
              (es.map (stat.share numPids pidIx row col)).sum := by rw [number_addEntry hcols hpid hes.1 hcol]
        _ = _ := by rw [List.map_cons, List.sum_cons, add_assoc]

end Totals

/-! ### Whole runs -/

section Run

variable {D : Type} [Field D] [LinearOrder D] {stat : Numastat D} {numPids pidIx : Nat} {table : Vtab D}

omit [LinearOrder D] in
theorem Balanced.congr {table' : Vtab D} (h : stat.Balanced numPids table)
    (hnumber : ∀ row, row ∈ stat.dataRowRange numPids ∨ row = stat.totalRowIx numPids →
      ∀ col, headerCols ≤ col → col ≤ stat.totalColIx → stat.number table' row col = stat.number table row col) :
    stat.Balanced numPids table' := by
  constructor
  · intro row hrow
    have hcol : ∀ i ∈ Finset.range stat.numNodes, headerCols + i ≤ stat.totalColIx := fun i hi =>
      Nat.add_le_add_left (Finset.mem_range.mp hi).le _
    rw [hnumber row hrow stat.totalColIx (Nat.le_add_right _ _) le_rfl, h.row row hrow]
    exact Finset.sum_congr rfl fun i hi => (hnumber row hrow _ (Nat.le_add_right _ _) (hcol i hi)).symm
  · intro col hle hcol
    rw [hnumber _ (Or.inr rfl) col hle hcol, h.col col hle hcol]
    exact Finset.sum_congr rfl fun row hrow => (hnumber row (Or.inl hrow) col hle hcol).symm

/-- The table has its shape, and totals that are sums. -/
def Kept (stat : Numastat D) (numPids : Nat) (table : Vtab D) : Prop :=
  Shaped stat (stat.dataRows numPids) 2 table ∧ stat.Balanced numPids table

omit [LinearOrder D] in
theorem kept_zeroTableData (h : Shaped stat (stat.dataRows numPids) 2 table) :
    stat.Kept numPids table.zeroTableData := by
  have hcell : ∀ row, row ∈ stat.dataRowRange numPids ∨ row = stat.totalRowIx numPids →
      ∀ col, headerCols ≤ col → col ≤ stat.totalColIx → stat.number table.zeroTableData row col = 0 := by
    intro row hrow col hle hcol
    have hplace : (row, col) ∈ table.dataPlaces := by
      rw [Vtab.mem_dataPlaces, h.allRows_eq, h.allCols_eq, h.headerRows_eq, h.headerCols_eq]
      rw [dataRowRange, Finset.mem_Ico, totalRowIx] at hrow
      dsimp only
      omega
    have hzero : table.zeroTableData.getCell row col = .double 0 := by
      rw [Vtab.zeroTableData_eq]
      exact if_pos (List.mem_map.mpr ⟨_, hplace, rfl⟩)
    rw [number, hzero]
    rfl
  refine ⟨by rw [Vtab.zeroTableData_eq]; exact h.of_cell _, ⟨fun row hrow => ?_, fun col hle hcol => ?_⟩⟩
  · rw [hcell row hrow stat.totalColIx (Nat.le_add_right _ _) le_rfl]
    refine (Finset.sum_eq_zero fun i hi => hcell row hrow _ (Nat.le_add_right _ _) ?_).symm
    exact Nat.add_le_add_left (Finset.mem_range.mp hi).le _
  · rw [hcell _ (Or.inr rfl) col hle hcol]
    exact (Finset.sum_eq_zero fun row hrow => hcell row (Or.inl hrow) col hle hcol).symm

omit [LinearOrder D] in
theorem kept_processTable (stat : Numastat D) (numPids : Nat) : stat.Kept numPids (stat.processTable numPids) := by
  rw [← zeroTableData_processTable]
  exact kept_zeroTableData (shaped_processTable numPids)

omit [LinearOrder D] in
theorem Kept.startProcess (h : stat.Kept numPids table) (pidIx : Nat) (process : Process) :
    stat.Kept numPids (stat.startProcess numPids pidIx process table) := by
  rw [Numastat.startProcess]
  split
  · split
    · exact kept_zeroTableData h.1
    · exact h
  · refine ⟨h.1.of_cell _, h.2.congr fun row _ col hle hcol => ?_⟩
    have hcols := h.1.allCols_eq
    rw [number, Vtab.stringAssign, getCell_setCell (by omega) (by omega),
      if_neg fun hplace => absurd hplace.2 (Nat.one_le_iff_ne_zero.mp hle)]
    rfl

/-- What any file adds leaves the totals sums. -/
theorem Kept.readNumaMaps (h : stat.Kept numPids table) (hpid : pidIx < numPids) {maps : NumaMaps} {table' : Vtab D}
    (hread : stat.readNumaMaps (stat.processRowOf numPids pidIx) (stat.totalRowIx numPids) table maps = .ok table') :
    stat.Kept numPids table' := by
  rw [readNumaMaps_eq] at hread
  cases hentries : stat.fileEntries maps with
  | error why =>
      rw [hentries] at hread
      cases hread
  | ok es =>
      rw [hentries] at hread
      cases hread
      exact ⟨h.1.addEntries _ _ _, (addEntries_spec h.1.allCols_eq hpid (counted_fileEntries hentries)).2 h.2⟩

theorem Kept.prepareTable (h : stat.Kept numPids table) : stat.Kept numPids (stat.prepareTable numPids table) := by
  refine ⟨h.1.prepareTable, h.2.congr fun row hrow col _ hcol => ?_⟩
  have hrule : row ≠ stat.totalRowIx numPids - 1 := by
    rw [dataRowRange, Finset.mem_Ico, totalRowIx] at hrow
    rw [totalRowIx]
    omega
  rw [number, getCell_prepareTable h.1 hrule hcol]
  rfl

theorem Kept.displayTable (h : stat.Kept numPids table) :
    stat.Kept numPids (table.displayTable stat.format stat.screenWidth stat.showOptions).1 := by
  refine ⟨h.1.displayTable, h.2.congr fun row _ col _ _ => ?_⟩
  rw [Vtab.displayTable_fst, Vtab.markData_eq]
  rfl

/-- What is displayed for a process comes from a table whose totals are sums, and the table left is one. -/
theorem Kept.showProcess (h : stat.Kept numPids table) (hpid : pidIx < numPids) (process : Process) :
    (∀ output, (stat.showProcess numPids pidIx table process).1 = .table output →
      ∃ shown, stat.Kept numPids shown ∧
        output = (shown.displayTable stat.format stat.screenWidth stat.showOptions).2) ∧
    ∀ next, (stat.showProcess numPids pidIx table process).2 = some next → stat.Kept numPids next := by
  have hstart := h.startProcess pidIx process
  rw [Numastat.showProcess]
  dsimp only
  generalize stat.startProcess numPids pidIx process table = start at hstart
  cases process.numaMaps with
  | none =>
      refine ⟨fun output heq => ?_, fun next heq => Option.some.inj heq ▸ hstart⟩
      cases heq
  | some maps =>
      have hrow : (fun category => headerRows + if stat.showSubCategories numPids then category else pidIx) =
          stat.processRowOf numPids pidIx := rfl
      dsimp only
      rw [hrow]
      cases hread : stat.readNumaMaps (stat.processRowOf numPids pidIx) (stat.totalRowIx numPids) start maps with
      | error why =>
          refine ⟨fun output heq => ?_, fun next heq => ?_⟩
          · cases heq
          · cases heq
      | ok table' =>
          have hkept := hstart.readNumaMaps hpid hread
          dsimp only
          split
          · refine ⟨fun output heq => ⟨_, hkept.prepareTable, ?_⟩, fun next heq => ?_⟩
            · exact (ProcessOutput.table.inj heq).symm
            · exact Option.some.inj heq ▸ hkept.prepareTable.displayTable
          · refine ⟨fun output heq => ?_, fun next heq => Option.some.inj heq ▸ hkept⟩
            cases heq

theorem kept_of_mem_showProcesses {processes : List Process} (h : stat.Kept numPids table)
    (hlen : pidIx + processes.length ≤ numPids) :
    ∀ output, .table output ∈ stat.showProcesses numPids pidIx table processes →
      ∃ shown, stat.Kept numPids shown ∧
        output = (shown.displayTable stat.format stat.screenWidth stat.showOptions).2 := by
  induction processes generalizing pidIx table with
  | nil => exact fun output hmem => absurd hmem List.not_mem_nil
  | cons process processes ih =>
      rw [List.length_cons] at hlen
      obtain ⟨hshown, hnext⟩ := h.showProcess (by omega : pidIx < numPids) process
      intro output hmem
      rw [showProcesses] at hmem
      cases hleft : (stat.showProcess numPids pidIx table process).2 with
      | none =>
          rw [hleft] at hmem
          exact hshown output (List.mem_singleton.mp hmem).symm
      | some next =>
          rw [hleft] at hmem
          rcases List.mem_cons.mp hmem with hfirst | hrest
          · exact hshown output hfirst.symm
          · exact ih (hnext next hleft) (by omega) output hrest

/-- In every run, whatever the files hold, each table is displayed with totals that are sums. -/
theorem kept_of_mem_showProcessInfo (stat : Numastat D) (processes : List Process) :
    ∀ output, .table output ∈ stat.showProcessInfo processes →
      ∃ shown, stat.Kept processes.length shown ∧
        output = (shown.displayTable stat.format stat.screenWidth stat.showOptions).2 :=
  kept_of_mem_showProcesses (kept_processTable stat processes.length) (Nat.zero_add _).le

end Run

/-! ### The file through the buffer -/

section File

variable {D : Type} [Field D] [LinearOrder D] {stat : Numastat D} {numPids pidIx : Nat} {lines : List (List MapsWord)}

/-- Reading the file of a process adds to every cell the shares of the entries of its lines, so that totals that are
sums stay sums. -/
def Accounts (stat : Numastat D) (numPids pidIx : Nat) (lines : List (List MapsWord)) : Prop :=
  ∀ table, table.allCols = stat.totalColIx + 1 → ∃ table',
    stat.readNumaMaps (stat.processRowOf numPids pidIx) (stat.totalRowIx numPids) table
        (NumaMaps.ofText (fileText lines)) = .ok table' ∧
      (∀ row col, col ≤ stat.totalColIx → stat.number table' row col = stat.number table row col +
        ((lines.flatMap stat.lineEntries).map (stat.share numPids pidIx row col)).sum) ∧
      (stat.Balanced numPids table → stat.Balanced numPids table')

theorem buffersEntries_cons {buf : List Char} {es : List (Entry D)} (h : stat.bufferEntries buf = .ok es)
    (buffers : List (List Char)) :
    stat.buffersEntries (buf :: buffers) = (stat.buffersEntries buffers).map (es ++ ·) := by
  rw [buffersEntries, h]
  rfl

/-- Where the file is read to its end, every buffer of it can be read. -/
theorem exists_bufferEntries {buffers : List (List Char)} {es : List (Entry D)}
    (h : stat.buffersEntries buffers = .ok es) : ∀ buf ∈ buffers, ∃ es, stat.bufferEntries buf = .ok es := by
  induction buffers generalizing es with
  | nil => exact fun buf hbuf => absurd hbuf List.not_mem_nil
  | cons buf buffers ih =>
      rw [buffersEntries] at h
      cases hbuf : stat.bufferEntries buf with
      | error why =>
          rw [hbuf] at h
          cases h
      | ok first =>
          cases hrest : stat.buffersEntries buffers with
          | error why =>
              rw [hbuf, hrest] at h
              cases h
          | ok later => exact List.forall_mem_cons.mpr ⟨⟨first, hbuf⟩, ih hrest⟩

omit [Field D] [LinearOrder D] in
theorem kernelLine_nil : stat.KernelLine [] := ⟨fun _ h => absurd h List.not_mem_nil, List.Pairwise.nil⟩

variable [CharZero D]

/-- A line with room for it in the buffer gives its entries, whether its end is read with it or alone. -/
theorem buffersEntries_line {ws : List MapsWord} (h : stat.KernelLine ws) (hlen : (lineText ws).length < bufSize)
    (buffers : List (List Char)) :
    stat.buffersEntries (LineBuffer.lineBuffers '\n' (bufSize - 1) (lineText ws) ++ buffers) =
      (stat.buffersEntries buffers).map (stat.lineEntries ws ++ ·) := by
  have hend : stat.bufferEntries ['\n'] = .ok [] :=
    bufferEntries_lineText (@kernelLine_nil D stat) (Or.inr rfl)
  have hwhole := bufferEntries_lineText h (Or.inr rfl : LineTail ['\n'])
  have halone := bufferEntries_lineText h (Or.inl rfl : LineTail [])
  rw [List.append_nil] at halone
  rcases LineBuffer.lineBuffers_of_le (newline_not_mem_lineText h.wellFormed) (Nat.le_sub_one_of_lt hlen)
    (by decide : 0 < bufSize - 1) with hbuffers | hbuffers
  · rw [hbuffers, List.singleton_append, buffersEntries_cons hwhole]
  · rw [hbuffers, List.cons_append, List.singleton_append, buffersEntries_cons halone, buffersEntries_cons hend]
    cases stat.buffersEntries buffers with
    | error why => rfl
    | ok es => rfl

/-- A file of lines with room for each in the buffer gives the entries of its lines. -/
theorem fileEntries_ofText (hlines : ∀ ws ∈ lines, stat.KernelLine ws)
    (hlen : ∀ ws ∈ lines, (lineText ws).length < bufSize) :
    stat.fileEntries (NumaMaps.ofText (fileText lines)) = .ok (lines.flatMap stat.lineEntries) := by
  have hnewline : ∀ l ∈ lines.map lineText, '\n' ∉ l := List.forall_mem_map.mpr fun ws hws =>
    newline_not_mem_lineText (hlines ws hws).wellFormed
  have hbuffers : stat.buffersEntries ((lines.map lineText).flatMap (LineBuffer.lineBuffers '\n' (bufSize - 1))) =
      .ok (lines.flatMap stat.lineEntries) := by
    clear hnewline
    induction lines with
    | nil => rfl
    | cons ws lines ih =>
        rw [List.forall_mem_cons] at hlines hlen
        rw [List.map_cons, List.flatMap_cons, buffersEntries_line hlines.1 hlen.1, ih hlines.2 hlen.2,
          List.flatMap_cons]
        rfl
  rw [fileEntries, NumaMaps.ofText, fileText, LineBuffer.buffers_joinLines (by decide) hnewline, hbuffers]
  rfl

theorem accounts_of_length_lt (hpid : pidIx < numPids) (hlines : ∀ ws ∈ lines, stat.KernelLine ws)
    (hlen : ∀ ws ∈ lines, (lineText ws).length < bufSize) : stat.Accounts numPids pidIx lines := by
  intro table hcols
  have hentries := fileEntries_ofText hlines hlen
  have hspec := @addEntries_spec D _ stat numPids pidIx table hcols hpid _ (counted_fileEntries hentries)
  refine ⟨_, ?_, hspec⟩
  rw [readNumaMaps_eq, hentries]
  rfl

end File

/-! ### Longer lines -/

section Cut

variable {D : Type} {stat : Numastat D}

/-- A line up to the name of a mapped file, and so much of the name. -/
def cutStart (fill : Nat) : List Char := "00400000 default file=/".toList ++ List.replicate fill 'a'

/-- The line of a mapped file whose name has an `N` behind the first buffer. -/
def cutLine (n : Nat) : List MapsWord :=
  [.plain "00400000".toList, .plain "default".toList,
    .plain ("file=/".toList ++ List.replicate (bufSize - 24) 'a' ++ 'N' :: List.replicate (n - bufSize) 'a')]

/-- A line of this length: a cut one, if there is no room for it in the buffer. -/
def lineOfLength (n : Nat) : List MapsWord :=
  if n < bufSize then if n = 0 then [] else [.plain (List.replicate n 'a')] else cutLine n

theorem lineText_cutLine (n : Nat) :
    lineText (cutLine n) = cutStart (bufSize - 24) ++ 'N' :: List.replicate (n - bufSize) 'a' := by
  unfold cutLine cutStart
  generalize List.replicate (bufSize - 24) 'a' = fill
  generalize 'N' :: List.replicate (n - bufSize) 'a' = rest
  simp only [lineText, spaced, List.flatMap_cons, List.flatMap_nil, MapsWord.text, List.append_nil, List.append_assoc]
  rfl

theorem length_cutStart (fill : Nat) : (cutStart fill).length = 23 + fill := by
  unfold cutStart
  rw [List.length_append, List.length_replicate]
  rfl

theorem newline_not_mem_cutStart (fill : Nat) : '\n' ∉ cutStart fill := by
  unfold cutStart
  rw [List.mem_append, List.mem_replicate, not_or]
  exact ⟨by decide, fun h => absurd h.2 (by decide)⟩

theorem length_lineOfLength (n : Nat) : (lineText (lineOfLength n)).length = n := by
  rw [lineOfLength]
  split
  · split
    · next hzero => exact hzero.symm
    · rw [lineText, spaced, List.flatMap_nil, List.append_nil]
      exact List.length_replicate
  · next hlong =>
      rw [lineText_cutLine, List.length_append, length_cutStart, List.length_cons, List.length_replicate]
      rw [bufSize] at hlong ⊢
      omega

/-- A word of characters without a meaning. -/
theorem wellFormed_plain {c : Char} {text : List Char} (hhead : c ≠ 'N' ∧ c ≠ 'h' ∧ c ≠ 's')
    (htext : ∀ d ∈ c :: text, isDelimiter d = false ∧ d ≠ 'k') : stat.WellFormed (.plain (c :: text)) :=
  ⟨List.cons_ne_nil c text, fun d hd => (htext d hd).1, fun h => hhead.1 (Option.some.inj h),
    no_token_of_head hhead.2 text, not_vmPgszStr_infix fun hk => (htext _ hk).2 rfl⟩

theorem wellFormed_name (fill more : Nat) :
    stat.WellFormed (.plain ("file=/".toList ++ List.replicate fill 'a' ++ 'N' :: List.replicate more 'a')) := by
  have hchars : ∀ d ∈ "file=/aN".toList, isDelimiter d = false ∧ d ≠ 'k' := forall_mem_of_all (by decide)
  refine wellFormed_plain (by decide) fun d hd => hchars d ?_
  have hparts : d ∈ "file=/".toList ++ List.replicate fill 'a' ++ 'N' :: List.replicate more 'a' := hd
  rw [List.mem_append, List.mem_append, List.mem_cons, List.mem_replicate, List.mem_replicate] at hparts
  rcases hparts with (hd | ⟨-, rfl⟩) | rfl | ⟨-, rfl⟩
  · exact List.mem_append_left ['a', 'N'] hd
  · decide
  · decide
  · decide

theorem kernelLine_of_forall {ws : List MapsWord} (hws : ∀ w ∈ ws, stat.WellFormed w ∧ w.category? = none) :
    stat.KernelLine ws :=
  ⟨fun w hw => (hws w hw).1, List.pairwise_of_forall_mem_list fun _ _ w' hw' _ => (hws w' hw').2⟩

theorem kernelLine_lineOfLength (n : Nat) : stat.KernelLine (lineOfLength n) := by
  apply kernelLine_of_forall
  rw [lineOfLength]
  split
  · split
    · exact fun w hw => absurd hw List.not_mem_nil
    · next hpos =>
        obtain ⟨m, rfl⟩ := Nat.exists_eq_succ_of_ne_zero hpos
        refine List.forall_mem_singleton.mpr ⟨wellFormed_plain (by decide) fun d hd => ?_, rfl⟩
        obtain rfl := (List.mem_replicate.mp (List.replicate_succ ▸ hd : d ∈ List.replicate (m + 1) 'a')).2
        decide
  · refine List.forall_mem_cons.mpr ⟨⟨?_, rfl⟩, List.forall_mem_cons.mpr ⟨⟨?_, rfl⟩,
      List.forall_mem_singleton.mpr ⟨wellFormed_name _ _, rfl⟩⟩⟩
    · exact wellFormed_plain (by decide) (forall_mem_of_all (by decide))
    · exact wellFormed_plain (by decide) (forall_mem_of_all (by decide))

end Cut

section Longer

variable {D : Type} [Field D] [LinearOrder D] {stat : Numastat D} {numPids pidIx : Nat} {lines : List (List MapsWord)}

/-- A buffer that begins inside a name, with an `N`, stops the program. -/
theorem bufferEntries_name (m : Nat) {tail : List Char} (htail : LineTail tail) :
    stat.bufferEntries ('N' :: List.replicate m 'a' ++ tail) = .error .nodeValueParseError := by
  have hname : ∀ c ∈ 'N' :: List.replicate m 'a', isDelimiter c = false := by
    refine List.forall_mem_cons.mpr ⟨by decide, fun c hc => ?_⟩
    obtain rfl := (List.mem_replicate.mp hc).2
    decide
  have hwords : strtokWords (" \t\r\n".toList.contains ·) ('N' :: List.replicate m 'a' ++ tail) =
      ('N' :: List.replicate m 'a') :: strtokWords isDelimiter tail :=
    strtokWords_append (List.cons_ne_nil _ _) hname (@head_spaced [] tail htail)
  have hfirst : ∀ c, (List.replicate m 'a').head? = some c → c = 'a' := fun c hc =>
    (List.mem_replicate.mp (List.mem_of_mem_head? hc)).2
  have hread : strtol 10 (List.replicate m 'a') = (0, List.replicate m 'a') := by
    refine CString.strtol_of_head (fun c hc => ?_) ⟨fun h => ?_, fun h => ?_⟩ fun c hc => ?_
    · rw [hfirst c hc]
      decide
    · exact absurd (hfirst _ h) (by decide)
    · exact absurd (hfirst _ h) (by decide)
    · rw [hfirst c hc]
      decide
  have hno : (List.replicate m 'a').head? ≠ some '=' := fun h => absurd (hfirst _ h) (by decide)
  have hword : ∀ vmPagesz, stat.wordEntry processPrivateIndex vmPagesz ('N' :: List.replicate m 'a') =
      .error .nodeValueParseError := by
    intro vmPagesz
    rw [wordEntry, List.head?_cons, if_pos rfl, List.tail_cons, hread]
    exact if_neg hno
  rw [bufferEntries, hwords, wordsEntries, hword]
  rfl

/-- The second buffer of such a line. -/
theorem exists_buffer_of_cutLine {n : Nat} :
    ∃ m tail, LineTail tail ∧ 'N' :: List.replicate m 'a' ++ tail ∈
      LineBuffer.lineBuffers '\n' (bufSize - 1) (lineText (cutLine n)) := by
  have hlen : (cutStart (bufSize - 24)).length = bufSize - 1 := by
    rw [length_cutStart]
    decide
  have hcut := @LineBuffer.lineBuffers_of_lt Char _ '\n' _ 'N' (List.replicate (n - bufSize) 'a')
    (newline_not_mem_cutStart (bufSize - 24)) (by rw [hlen]; decide)
  rw [hlen, ← lineText_cutLine] at hcut
  rw [hcut]
  generalize n - bufSize = m
  have hfirst := @LineBuffer.buffers_cons Char _ '\n' (bufSize - 1) (by decide) 'N' (List.replicate m 'a' ++ ['\n'])
  have hnewline : ∀ k, '\n' ∉ 'N' :: List.replicate k 'a' := by
    intro k hmem
    rcases List.mem_cons.mp hmem with h | h
    · exact absurd h (by decide)
    · exact absurd (List.mem_replicate.mp h).2 (by decide)
  rw [LineBuffer.lineBuffers, List.cons_append, hfirst]
  by_cases hfits : m + 1 < bufSize - 1
  · refine ⟨m, ['\n'], Or.inr rfl, List.mem_cons_of_mem _ (List.mem_cons.mpr (Or.inl ?_))⟩
    have hline := @LineBuffer.fgets_line Char _ '\n' _ (hnewline m) [] (bufSize - 1)
      (by rw [List.length_cons, List.length_replicate]; exact hfits)
    rw [List.cons_append] at hline ⊢
    rw [hline]
  · refine ⟨bufSize - 2, [], Or.inl rfl, List.mem_cons_of_mem _ (List.mem_cons.mpr (Or.inl ?_))⟩
    have htake := @LineBuffer.fgets_take Char _ '\n' _ (hnewline m) ['\n'] (bufSize - 1)
      (by rw [List.length_cons, List.length_replicate]; omega)
    have hkept : ('N' :: List.replicate m 'a').take (bufSize - 1) = 'N' :: List.replicate (bufSize - 2) 'a' := by
      have hmin : min (bufSize - 2) m = bufSize - 2 := by omega
      change 'N' :: (List.replicate m 'a').take (bufSize - 2) = _
      rw [List.take_replicate, hmin]
    rw [List.cons_append, hkept] at htake
    rw [htake, List.append_nil]

/-- A file with such a line is not read to its end. -/
theorem not_accounts_of_cutLine {n : Nat} (hmem : cutLine n ∈ lines) (hlines : ∀ ws ∈ lines, stat.KernelLine ws) :
    ¬stat.Accounts numPids pidIx lines := by
  intro h
  obtain ⟨table', hread, -⟩ := h _ (@shaped_processTable D _ stat numPids).allCols_eq
  have hnewline : ∀ l ∈ lines.map lineText, '\n' ∉ l := List.forall_mem_map.mpr fun ws hws =>
    newline_not_mem_lineText (hlines ws hws).wellFormed
  rw [readNumaMaps_eq, fileEntries, NumaMaps.ofText, fileText,
    LineBuffer.buffers_joinLines (by decide) hnewline] at hread
  obtain ⟨m, tail, htail, hbuffer⟩ := @exists_buffer_of_cutLine n
  have hbuf := List.mem_flatMap.mpr ⟨lineText (cutLine n), List.mem_map_of_mem hmem, hbuffer⟩
  cases hall : stat.buffersEntries ((lines.map lineText).flatMap (LineBuffer.lineBuffers '\n' (bufSize - 1))) with
  | error why =>
      rw [hall] at hread
      cases hread
  | ok es =>
      obtain ⟨es', hes'⟩ := exists_bufferEntries hall _ hbuf
      rw [bufferEntries_name m htail] at hes'
      cases hes'

/-- Whatever lengths the lines have, all files of lines of these lengths are accounted for exactly where every line
has room in the buffer. -/
theorem accounts_iff [CharZero D] (hpid : pidIx < numPids) (lengths : List Nat) :
    (∀ lines, (∀ ws ∈ lines, stat.KernelLine ws) → lines.map (fun ws => (lineText ws).length) = lengths →
      stat.Accounts numPids pidIx lines) ↔ ∀ n ∈ lengths, n < bufSize := by
  constructor
  · intro h n hn
    by_contra hlong
    have hlines : ∀ ws ∈ lengths.map lineOfLength, stat.KernelLine ws :=
      List.forall_mem_map.mpr fun n _ => kernelLine_lineOfLength n
    have hlengths : (lengths.map lineOfLength).map (fun ws => (lineText ws).length) = lengths := by
      rw [List.map_map]
      exact (List.map_congr_left fun n _ => length_lineOfLength n).trans (List.map_id lengths)
    have hcut : cutLine n ∈ lengths.map lineOfLength := by
      refine List.mem_map.mpr ⟨n, hn, ?_⟩
      rw [lineOfLength, if_neg hlong]
    exact not_accounts_of_cutLine hcut hlines (h _ hlines hlengths)
  · intro hlen lines hlines hlengths
    refine accounts_of_length_lt hpid hlines fun ws hws => hlen _ ?_
    rw [← hlengths]
    exact List.mem_map_of_mem hws

end Longer

end Numastat

section Examples

open Numastat

/-- Two nodes that are not numbered one after the other, with exact numbers. -/
def exactNodes : Numastat ℚ where
  verbose := false
  showZeroData := false
  compressDisplay := false
  sortTable := false
  sortTableNode := -1
  screenWidth := 80
  nodeIxMap := [0, 2]
  nodeHeader := ["Node 0".toList, "Node 2".toList, "Total".toList]
  pageSizeInBytes := 4096
  hugePageSizeInBytes := 2048 * 1024
  format :=
    { text := fun _ d => (toString d.floor).toList
      stringBits := fun _ => 0
      repcharBits := fun _ => 0 }

def decimalOf (c : Char) (ds : List Char)
    (h : ((c :: ds).all fun d => decide (CString.isDigitOf 10 d = true)) = true) : Decimal :=
  ⟨c :: ds, List.cons_ne_nil c ds, forall_mem_of_all h⟩

/-- A mapped file with pages on both nodes, and a heap whose page size is not given. -/
def shellLines : List (List MapsWord) :=
  [[.plain "00400000".toList, .plain "file=/bin/sh".toList, .pages (decimalOf '0' [] rfl) (decimalOf '9' [] rfl),
      .pages (decimalOf '2' [] rfl) (decimalOf '1' ['2'] rfl), .pageSize (decimalOf '4' [] rfl)],
    [.plain "01e00000".toList, .keyword ⟨1, by decide⟩ [], .pages (decimalOf '2' [] rfl) (decimalOf '3' [] rfl)]]

theorem kernelLine_shellLines : ∀ ws ∈ shellLines, exactNodes.KernelLine ws := by
  refine List.forall_mem_cons.mpr ⟨⟨?_, by decide⟩, List.forall_mem_singleton.mpr ⟨?_, by decide⟩⟩
  · refine List.forall_mem_cons.mpr ⟨?_, List.forall_mem_cons.mpr ⟨?_, List.forall_mem_cons.mpr ⟨?_,
      List.forall_mem_cons.mpr ⟨?_, List.forall_mem_singleton.mpr ?_⟩⟩⟩⟩
    · exact wellFormed_plain (by decide) (forall_mem_of_all (by decide))
    · exact wellFormed_plain (by decide) (forall_mem_of_all (by decide))
    · exact ⟨by decide, by decide, by decide⟩
    · exact ⟨by decide, by decide, by decide⟩
    · exact ⟨by decide, by decide⟩
  · refine List.forall_mem_cons.mpr ⟨?_, List.forall_mem_cons.mpr ⟨?_, List.forall_mem_singleton.mpr ?_⟩⟩
    · exact wellFormed_plain (by decide) (forall_mem_of_all (by decide))
    · exact ⟨fun c hc => absurd hc List.not_mem_nil, not_vmPgszStr_infix (by decide)⟩
    · exact ⟨by decide, by decide, by decide⟩

theorem accounts_shellLines : exactNodes.Accounts 1 0 shellLines :=
  (accounts_iff Nat.one_pos (shellLines.map fun ws => (lineText ws).length)).mpr (forall_mem_of_all (by decide))
    shellLines kernelLine_shellLines rfl

/-- A mapped file with a long name, so that the number of its pages is cut. -/
def cutPages : List MapsWord :=
  [.plain "00400000".toList, .plain "default".toList, .plain ("file=/".toList ++ List.replicate 2019 'a'),
    .pages (decimalOf '0' [] rfl) (decimalOf '2' ['5'] rfl)]

theorem kernelLine_cutPages : exactNodes.KernelLine cutPages := by
  refine kernelLine_of_forall (List.forall_mem_cons.mpr ⟨⟨?_, rfl⟩, List.forall_mem_cons.mpr ⟨⟨?_, rfl⟩,
    List.forall_mem_cons.mpr ⟨⟨?_, rfl⟩, List.forall_mem_singleton.mpr ⟨?_, rfl⟩⟩⟩⟩)
  · exact wellFormed_plain (by decide) (forall_mem_of_all (by decide))
  · exact wellFormed_plain (by decide) (forall_mem_of_all (by decide))
  · have hchars : ∀ d ∈ "file=/a".toList, isDelimiter d = false ∧ d ≠ 'k' := forall_mem_of_all (by decide)
    refine wellFormed_plain (by decide) fun d hd => hchars d ?_
    have hparts : d ∈ "file=/".toList ++ List.replicate 2019 'a' := hd
    obtain hd | hd := List.mem_append.mp hparts
    · exact List.mem_append_left ['a'] hd
    · rw [List.eq_of_mem_replicate hd]
      decide
  · exact ⟨by decide, by decide, by decide⟩

/-- 2 of 25 pages are counted. -/
theorem not_accounts_cutPages : exactNodes.KernelLine cutPages ∧ ¬exactNodes.Accounts 1 0 [cutPages] := by
  refine ⟨kernelLine_cutPages, fun h => ?_⟩
  obtain ⟨table', hread, hnumber, -⟩ := h _ (@shaped_processTable ℚ _ exactNodes 1).allCols_eq
  have hentries : exactNodes.fileEntries (NumaMaps.ofText (fileText [cutPages])) =
      .ok [⟨processPrivateIndex, 0, 2 * 4096 / (1024 * 1024)⟩] := by decide +kernel
  rw [readNumaMaps_eq, hentries] at hread
  cases hread
  have hread := (@addEntries_spec ℚ _ exactNodes 1 0 _ (@shaped_processTable ℚ _ exactNodes 1).allCols_eq (by decide) _
    (counted_fileEntries hentries)).1 7 3 (by decide)
  have hsum := add_left_cancel (hread.symm.trans (hnumber 7 3 (by decide)))
  revert hsum
  decide +kernel

end Examples

end Numactl
