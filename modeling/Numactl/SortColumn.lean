import Numactl.NumastatRuns
import Numactl.SystemFiles

/-! The column by which `-s<node>` sorts (`show_process_info` and `show_info_from_system_file` in `numastat.c`).
Both take the argument for an index into `node_ix_map` and the number found there for the index of a column.
The rows are sorted right by whatever column that is, so they are in the order asked for where it is the node's
column, or the total where no node has the number. -/

namespace Numactl

namespace Vtab

variable {D : Type}

/-- All rows are in their places, except that the `n` data rows after the header may have changed theirs. -/
structure InPlace (table : Vtab D) (n : Nat) : Prop where
  header_pos : 0 < table.headerRows
  fits : table.headerRows + n ≤ table.allRows
  window : ((List.range' table.headerRows n).map table.rowIxMap).Perm (List.range' table.headerRows n)
  outside : ∀ k, k < table.headerRows ∨ table.headerRows + n ≤ k → table.rowIxMap k = k

/-- Descending order of a column. -/
def ColDescending [Zero D] [LE D] (format : CellFormat D) (table : Vtab D) (col : Nat) (rows : List Nat) : Prop :=
  rows.Pairwise fun row row' => (table.getCell row' col).asDouble format ≤ (table.getCell row col).asDouble format

/-- The rows displayed are the header, the data rows in descending order of a column, and the rows after them,
the last two as far as they are shown. -/
def DisplaysSorted [Zero D] [LE D] (format : CellFormat D) (table : Vtab D) (options : ShowOptions)
    (n col : Nat) : Prop :=
  ∃ rows, rows.Perm ((List.range' table.headerRows n).filter (table.showsRow options)) ∧
    table.ColDescending format col rows ∧
    table.displayedRows options = List.range table.headerRows ++ rows ++
      (List.range' (table.headerRows + n) (table.allRows - (table.headerRows + n))).filter (table.showsRow options)

variable {table : Vtab D} {n : Nat}

/-- What the cells hold, and how they are shown, is no part of it. -/
theorem InPlace.of_content (h : table.InPlace n) (cell : Nat → Cell D) (width : Nat → Nat)
    (flags flags' : Nat → Flags) :
    ({ table with cell := cell, colWidth := width, rowFlags := flags, colFlags := flags' } : Vtab D).InPlace n :=
  ⟨h.header_pos, h.fits, h.window, h.outside⟩

theorem displayedRows_of_inPlace (h : table.InPlace n) (options : ShowOptions) :
    table.displayedRows options = List.range table.headerRows ++
      ((List.range' table.headerRows n).map table.rowIxMap).filter (table.showsRow options) ++
        (List.range' (table.headerRows + n) (table.allRows - (table.headerRows + n))).filter
          (table.showsRow options) := by
  have hsplit : List.range table.allRows = List.range table.headerRows ++ List.range' table.headerRows n ++
      List.range' (table.headerRows + n) (table.allRows - (table.headerRows + n)) := by
    have hfits := h.fits
    rw [List.range_eq_range', List.range_eq_range', List.append_assoc, List.range'_append_1]
    have hstart := @List.range'_append_1 0 table.headerRows (n + (table.allRows - (table.headerRows + n)))
    rw [Nat.zero_add] at hstart
    rw [hstart]
    congr 1
    omega
  have hkeep : ∀ rows : List Nat, (∀ k ∈ rows, k < table.headerRows ∨ table.headerRows + n ≤ k) →
      rows.map table.rowIxMap = rows := by
    intro rows hrows
    calc rows.map table.rowIxMap = rows.map id := List.map_congr_left fun k hk => h.outside k (hrows k hk)
      _ = rows := List.map_id rows
  have hdata : ∀ rows : List Nat, (∀ row ∈ rows, table.headerRows ≤ row) →
      rows.filter (fun row => decide (row < table.headerRows) || table.showsRow options row) =
        rows.filter (table.showsRow options) := by
    intro rows hrows
    apply List.filter_congr
    intro row hrow
    rw [decide_eq_false (Nat.not_lt.mpr (hrows row hrow)), Bool.false_or]
  have hheader : (List.range table.headerRows).filter
      (fun row => decide (row < table.headerRows) || table.showsRow options row) = List.range table.headerRows := by
    rw [List.filter_eq_self]
    intro row hrow
    rw [decide_eq_true (List.mem_range.mp hrow), Bool.true_or]
  rw [displayedRows, hsplit, List.map_append, List.map_append, List.filter_append, List.filter_append,
    hkeep (List.range _) fun k hk => Or.inl (List.mem_range.mp hk), hheader,
    hkeep (List.range' _ _) fun k hk => Or.inr (List.mem_range'_1.mp hk).1, hdata, hdata]
  · intro row hrow
    exact (Nat.le_add_right _ _).trans (List.mem_range'_1.mp hrow).1
  · intro row hrow
    exact (List.mem_range'_1.mp (h.window.mem_iff.mp hrow)).1

/-- Two descriptions of one display agree on the order of the data rows. -/
theorem displaysSorted_iff [Zero D] [LE D] (h : table.InPlace n) (format : CellFormat D) (options : ShowOptions)
    (col : Nat) :
    table.DisplaysSorted format options n col ↔ table.ColDescending format col
      (((List.range' table.headerRows n).map table.rowIxMap).filter (table.showsRow options)) := by
  rw [DisplaysSorted, displayedRows_of_inPlace h]
  refine ⟨fun hsorted => ?_, fun hsorted => ⟨_, h.window.filter _, hsorted, rfl⟩⟩
  obtain ⟨rows, -, hdesc, heq⟩ := hsorted
  rw [List.append_cancel_right_eq, List.append_cancel_left_eq] at heq
  rwa [heq]

section Sorted

variable [Zero D] [LinearOrder D]

/-- The table displayed, sorted by a column. -/
def sortedTable (format : CellFormat D) (table : Vtab D) (screenWidth : Nat) (options : ShowOptions)
    (n col : Nat) : Vtab D :=
  ((table.sortRowsDescendingByCol format table.headerRows (table.headerRows + n - 1) col).displayTable format
    screenWidth options).1

variable {format : CellFormat D} {screenWidth : Nat} {options : ShowOptions} {col : Nat}

omit [Zero D] [LinearOrder D] in
theorem window_eq (h : table.InPlace n) (m : Nat → Nat) :
    SelectionSort.window m table.headerRows (table.headerRows + n - 1) = (List.range' table.headerRows n).map m := by
  have hpos := h.header_pos
  rw [SelectionSort.window]
  congr 2
  omega

theorem InPlace.sortRows (h : table.InPlace n) (format : CellFormat D) (col : Nat) :
    (table.sortRowsDescendingByCol format table.headerRows (table.headerRows + n - 1) col).InPlace n := by
  have hpos := h.header_pos
  refine ⟨h.header_pos, h.fits, ?_, fun k hk => ?_⟩
  · have hperm := @SelectionSort.window_sort Nat D _ (fun row => (table.getCell row col).asDouble format)
      table.rowIxMap table.headerRows (table.headerRows + n - 1)
    rw [window_eq h, window_eq h] at hperm
    exact hperm.trans h.window
  · change k < table.headerRows ∨ table.headerRows + n ≤ k at hk
    have hout := @SelectionSort.sort_of_outside Nat D _ (fun row => (table.getCell row col).asDouble format)
      table.rowIxMap table.headerRows (table.headerRows + n - 1) k (by omega)
    exact hout.trans (h.outside k hk)

theorem inPlace_sortedTable (h : table.InPlace n) :
    (table.sortedTable format screenWidth options n col).InPlace n := by
  rw [sortedTable, displayTable_fst, markData_eq]
  exact (h.sortRows format col).of_content _ _ _ _

theorem headerRows_sortedTable :
    (table.sortedTable format screenWidth options n col).headerRows = table.headerRows := by
  rw [sortedTable, displayTable_fst, markData_eq]
  rfl

theorem getCell_sortedTable (row col' : Nat) :
    (table.sortedTable format screenWidth options n col).getCell row col' = table.getCell row col' := by
  rw [sortedTable, displayTable_fst, markData_eq]
  rfl

/-- The data rows are in descending order of the column they were sorted by. -/
theorem displaysSorted_sortedTable (h : table.InPlace n) :
    (table.sortedTable format screenWidth options n col).DisplaysSorted format options n col := by
  rw [displaysSorted_iff (inPlace_sortedTable h)]
  apply List.Pairwise.filter
  rw [List.pairwise_map]
  have hmap : (table.sortedTable format screenWidth options n col).rowIxMap =
      SelectionSort.sort (fun row => (table.getCell row col).asDouble format) table.rowIxMap table.headerRows
        (table.headerRows + n - 1) := by
    rw [sortedTable, displayTable_fst, markData_eq]
    rfl
  simp only [getCell_sortedTable, headerRows_sortedTable, hmap]
  have hsort := @SelectionSort.descending_sort Nat D _ (fun row => (table.getCell row col).asDouble format)
    table.rowIxMap table.headerRows (table.headerRows + n - 1)
  refine (List.pairwise_lt_range' (s := table.headerRows) (n := n)).imp_of_mem fun {i j} hi hj hlt => ?_
  rw [List.mem_range'_1] at hi hj
  exact hsort i j hi.1 hlt.le (by omega)

/-- A row with data that is not zero is shown. -/
theorem showsRow_sortedTable {row col' : Nat} (hplace : (row, col') ∈ table.dataPlaces)
    (hcell : (table.getCell row col').isNonZero = true) :
    (table.sortedTable format screenWidth options n col).showsRow options row = true := by
  have hany : ∀ p : Cell D → Bool, p (table.getCell row col') = true →
      table.anyAt table.dataPlaces Prod.fst p row = true := by
    intro p hp
    exact List.any_eq_true.mpr ⟨_, hplace, by rw [beq_self_eq_true, Bool.true_and, hp]⟩
  have hseen := hany Cell.isData (isData_of_isNonZero hcell)
  have hnonZero := hany Cell.isNonZero hcell
  rw [sortedTable, displayTable_fst, markData_eq, showsRow]
  change (_ || ((_ || (_ || table.anyAt table.dataPlaces Prod.fst Cell.isData row)) &&
    (_ || (_ || table.anyAt table.dataPlaces Prod.fst Cell.isNonZero row)))) = true
  rw [hseen, hnonZero]
  simp only [Bool.or_true, Bool.and_true]

omit [Zero D] [LinearOrder D] in
theorem pairwise_or {R : Nat → Nat → Prop} {rows : List Nat} (h : rows.Pairwise R) {row row' : Nat}
    (hrow : row ∈ rows) (hrow' : row' ∈ rows) (hne : row ≠ row') : R row row' ∨ R row' row := by
  have hsymm : Std.Symm fun a b => R a b ∨ R b a := ⟨fun _ _ h => h.symm⟩
  exact (h.imp (S := fun a b => R a b ∨ R b a) Or.inl).forall hrow hrow' hne

/-- Two rows that are shown and come in opposite orders in two columns are displayed in the order of at most one
of them. -/
theorem not_displaysSorted (h : table.InPlace n) {col' row row' : Nat} {x y : D} (hne : x ≠ y)
    (hrow : row ∈ List.range' table.headerRows n) (hrow' : row' ∈ List.range' table.headerRows n)
    (hshown : (table.sortedTable format screenWidth options n col).showsRow options row = true)
    (hshown' : (table.sortedTable format screenWidth options n col).showsRow options row' = true)
    (hcol : (table.getCell row col).asDouble format = x) (hcol' : (table.getCell row' col).asDouble format = y)
    (hother : (table.getCell row col').asDouble format = y)
    (hother' : (table.getCell row' col').asDouble format = x) :
    ¬(table.sortedTable format screenWidth options n col).DisplaysSorted format options n col' := by
  intro hsorted
  have hin := @inPlace_sortedTable D table n _ _ format screenWidth options col h
  have hboth := ((displaysSorted_iff hin _ _ _).mp (displaysSorted_sortedTable h)).and
    ((displaysSorted_iff hin _ _ _).mp hsorted)
  simp only [getCell_sortedTable, headerRows_sortedTable] at hboth
  have hmem : ∀ k ∈ List.range' table.headerRows n,
      (table.sortedTable format screenWidth options n col).showsRow options k = true →
        k ∈ ((List.range' table.headerRows n).map
          (table.sortedTable format screenWidth options n col).rowIxMap).filter
            ((table.sortedTable format screenWidth options n col).showsRow options) := by
    intro k hk hkshown
    have hwindow := hin.window
    rw [headerRows_sortedTable] at hwindow
    exact List.mem_filter.mpr ⟨hwindow.mem_iff.mpr hk, hkshown⟩
  have hrows : row ≠ row' := by
    rintro rfl
    exact hne (hcol.symm.trans hcol')
  -- one of the two comes first, in both columns
  obtain ⟨hyx, hxy⟩ | ⟨hxy, hyx⟩ := pairwise_or hboth (hmem row hrow hshown) (hmem row' hrow' hshown') hrows
  · rw [hcol, hcol'] at hyx
    rw [hother, hother'] at hxy
    exact hne (le_antisymm hxy hyx)
  · rw [hcol, hcol'] at hxy
    rw [hother, hother'] at hyx
    exact hne (le_antisymm hxy hyx)

/-- A table in which two rows come in opposite orders in two columns: its cells have one of two values, and
`rule` is put over some of them. -/
theorem not_displaysSorted_of_cells {base : Vtab D} (h : base.InPlace n) {col' : Nat} {ruled : Nat → Prop}
    [DecidablePred ruled] {rule : Cell D} {v : D} (hrule : rule.asDouble format ≠ v) (hzero : v ≠ 0)
    (hdata : ∀ row ∈ List.range' base.headerRows n, ∀ k < base.allCols, ¬ruled (base.cellIx row k))
    (hcol' : col' < base.allCols) (low : Nat → Prop) [DecidablePred low] {row row' : Nat}
    (hrow : row ∈ List.range' base.headerRows n) (hrow' : row' ∈ List.range' base.headerRows n)
    (hfirst : ¬ruled (base.cellIx row col) ∧ ¬low (base.cellIx row col))
    (hsecond : ruled (base.cellIx row' col) ∨ low (base.cellIx row' col))
    (hother : low (base.cellIx row col')) (hother' : ¬low (base.cellIx row' col'))
    (hshown : ∃ k, base.headerCols ≤ k ∧ k < base.allCols ∧ ¬low (base.cellIx row k))
    (hshown' : ∃ k, base.headerCols ≤ k ∧ k < base.allCols ∧ ¬low (base.cellIx row' k)) (width : Nat → Nat)
    (flags flags' : Nat → Flags) :
    ¬({ base with
          cell := fun ix => if ruled ix then rule else .double (if low ix then rule.asDouble format else v)
          colWidth := width
          rowFlags := flags
          colFlags := flags' }.sortedTable format screenWidth options n col).DisplaysSorted format options n
            col' := by
  generalize htable : ({ base with
    cell := fun ix => if ruled ix then rule else .double (if low ix then rule.asDouble format else v)
    colWidth := width
    rowFlags := flags
    colFlags := flags' } : Vtab D) = table
  have hin : table.InPlace n := htable ▸ h.of_content _ _ _ _
  have hstart : table.headerRows = base.headerRows := by rw [← htable]
  have hlow : ∀ r k, ruled (base.cellIx r k) ∨ low (base.cellIx r k) →
      (table.getCell r k).asDouble format = rule.asDouble format := by
    intro r k hcell
    subst htable
    change (if ruled (base.cellIx r k) then rule else
      .double (if low (base.cellIx r k) then rule.asDouble format else v)).asDouble format = _
    by_cases hruled : ruled (base.cellIx r k)
    · rw [if_pos hruled]
    · rw [if_neg hruled, if_pos (hcell.resolve_left hruled)]
      rfl
  have hhigh : ∀ r k, ¬ruled (base.cellIx r k) → ¬low (base.cellIx r k) → table.getCell r k = .double v := by
    intro r k hruled hnot
    subst htable
    change (if ruled (base.cellIx r k) then rule else
      .double (if low (base.cellIx r k) then rule.asDouble format else v)) = _
    rw [if_neg hruled, if_neg hnot]
  have hshows : ∀ r ∈ List.range' base.headerRows n,
      (∃ k, base.headerCols ≤ k ∧ k < base.allCols ∧ ¬low (base.cellIx r k)) →
        (table.sortedTable format screenWidth options n col).showsRow options r = true := by
    intro r hr hcell
    obtain ⟨k, hk, hlt, hnot⟩ := hcell
    have hplace : (r, k) ∈ table.dataPlaces := by
      rw [mem_dataPlaces, ← htable]
      exact ⟨⟨(List.mem_range'_1.mp hr).1, (List.mem_range'_1.mp hr).2.trans_le h.fits⟩, hk, hlt⟩
    apply showsRow_sortedTable hplace
    rw [hhigh r k (hdata r hr k hlt) hnot]
    exact decide_eq_true hzero
  refine not_displaysSorted hin hrule.symm (hstart ▸ hrow) (hstart ▸ hrow') (hshows row hrow hshown)
    (hshows row' hrow' hshown') ?_ (hlow row' col hsecond) (hlow row col' (Or.inr hother)) ?_
  · rw [hhigh row col hfirst.1 hfirst.2]
    rfl
  · rw [hhigh row' col' (hdata row' hrow' col' hcol') hother']
    rfl

/-- Some content of a table is displayed in the wrong order of one column if it is sorted by another, whatever
is put over the cells of a rule that does not reach into two data rows. -/
theorem exists_not_displaysSorted {base : Vtab D} (h : base.InPlace n) (hn : 2 ≤ n) {col' : Nat}
    (hne : col ≠ col') (hheader : base.headerCols ≤ col') (hcol' : col' < base.allCols)
    (hcols : 2 ≤ base.dataCols) (ruled : Nat → Prop) [DecidablePred ruled] (rule : Cell D) {v : D} (hzero : v ≠ 0)
    (hrule : rule.asDouble format ≠ v)
    (hdata : ∀ row ∈ List.range' base.headerRows n, ∀ k < base.allCols, ¬ruled (base.cellIx row k))
    (honce : ruled (base.cellIx base.headerRows col) → ¬ruled (base.cellIx (base.headerRows + 1) col)) :
    ∃ cell : Nat → Cell D, ∀ width flags flags',
      ¬({ base with
            cell := fun ix => if ruled ix then rule else cell ix
            colWidth := width
            rowFlags := flags
            colFlags := flags' }.sortedTable format screenWidth options n col).DisplaysSorted format options n
              col' := by
  have hall : base.allCols = base.headerCols + base.dataCols := rfl
  have hfirst : ∀ k, base.cellIx base.headerRows k = base.headerRows * base.allCols + k := fun _ => rfl
  have hsecond : ∀ k, base.cellIx (base.headerRows + 1) k =
      base.headerRows * base.allCols + base.allCols + k := by
    intro k
    rw [cellIx, Nat.succ_mul]
  have hmem : base.headerRows ∈ List.range' base.headerRows n := List.mem_range'_1.mpr (by omega)
  have hmem' : base.headerRows + 1 ∈ List.range' base.headerRows n := List.mem_range'_1.mpr (by omega)
  obtain ⟨other, hother, hlt, hdiff⟩ : ∃ k, base.headerCols ≤ k ∧ k < base.allCols ∧ k ≠ col' := by
    by_cases hlast : col' = base.headerCols
    · exact ⟨base.headerCols + 1, by omega, by omega, by omega⟩
    · exact ⟨base.headerCols, le_refl _, by omega, Ne.symm hlast⟩
  by_cases hruled : ruled (base.cellIx base.headerRows col)
  · refine ⟨_, not_displaysSorted_of_cells h hrule hzero hdata hcol'
      (· = base.cellIx (base.headerRows + 1) col') hmem' hmem ⟨honce hruled, ?_⟩ (Or.inl hruled) rfl ?_
      ⟨other, hother, hlt, ?_⟩ ⟨col', hheader, hcol', ?_⟩⟩
    all_goals
      simp only [hfirst, hsecond]
      omega
  · refine ⟨_, not_displaysSorted_of_cells h hrule hzero hdata hcol'
      (fun ix => ix = base.cellIx base.headerRows col' ∨ ix = base.cellIx (base.headerRows + 1) col) hmem hmem'
      ⟨hruled, ?_⟩ (Or.inr (Or.inr rfl)) (Or.inl rfl) ?_ ⟨other, hother, hlt, ?_⟩ ⟨col', hheader, hcol', ?_⟩⟩
    all_goals
      simp only [hfirst, hsecond]
      omega

end Sorted

end Vtab

namespace Numastat

variable {D : Type}

/-! ### The column -/

/-- The column of the node asked for, or the total if no node has the number. -/
def nodeCol (stat : Numastat D) : Nat :=
  headerCols + stat.nodeIxMap.findIdx fun node : Nat => decide ((node : Int) = stat.sortTableNode)

/-- The node asked for is the one at this index; or no node has the number, and it is no index, or that of a node
whose number is the count of nodes. -/
def FindsColumn (stat : Numastat D) : Prop :=
  (0 ≤ stat.sortTableNode ∧ stat.nodeIxMap[stat.sortTableNode.toNat]? = some stat.sortTableNode.toNat) ∨
    (∀ node ∈ stat.nodeIxMap, (node : Int) ≠ stat.sortTableNode) ∧
      (stat.sortTableNode < 0 ∨ (stat.numNodes : Int) ≤ stat.sortTableNode ∨
        stat.nodeIxMap[stat.sortTableNode.toNat]? = some stat.numNodes)

/-- In a list in ascending order no number is below its index. -/
theorem le_of_ascending {ns : List Nat} (h : ns.Pairwise (· < ·)) {i k : Nat} (hk : ns[i]? = some k) : i ≤ k := by
  have hbound : ∀ (ns : List Nat) (low i : Nat), ns.Pairwise (· < ·) → (∀ n ∈ ns, low ≤ n) → ns[i]? = some k →
      low + i ≤ k := by
    intro ns
    induction ns with
    | nil =>
        intro low i _ _ hk
        cases hk
    | cons n ns ih =>
        intro low i h hlow hk
        rw [List.pairwise_cons] at h
        rw [List.forall_mem_cons] at hlow
        cases i with
        | zero =>
            rw [List.getElem?_cons_zero, Option.some.injEq] at hk
            omega
        | succ i =>
            have hnext := ih (low + 1) i h.2 (fun m hm => by have := h.1 m hm; omega) hk
            omega
  have hzero := hbound ns 0 i h (fun n _ => Nat.zero_le n) hk
  omega

theorem sortCol_eq_nodeCol_iff {stat : Numastat D} (hnodes : stat.nodeIxMap.Pairwise (· < ·)) :
    stat.sortCol = stat.nodeCol ↔ stat.FindsColumn := by
  have hnone : stat.nodeIxMap.findIdx (fun node : Nat => decide ((node : Int) = stat.sortTableNode)) =
      stat.numNodes ↔ ∀ node ∈ stat.nodeIxMap, (node : Int) ≠ stat.sortTableNode := by
    rw [numNodes, List.findIdx_eq_length]
    simp only [decide_eq_false_iff_not, ne_eq]
  rw [sortCol, nodeCol, FindsColumn]
  by_cases houtside : stat.sortTableNode < 0 ∨ (stat.numNodes : Int) ≤ stat.sortTableNode
  · rw [if_pos houtside, totalColIx, Nat.add_left_cancel_iff, eq_comm, hnone]
    refine ⟨fun h => Or.inr ⟨h, houtside.imp_right Or.inl⟩, fun h => ?_⟩
    obtain ⟨hpos, hnode⟩ | ⟨h, -⟩ := h
    · have hlt : stat.sortTableNode.toNat < stat.numNodes := (List.getElem?_eq_some_iff.mp hnode).1
      omega
    · exact h
  · rw [not_or, not_lt, not_le] at houtside
    obtain ⟨n, hn⟩ := Int.eq_ofNat_of_zero_le houtside.1
    have hlt : n < stat.nodeIxMap.length := by
      have hlt := houtside.2
      rw [hn, numNodes] at hlt
      omega
    have hget : stat.nodeIxMap[n]? = some stat.nodeIxMap[n] := List.getElem?_eq_getElem hlt
    generalize hx : stat.nodeIxMap[n] = x at hget
    rw [if_neg (by omega), hn, Int.toNat_natCast, List.getD_eq_getElem?_getD, hget, Option.getD_some,
      Nat.add_left_cancel_iff]
    rw [hn] at hnone
    simp only [Option.some.injEq]
    refine ⟨fun h => ?_, fun h => ?_⟩
    · by_cases hfound : x < stat.nodeIxMap.length
      · have hnode := @List.findIdx_getElem Nat (fun node : Nat => decide ((node : Int) = n)) stat.nodeIxMap
          (by rw [← h]; exact hfound)
        have hsome : stat.nodeIxMap[stat.nodeIxMap.findIdx fun node : Nat => decide ((node : Int) = n)]? =
            some n := List.getElem?_eq_some_iff.mpr ⟨_, Nat.cast_inj.mp (of_decide_eq_true hnode)⟩
        rw [← h] at hsome
        have hle : x ≤ n := le_of_ascending hnodes hsome
        have hge : n ≤ x := le_of_ascending hnodes hget
        exact Or.inl ⟨Int.natCast_nonneg n, le_antisymm hle hge⟩
      · have hlength : x = stat.numNodes := le_antisymm (h ▸ List.findIdx_le_length) (not_lt.mp hfound)
        exact Or.inr ⟨hnone.mp (h ▸ hlength), Or.inr (Or.inr hlength)⟩
    · obtain ⟨-, rfl⟩ | ⟨hno, hlength⟩ := h
      · rw [eq_comm, List.findIdx_eq hlt]
        refine ⟨decide_eq_true (congrArg _ hx), fun j hj => ?_⟩
        have hless := (List.pairwise_iff_getElem.mp hnodes) j x (hj.trans hlt) hlt hj
        rw [decide_eq_false_iff_not, Nat.cast_inj]
        omega
      · rw [hnone.mpr hno]
        obtain hneg | hle | hlength := hlength
        · omega
        · rw [numNodes] at hle
          omega
        · exact hlength

/-! ### The two tables -/

variable [LinearOrder D] [Zero D]

/-- A table of `n` data rows with `after` rows after them, and a column for each node and the total. -/
structure Shaped (stat : Numastat D) (n after : Nat) (table : Vtab D) : Prop where
  headerRows_eq : table.headerRows = headerRows
  headerCols_eq : table.headerCols = headerCols
  dataRows_eq : table.dataRows = n + after
  dataCols_eq : table.dataCols = stat.numNodes + 1
  inPlace : table.InPlace n

omit [LinearOrder D] [Zero D] in
theorem Shaped.of_cell {stat : Numastat D} {n after : Nat} {table : Vtab D} (h : Shaped stat n after table)
    (cell : Nat → Cell D) : Shaped stat n after { table with cell := cell } :=
  ⟨h.headerRows_eq, h.headerCols_eq, h.dataRows_eq, h.dataCols_eq, h.inPlace.of_content _ _ _ _⟩

/-- What `show_process_info` displays is sorted by the node asked for. -/
def ProcessSorted (stat : Numastat D) (numPids : Nat) (table : Vtab D) : Prop :=
  ((stat.prepareTable numPids table).displayTable stat.format stat.screenWidth stat.showOptions).1.DisplaysSorted
    stat.format stat.showOptions (stat.dataRows numPids) stat.nodeCol

/-- What `show_info_from_system_file` displays is sorted by the node asked for. -/
def InfoSorted (stat : Numastat D) (meminfoRows : Nat) (table : Vtab D) : Prop :=
  ((stat.prepareInfo meminfoRows table).displayTable stat.format stat.screenWidth stat.showOptions).1.DisplaysSorted
    stat.format stat.showOptions meminfoRows stat.nodeCol

variable {stat : Numastat D} {table : Vtab D} {n : Nat}

/-- The process table is sorted as it is, but for its rule and its widths. -/
theorem displayTable_prepareTable (hsort : stat.sortTable = true) {numPids : Nat}
    (hrows : table.headerRows = headerRows) :
    ((stat.prepareTable numPids table).displayTable stat.format stat.screenWidth stat.showOptions).1 =
      ({ table with
          cell := fun ix =>
            if ix ∈ table.ixs ((List.range (headerCols + stat.numNodes + 1)).map (stat.totalRowIx numPids - 1, ·)) then
              .repchar '-'
            else table.cell ix
          colWidth := fun col => if stat.autoSized col then stat.autoWidth table col else table.colWidth col
          rowFlags := Function.update table.rowFlags (stat.totalRowIx numPids - 1)
            { table.rowFlags (stat.totalRowIx numPids - 1) with alwaysShow := true }
          colFlags := table.colFlags } : Vtab D).sortedTable stat.format stat.screenWidth stat.showOptions
            (stat.dataRows numPids) stat.sortCol := by
  rw [prepareTable, sortRows, if_pos hsort, setRule_eq, setColWidths_eq, Vtab.sortedTable]
  simp only [hrows]
  rfl

omit [LinearOrder D] [Zero D] in
theorem exists_colWidth (cols : List Nat) (table : Vtab D) :
    ∃ width, cols.foldl (fun t col => t.autoSetColWidth stat.format col 4 ⟨16, sixteen_lt⟩) table =
      { table with colWidth := width } := by
  induction cols generalizing table with
  | nil => exact ⟨_, rfl⟩
  | cons col cols ih =>
      obtain ⟨width, hwidth⟩ := ih (table.autoSetColWidth stat.format col 4 ⟨16, sixteen_lt⟩)
      exact ⟨width, hwidth⟩

theorem exists_displayTable_prepareInfo (hsort : stat.sortTable = true) :
    ∃ width, ((stat.prepareInfo n table).displayTable stat.format stat.screenWidth stat.showOptions).1 =
      ({ table with colWidth := width } : Vtab D).sortedTable stat.format stat.screenWidth stat.showOptions n
        stat.sortCol := by
  have hwidth : ∃ width, (if stat.compressDisplay then
      (List.range (headerCols + stat.numNodes + 1)).foldl
        (fun t col => t.autoSetColWidth stat.format col 4 ⟨16, sixteen_lt⟩) table
      else table) = { table with colWidth := width } := by
    split
    · exact exists_colWidth _ _
    · exact ⟨_, rfl⟩
  obtain ⟨width, hwidth⟩ := hwidth
  refine ⟨width, ?_⟩
  rw [prepareInfo, hwidth, if_pos hsort, Vtab.sortedTable]

/-! ### Where the order is the one asked for -/

/-- Sorted by the column asked for, the rows are in its order. -/
theorem displaysSorted_nodeCol (hcol : stat.sortCol = stat.nodeCol) (h : table.InPlace n) :
    (table.sortedTable stat.format stat.screenWidth stat.showOptions n stat.sortCol).DisplaysSorted stat.format
      stat.showOptions n stat.nodeCol :=
  hcol ▸ Vtab.displaysSorted_sortedTable h

/-- A single row is in the order of every column. -/
theorem displaysSorted_of_lt_two (h : table.InPlace n) (hn : n < 2) (col : Nat) :
    (table.sortedTable stat.format stat.screenWidth stat.showOptions n stat.sortCol).DisplaysSorted stat.format
      stat.showOptions n col := by
  rw [Vtab.displaysSorted_iff (Vtab.inPlace_sortedTable h)]
  apply List.Pairwise.filter
  obtain rfl | rfl : n = 0 ∨ n = 1 := by omega
  · exact List.Pairwise.nil
  · exact List.pairwise_singleton _ _

/-- A table without content. -/
def emptyTable (stat : Numastat D) (n after : Nat) : Vtab D :=
  Vtab.initTable headerRows headerCols (n + after) (stat.numNodes + 1)

omit [LinearOrder D] [Zero D] in
theorem shaped_emptyTable (n after : Nat) : Shaped stat n after (stat.emptyTable n after) where
  headerRows_eq := rfl
  headerCols_eq := rfl
  dataRows_eq := rfl
  dataCols_eq := rfl
  inPlace :=
    { header_pos := Nat.two_pos
      fits := Nat.add_le_add_left (Nat.le_add_right n after) _
      window := (List.map_id _).symm ▸ List.Perm.refl _
      outside := fun _ _ => rfl }

omit [LinearOrder D] [Zero D] in
theorem Shaped.of_columns {after : Nat} (h : Shaped stat n after table) (cell : Nat → Cell D) (justify : Nat → Justify)
    (width places : Nat → Nat) :
    Shaped stat n after
      { table with cell := cell, colJustify := justify, colWidth := width, colDecimalPlaces := places } :=
  ⟨h.headerRows_eq, h.headerCols_eq, h.dataRows_eq, h.dataCols_eq,
    ⟨h.inPlace.header_pos, h.inPlace.fits, h.inPlace.window, h.inPlace.outside⟩⟩

omit [LinearOrder D] [Zero D] in
theorem Shaped.foldl {after : Nat} {α : Type} {f : Vtab D → α → Vtab D}
    (hf : ∀ t a, Shaped stat n after t → Shaped stat n after (f t a)) (h : Shaped stat n after table) (as : List α) :
    Shaped stat n after (as.foldl f table) :=
  List.foldlRecOn (motive := Shaped stat n after) as f h fun t ht a _ => hf t a ht

omit [LinearOrder D] in
theorem shaped_processTable (numPids : Nat) : Shaped stat (stat.dataRows numPids) 2 (stat.processTable numPids) := by
  have hempty := @shaped_emptyTable D stat (stat.dataRows numPids) 2
  have hlabels : ∀ t, Shaped stat (stat.dataRows numPids) 2 t →
      Shaped stat (stat.dataRows numPids) 2 (stat.setRowLabels numPids t) := by
    intro t ht
    rw [setRowLabels]
    split
    · exact Shaped.foldl (fun _ _ ht => ht.of_cell _) ht _
    · exact (ht.of_cell _).of_cell _
  exact Shaped.foldl (fun _ _ ht => ht.of_cell _)
    (Shaped.foldl (fun _ _ ht => ht.of_columns _ _ _ _) ((hlabels _ (hempty.of_cell _)).of_columns _ _ _ _) _) _

omit [LinearOrder D] in
theorem Shaped.addValue [Add D] {after : Nat} (h : Shaped stat n after table) (totalRow row col : Nat) (value : D) :
    Shaped stat n after (stat.addValue totalRow table row col value) :=
  (((h.of_cell _).of_cell _).of_cell _).of_cell _

omit [LinearOrder D] [Zero D] in
/-- Where the columns differ there are nodes, since the argument is an index. -/
theorem exists_node_of_ne (hcol : stat.sortCol ≠ stat.nodeCol) (hnodes : stat.nodeIxMap.Pairwise (· < ·)) :
    0 < stat.numNodes := by
  rw [Ne, sortCol_eq_nodeCol_iff hnodes] at hcol
  by_contra hzero
  have hnil : stat.nodeIxMap = [] := List.length_eq_zero_iff.mp (Nat.eq_zero_of_not_pos hzero)
  refine hcol (Or.inr ⟨by simp [hnil], ?_⟩)
  rw [numNodes, hnil]
  simp only [List.length_nil, Nat.cast_zero]
  omega

omit [LinearOrder D] [Zero D] in
theorem nodeCol_bounds : headerCols ≤ stat.nodeCol ∧ stat.nodeCol < headerCols + (stat.numNodes + 1) :=
  ⟨Nat.le_add_right _ _, Nat.add_lt_add_left (Nat.lt_succ_of_le List.findIdx_le_length) _⟩

omit [LinearOrder D] [Zero D] in
theorem two_le_dataRows {numPids : Nat} (hpids : 0 < numPids) : 2 ≤ stat.dataRows numPids := by
  rw [dataRows]
  split
  · exact Nat.le_add_left 2 2
  · next hsingle =>
    have hmany : numPids ≠ 1 := by
      rintro rfl
      simp [showSubCategories] at hsingle
    omega

/-- Where the columns differ, some content of the process table is displayed in the wrong order. The rule is
above the total, so no row but one reads a key from it. -/
theorem exists_not_processSorted {v : D} (hzero : v ≠ 0) (hrule : v ≠ stat.format.repcharBits '-')
    (hsort : stat.sortTable = true) (hnodes : stat.nodeIxMap.Pairwise (· < ·)) (hcol : stat.sortCol ≠ stat.nodeCol)
    {numPids : Nat} (hpids : 0 < numPids) :
    ∃ table, Shaped stat (stat.dataRows numPids) 2 table ∧ ¬stat.ProcessSorted numPids table := by
  have hempty : Shaped stat (stat.dataRows numPids) 2 (stat.emptyTable (stat.dataRows numPids) 2) :=
    shaped_emptyTable _ _
  generalize hbase : stat.emptyTable (stat.dataRows numPids) 2 = base at hempty
  have hall : base.allCols = headerCols + (stat.numNodes + 1) := by
    rw [Vtab.allCols, hempty.headerCols_eq, hempty.dataCols_eq]
  have hnode := exists_node_of_ne hcol hnodes
  have htwo := @two_le_dataRows D stat numPids hpids
  have htotal : stat.totalRowIx numPids - 1 = headerRows + stat.dataRows numPids := rfl
  have hruled : ∀ row k, base.cellIx row k ∈ base.ixs ((List.range (headerCols + stat.numNodes + 1)).map
      (stat.totalRowIx numPids - 1, ·)) →
        ∃ k', k' < base.allCols ∧ base.cellIx row k = base.cellIx (headerRows + stat.dataRows numPids) k' := by
    intro row k hmem
    obtain ⟨place, hplace, heq⟩ := List.mem_map.mp hmem
    obtain ⟨k', hk', rfl⟩ := List.mem_map.mp hplace
    rw [List.mem_range] at hk'
    exact ⟨k', by rw [hall]; omega, heq.symm⟩
  obtain ⟨cell, hcell⟩ := @Vtab.exists_not_displaysSorted D (stat.dataRows numPids) _ _ stat.format stat.screenWidth
    stat.showOptions stat.sortCol base hempty.inPlace htwo stat.nodeCol hcol
    (hempty.headerCols_eq ▸ nodeCol_bounds.1) (hall ▸ nodeCol_bounds.2)
    (by rw [hempty.dataCols_eq]; omega)
    (fun ix => ix ∈ base.ixs ((List.range (headerCols + stat.numNodes + 1)).map (stat.totalRowIx numPids - 1, ·)))
    inferInstance (.repchar '-') v hzero hrule.symm
    (fun row hrow k hk hmem => by
      obtain ⟨k', hk', heq⟩ := hruled row k hmem
      have hsame := (Vtab.cellIx_inj hk hk' heq).1
      have hlt := (List.mem_range'_1.mp hrow).2
      rw [hempty.headerRows_eq] at hlt
      omega)
    (fun hfirst hsecond => by
      obtain ⟨k, hk, heq⟩ := hruled _ _ hfirst
      obtain ⟨k', hk', heq'⟩ := hruled _ _ hsecond
      have hnext : base.cellIx (headerRows + stat.dataRows numPids + 1) k =
          base.cellIx (headerRows + stat.dataRows numPids) k' := by
        rw [← heq']
        simp only [Vtab.cellIx, Nat.succ_mul] at heq ⊢
        omega
      have hsame := (Vtab.cellIx_inj hk hk' hnext).1
      omega)
  refine ⟨_, hempty.of_cell cell, fun hsorted => ?_⟩
  rw [ProcessSorted, @displayTable_prepareTable D _ _ stat { base with cell := cell } hsort numPids
    hempty.headerRows_eq] at hsorted
  exact hcell _ _ _ hsorted

theorem exists_not_infoSorted {v : D} (hzero : v ≠ 0) (hsort : stat.sortTable = true)
    (hnodes : stat.nodeIxMap.Pairwise (· < ·)) (hcol : stat.sortCol ≠ stat.nodeCol) (hn : 2 ≤ n) :
    ∃ table, Shaped stat n 0 table ∧ ¬stat.InfoSorted n table := by
  have hempty : Shaped stat n 0 (stat.emptyTable n 0) := shaped_emptyTable _ _
  generalize hbase : stat.emptyTable n 0 = base at hempty
  have hnode := exists_node_of_ne hcol hnodes
  have hall : base.allCols = headerCols + (stat.numNodes + 1) := by
    rw [Vtab.allCols, hempty.headerCols_eq, hempty.dataCols_eq]
  obtain ⟨cell, hcell⟩ := @Vtab.exists_not_displaysSorted D n _ _ stat.format stat.screenWidth
    stat.showOptions stat.sortCol base hempty.inPlace hn stat.nodeCol hcol
    (hempty.headerCols_eq ▸ nodeCol_bounds.1) (hall ▸ nodeCol_bounds.2)
    (by rw [hempty.dataCols_eq]; omega) (fun _ => False) inferInstance .null v hzero hzero.symm
    (fun _ _ _ _ => id) (fun _ => id)
  simp only [if_false] at hcell
  refine ⟨_, hempty.of_cell cell, fun hsorted => ?_⟩
  obtain ⟨width, hwidth⟩ :=
    @exists_displayTable_prepareInfo D _ _ stat { base with cell := cell } n hsort
  rw [InfoSorted, hwidth] at hsorted
  exact hcell _ _ _ hsorted

/-- With `-s`, both kinds of table are displayed in the order asked for, whatever they contain, exactly where the
column is found; a table of one data row is so anyway. -/
theorem displays_sorted_iff (hnumber : ∃ v : D, v ≠ 0 ∧ v ≠ stat.format.repcharBits '-')
    (hsort : stat.sortTable = true) (hnodes : stat.nodeIxMap.Pairwise (· < ·)) :
    (∀ numPids, 0 < numPids →
      ((∀ table, Shaped stat (stat.dataRows numPids) 2 table → stat.ProcessSorted numPids table) ↔
        stat.FindsColumn)) ∧
      ∀ n, (∀ table, Shaped stat n 0 table → stat.InfoSorted n table) ↔ n < 2 ∨ stat.FindsColumn := by
  obtain ⟨v, hzero, hrule⟩ := hnumber
  rw [← sortCol_eq_nodeCol_iff hnodes]
  refine ⟨fun numPids hpids => ⟨fun h => ?_, fun hcol table htable => ?_⟩,
    fun n => ⟨fun h => ?_, fun h table htable => ?_⟩⟩
  · by_contra hcol
    obtain ⟨table, htable, hnot⟩ := exists_not_processSorted hzero hrule hsort hnodes hcol hpids
    exact hnot (h table htable)
  · rw [ProcessSorted, displayTable_prepareTable hsort htable.headerRows_eq]
    exact displaysSorted_nodeCol hcol (htable.inPlace.of_content _ _ _ _)
  · by_contra hnot
    rw [not_or, not_lt] at hnot
    obtain ⟨table, htable, hunsorted⟩ := exists_not_infoSorted hzero hsort hnodes hnot.2 hnot.1
    exact hunsorted (h table htable)
  · obtain ⟨width, hwidth⟩ := @exists_displayTable_prepareInfo D _ _ stat table n hsort
    have hin := htable.inPlace.of_content table.cell width table.rowFlags table.colFlags
    rw [InfoSorted, hwidth]
    obtain hlt | hcol := h
    · exact displaysSorted_of_lt_two hin hlt _
    · exact displaysSorted_nodeCol hcol hin

/-! ### The table of the files -/

section Files

variable [Add D] [Mul D] [Div D] [IntCast D] {file : SystemFile D} {nodeIx : Nat}

omit [LinearOrder D] [Zero D] [Add D] [Mul D] [Div D] [IntCast D] in
theorem Shaped.addToken {row : Nat} {token : List Char} {s s' : SystemTable D} (h : Shaped stat n 0 s.table)
    (hadd : Numastat.addToken file row token s = .ok s') : Shaped stat n 0 s'.table := by
  rw [Numastat.addToken] at hadd
  split at hadd
  · cases hadd
  · cases hadd
    exact h.of_cell _

theorem Shaped.addValueOf {tok : List (List Char)} {s s' : SystemTable D} (h : Shaped stat n 0 s.table)
    (hadd : stat.addValueOf file nodeIx tok s = .ok s') : Shaped stat n 0 s'.table := by
  rw [Numastat.addValueOf] at hadd
  split at hadd
  · cases hadd
  · cases hadd
    exact h
  · cases hadd
    exact (h.of_cell _).of_cell _

theorem Shaped.readTokens {x x' : Nat × SystemTable D} {tok : List (List Char)} (h : Shaped stat n 0 x.2.table)
    (hread : stat.readTokens file nodeIx x tok = .ok x') : Shaped stat n 0 x'.2.table := by
  rw [Numastat.readTokens] at hread
  split at hread
  · cases hread
    exact h
  · dsimp only at hread
    split at hread
    · obtain ⟨s, hs, hread⟩ := Runs.bind_eq_ok.mp hread
      obtain ⟨s', hs', hread⟩ := Runs.bind_eq_ok.mp hread
      cases hread
      exact (h.addToken hs).addValueOf hs'
    · rw [Runs.ok_bind] at hread
      obtain ⟨s', hs', hread⟩ := Runs.bind_eq_ok.mp hread
      cases hread
      exact h.addValueOf hs'

theorem Shaped.systemNode {s s' : SystemTable D} (h : Shaped stat n 0 s.table)
    (hnode : stat.systemNode file s nodeIx = .ok s') : Shaped stat n 0 s'.table := by
  have hcolumn : Shaped stat n 0 (stat.setSystemColumn file s.table nodeIx) := by
    rw [setSystemColumn]
    split
    · exact h.of_columns _ _ _ _
    · exact h.of_columns _ _ _ _
  rw [Numastat.systemNode] at hnode
  split at hnode
  · cases hnode
    exact hcolumn
  · rw [readSystemNode] at hnode
    split at hnode
    · cases hnode
    · next text _ =>
      cases hrun : (SystemFile.buffers text).foldlM (fun x buf =>
          stat.readTokens file nodeIx x (strtokWords isSystemDelimiter buf))
          (0, { s with table := stat.setSystemColumn file s.table nodeIx }) with
      | error e =>
          rw [hrun] at hnode
          cases hnode
      | ok x =>
          rw [hrun] at hnode
          cases hnode
          exact Runs.accepted_rule (I := fun x => Shaped stat n 0 x.2.table)
            (fun _ _ _ hx hstep => Shaped.readTokens hx hstep) hcolumn hrun

/-- What the files leave is a table as it is sorted. -/
theorem shaped_systemTable (hnew : file.compatibilityMode = false) {s : SystemTable D}
    (h : stat.systemTable file = .ok s) : Shaped stat s.table.dataRows 0 s.table := by
  rw [systemTable] at h
  split at h
  · cases h
  · next text _ =>
    have hheader : file.headerRows = headerRows := by rw [SystemFile.headerRows, hnew]; rfl
    have hinit : Shaped stat (SystemFile.buffers text).length 0
        (stat.initSystemTable file (SystemFile.buffers text).length) := by
      rw [initSystemTable, hheader]
      exact (shaped_emptyTable _ 0).of_columns _ _ _ _
    have hread : Shaped stat (SystemFile.buffers text).length 0 s.table :=
      Runs.accepted_rule (I := fun s => Shaped stat (SystemFile.buffers text).length 0 s.table)
        (fun _ _ _ hs hstep => Shaped.systemNode hs hstep) hinit h
    exact hread.dataRows_eq ▸ hread

/-- With `-s`, what is displayed of the files is sorted by the node asked for where its column is found. -/
theorem showInfoFromSystemFile_sorted (hsort : stat.sortTable = true) (hnodes : stat.nodeIxMap.Pairwise (· < ·))
    (hnew : file.compatibilityMode = false) (hfinds : stat.FindsColumn) {shown : List (List Char) × TableOutput D}
    (h : stat.showInfoFromSystemFile file = .ok shown) :
    ∃ n table, stat.InfoSorted n table ∧
      shown.2 = ((stat.prepareInfo n table).displayTable stat.format stat.screenWidth stat.showOptions).2 := by
  rw [showInfoFromSystemFile] at h
  cases htable : stat.systemTable file with
  | error e =>
      rw [htable] at h
      cases h
  | ok s =>
      rw [htable] at h
      cases h
      have hin := (shaped_systemTable hnew htable).inPlace
      refine ⟨s.table.dataRows, s.table, ?_, rfl⟩
      obtain ⟨width, hwidth⟩ := @exists_displayTable_prepareInfo D _ _ stat s.table s.table.dataRows hsort
      rw [InfoSorted, hwidth]
      exact displaysSorted_nodeCol ((sortCol_eq_nodeCol_iff hnodes).mpr hfinds) (hin.of_content _ _ _ _)

end Files

end Numastat

section Examples

open Numastat

/-- Two nodes, with the rows sorted by one of them. -/
def sortedBy (nodes : List Nat) (node : Int) : Numastat Int :=
  { twoNodes false true with
    verbose := false
    nodeIxMap := nodes
    sortTableNode := node }

/-- The table of a process with a heap on the second node and a larger stack on the first. -/
def heapAndStack (stat : Numastat Int) : Vtab Int :=
  stat.addValue (stat.totalRowIx 1) (stat.addValue (stat.totalRowIx 1) (stat.processTable 1) 3 2 1) 4 1 2

theorem shaped_heapAndStack (first second : Nat) (node : Int) :
    Shaped (sortedBy [first, second] node) ((sortedBy [first, second] node).dataRows 1) 2
      (heapAndStack (sortedBy [first, second] node)) :=
  ((shaped_processTable 1).addValue _ 3 2 1).addValue _ 4 1 2

theorem processSorted_dense : (sortedBy [0, 1] 1).ProcessSorted 1 (heapAndStack (sortedBy [0, 1] 1)) :=
  ((displays_sorted_iff ⟨5, by decide, by decide⟩ rfl (by decide)).1 1 Nat.one_pos).mpr (Or.inl ⟨by decide, rfl⟩) _
    (shaped_heapAndStack 0 1 1)

/-- Of the nodes 0 and 2 the last is no index, so the rows are sorted by the total. -/
theorem not_processSorted_gap : (sortedBy [0, 2] 2).nodeIxMap.Pairwise (· < ·) ∧
    Shaped (sortedBy [0, 2] 2) ((sortedBy [0, 2] 2).dataRows 1) 2 (heapAndStack (sortedBy [0, 2] 2)) ∧
      ¬(sortedBy [0, 2] 2).ProcessSorted 1 (heapAndStack (sortedBy [0, 2] 2)) := by
  have hshaped := shaped_heapAndStack 0 2 2
  refine ⟨by decide, hshaped, ?_⟩
  rw [ProcessSorted, displayTable_prepareTable rfl rfl,
    Vtab.displaysSorted_iff (Vtab.inPlace_sortedTable (hshaped.inPlace.of_content _ _ _ _)), Vtab.ColDescending]
  decide +kernel

end Examples

end Numactl
