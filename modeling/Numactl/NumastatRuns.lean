import Numactl.NumastatTables

/-! One table for every process of a list (`show_process_info` in `numastat.c` with `-v`): what is printed for a
process is what would be printed for it alone, exactly as far as what earlier processes have left makes no
difference to its numbers. -/

namespace Numactl

namespace Numastat

variable {D : Type} [Zero D] {stat : Numastat D} {base left : Vtab D}

/-- The table of single processes before a process of a run: what it has left makes it, zeroed again, the first
table but for flags, widths and the order of the rows. -/
structure Reusable (stat : Numastat D) (base left : Vtab D) : Prop extends Leaves stat left where
  zeroed : left.zeroTableData = reusing base left
  blank : isBlank (left.cell (rulePlace base)) = true
  widths : ∀ col, ¬stat.autoSized col = true → left.colWidth col = base.colWidth col

theorem reusable_reusing (h : Fresh stat base) (hzero : base.zeroTableData = base) (hleft : Reusable stat base left) :
    Reusable stat base (reusing base left) := by
  have hplace : (reusing base left).cell (rulePlace base) = left.cell (rulePlace base) := Function.update_self _ _ _
  refine ⟨⟨hleft.rows, hleft.cols, hleft.outside, hleft.window, hleft.unsorted⟩, ?_, ?_, hleft.widths⟩
  · refine zeroTableData_eq_reusing hzero rfl h.rulePlace_notMem fun ix _ hne => ?_
    exact Function.update_of_ne hne _ _
  · rw [hplace]
    exact hleft.blank

theorem reusable_base (h : Fresh stat base) (hzero : base.zeroTableData = base) : Reusable stat base base := by
  refine ⟨h.untouched.leaves stat, ?_, ?_, fun _ _ => rfl⟩
  · exact zeroTableData_eq_reusing hzero rfl h.rulePlace_notMem fun _ _ _ => rfl
  · have hrule : base.cell (rulePlace base) = .null := h.rule
    rw [hrule]
    rfl

variable [Add D] {adds : List (Addition D)}

/-- Additions change cells of the data area only, and leave data there. -/
theorem addAll_cells (h : Fresh stat base)
    (hplaced : ∀ a ∈ adds, stat.Placed (headerRows + ·) (ruleRow + 1) a) :
    base.addAll stat.format adds = { base with cell := (base.addAll stat.format adds).cell } ∧
      (∀ ix, ix ∉ base.ixs base.dataPlaces → (base.addAll stat.format adds).cell ix = base.cell ix) ∧
      ∀ ix, (base.cell ix).isData = true → ((base.addAll stat.format adds).cell ix).isData = true := by
  induction adds generalizing base with
  | nil => exact ⟨rfl, fun _ _ => rfl, fun _ h => h⟩
  | cons a adds ih =>
      obtain ⟨hrow, hcol, hle⟩ := hplaced a List.mem_cons_self
      obtain ⟨hframe, hcells, hdata⟩ := ih (h.doubleAddto a.row hcol hle a.value) fun b hb =>
        hplaced b (List.mem_cons_of_mem a hb)
      have hplace : base.cellIx a.row a.col ∈ base.ixs base.dataPlaces := by
        refine List.mem_map.mpr ⟨(a.row, a.col), Vtab.mem_dataPlaces.mpr ?_, rfl⟩
        rw [h.allRows_eq, h.allCols_eq, h.headerRows_eq, h.headerCols_eq]
        refine ⟨?_, hcol, Nat.lt_succ_of_le hle⟩
        obtain ⟨category, hcategory, hrow⟩ | hrow := hrow
        · rw [hrow]
          simp only [headerRows, processPrivateIndex] at hcategory ⊢
          omega
        · rw [hrow]
          exact (by decide : headerRows ≤ ruleRow + 1 ∧ ruleRow + 1 < 8)
      refine ⟨hframe, fun ix hix => ?_, fun ix hix => hdata ix ?_⟩
      · refine (hcells ix hix).trans (Function.update_of_ne ?_ _ _)
        rintro rfl
        exact hix hplace
      · change (Function.update base.cell (base.cellIx a.row a.col) _ ix).isData = true
        by_cases heq : ix = base.cellIx a.row a.col
        · rw [heq, Function.update_self]
          rfl
        · rw [Function.update_of_ne heq]
          exact hix

theorem ruleIxs_addAll (h : Fresh stat base) (hplaced : ∀ a ∈ adds, stat.Placed (headerRows + ·) (ruleRow + 1) a) :
    stat.ruleIxs (base.addAll stat.format adds) = stat.ruleIxs base := by
  rw [(addAll_cells h hplaced).1]
  rfl

/-- The table of a process alone, before its rows are sorted. -/
def ownNumbers (stat : Numastat D) (base : Vtab D) (adds : List (Addition D)) : Vtab D :=
  stat.ready (base.addAll stat.format adds)

theorem getCell_ownNumbers (h : Fresh stat base)
    (hplaced : ∀ a ∈ adds, stat.Placed (headerRows + ·) (ruleRow + 1) a) (row col : Nat) :
    (stat.ownNumbers base adds).getCell row col =
      if base.cellIx row col ∈ stat.ruleIxs base then .repchar '-'
      else (base.addAll stat.format adds).cell (base.cellIx row col) := by
  rw [ownNumbers, ready_eq, ruleIxs_addAll h hplaced, (addAll_cells h hplaced).1]
  rfl

theorem numbers_ownNumbers (h : Fresh stat base) (hzero : base.zeroTableData = base)
    (hwidths : ∀ col, col ≤ stat.totalColIx → base.colWidth col = 16)
    (hplaced : ∀ a ∈ adds, stat.Placed (headerRows + ·) (ruleRow + 1) a) :
    Numbers stat (stat.ownNumbers base adds) := by
  have hown := h.addAll hplaced
  constructor
  · rw [ownNumbers, ready_eq]
    exact hown.headerRows_eq
  · rw [ownNumbers, ready_eq]
    exact hown.headerCols_eq
  · rw [ownNumbers, ready_eq]
    exact hown.dataRows_eq
  · rw [ownNumbers, ready_eq]
    exact hown.dataCols_eq
  · intro row col hrow htotal hrule hcol hle
    have hplace : base.cellIx row col ∈ base.ixs base.dataPlaces := by
      refine List.mem_map.mpr ⟨(row, col), Vtab.mem_dataPlaces.mpr ?_, rfl⟩
      rw [h.allRows_eq, h.allCols_eq, h.headerRows_eq, h.headerCols_eq]
      refine ⟨⟨hrow, ?_⟩, hcol, Nat.lt_succ_of_le hle⟩
      exact htotal.trans_lt (by decide)
    have hzeroed : (base.cell (base.cellIx row col)).isData = true := by
      rw [cell_of_zeroed hzero hplace]
      rfl
    rw [getCell_ownNumbers h hplaced, if_neg (mt (cellIx_mem_ruleIxs_iff h hle).mp hrule)]
    exact (addAll_cells h hplaced).2.2 _ hzeroed
  · intro col hle
    rw [getCell_ownNumbers h hplaced, if_pos ((cellIx_mem_ruleIxs_iff h hle).mpr rfl)]
  · intro col hle
    rw [ownNumbers, ready_eq]
    dsimp only
    split
    · exact autoWidth_bounds _ col
    · rw [(addAll_cells h hplaced).1, hwidths col hle, smallBufSize]
      omega

variable [LinearOrder D]

/-- The table of a process that has been displayed can be used for the next one. -/
theorem reusable_marked (h : Fresh stat base) (hzero : base.zeroTableData = base)
    (hplaced : ∀ a ∈ adds, stat.Placed (headerRows + ·) (ruleRow + 1) a) (hleft : Leaves stat left) :
    Reusable stat base (stat.marked (stat.ownNumbers base adds) left) := by
  have hcells := addAll_cells h hplaced
  have hcell : (stat.marked (stat.ownNumbers base adds) left).cell = fun ix =>
      if ix ∈ stat.ruleIxs base then .repchar '-' else (base.addAll stat.format adds).cell ix := by
    rw [marked_eq, ownNumbers, ready_eq, ruleIxs_addAll h hplaced]
  constructor
  · constructor
    · intro row hrow
      rw [marked_eq]
      simp only [Vtab.markFlags, Function.update_of_ne hrow]
      exact hleft.rows row hrow
    · intro col
      rw [marked_eq]
      exact hleft.cols col
    · intro k hk
      rw [marked_eq]
      exact sortedMap_outside hleft hk
    · rw [marked_eq]
      exact window_sortedMap hleft
    · intro hsort
      rw [marked_eq]
      simp only [sortedMap, hsort, Bool.false_eq_true, if_false]
      exact hleft.unsorted hsort
  · refine zeroTableData_eq_reusing hzero ?_ h.rulePlace_notMem fun ix hix hne => ?_
    · rw [marked_eq, ownNumbers, ready_eq, hcells.1]
    · have hrule : ix ∉ stat.ruleIxs base := fun hmem => (mem_data_of_mem_ruleIxs h hmem).elim hne hix
      rw [hcell]
      dsimp only
      rw [if_neg hrule]
      exact hcells.2.1 ix hix
  · rw [hcell]
    dsimp only
    rw [if_pos rulePlace_mem_ruleIxs]
    rfl
  · intro col hauto
    rw [marked_eq, ownNumbers, ready_eq, hcells.1]
    exact if_neg hauto

/-! ### The run -/

variable [Mul D] [Div D] [IntCast D]

/-- What is printed for a process and left for the next one, in terms of its own numbers. -/
theorem showProcess_eq (hverbose : stat.verbose = true) (h : Fresh stat base) (hzero : base.zeroTableData = base)
    {numPids pidIx : Nat} (hleft : Reusable stat base left) (hstart : pidIx = 0 → left = base) (process : Process) :
    stat.showProcess numPids pidIx left process =
      match process.numaMaps with
      | none => (.cantRead, some (reusing base left))
      | some maps =>
          match stat.readNumaMaps (headerRows + ·) (ruleRow + 1) base maps with
          | .error why => (.stopped why, none)
          | .ok table =>
              let own := stat.ready table
              (.table ((stat.displayed own left).displayTable stat.format stat.screenWidth stat.showOptions).2,
                some (stat.marked own left)) := by
  have hbegin : stat.startProcess numPids pidIx process left = reusing base left := by
    rw [startProcess, showSubCategories_verbose hverbose, if_pos rfl]
    split
    · exact hleft.zeroed
    · next hpid =>
      rw [hstart (Nat.eq_zero_of_not_pos hpid), ← (reusable_base h hzero).zeroed, hzero]
  rw [showProcess, hbegin]
  cases process.numaMaps with
  | none => rfl
  | some maps =>
      obtain ⟨r, hread, hplaced⟩ := exists_readNumaMaps stat (headerRows + ·) (ruleRow + 1) maps
      dsimp only
      rw [showSubCategories_verbose hverbose, totalRowIx_verbose hverbose]
      simp only [if_true, hread]
      cases r with
      | error why => rfl
      | ok adds =>
          have hadds := hplaced adds rfl
          dsimp only [Except.map]
          have hframe := (addAll_cells h hadds).1
          have hblank : isBlank (left.cell (rulePlace (base.addAll stat.format adds))) = true := by
            rw [hframe]
            exact hleft.blank
          have hwidths : ∀ col, ¬stat.autoSized col = true →
              left.colWidth col = (base.addAll stat.format adds).colWidth col := by
            intro col hauto
            rw [hframe]
            exact hleft.widths col hauto
          rw [addAll_reusing h hadds, if_pos (Or.inl trivial),
            prepareTable_reusing hverbose (h.addAll hadds) hblank hwidths, Vtab.displayTable_fst]
          rfl

/-- The table left by some processes, if the program has not stopped at one of them. -/
def leftBy (stat : Numastat D) (numPids : Nat) : Nat → Vtab D → List Process → Option (Vtab D)
  | _, table, [] => some table
  | pidIx, table, process :: processes =>
      (stat.showProcess numPids pidIx table process).2.bind fun table =>
        leftBy stat numPids (pidIx + 1) table processes

/-- What is printed for a process depends on the others by the table left by those before it. -/
theorem getElem?_showProcesses (numPids pidIx : Nat) (table : Vtab D) (pre post : List Process) (process : Process) :
    (stat.showProcesses numPids pidIx table (pre ++ process :: post))[pre.length]? =
      (stat.leftBy numPids pidIx table pre).map fun left =>
        (stat.showProcess numPids (pidIx + pre.length) left process).1 := by
  induction pre generalizing pidIx table with
  | nil =>
      rw [List.nil_append, showProcesses]
      cases (stat.showProcess numPids pidIx table process).2 with
      | none => rfl
      | some next => rfl
  | cons first pre ih =>
      rw [List.cons_append, showProcesses, leftBy, List.length_cons]
      cases (stat.showProcess numPids pidIx table first).2 with
      | none => rfl
      | some next =>
          dsimp only [Option.bind_some]
          rw [List.getElem?_cons_succ, ih, Nat.add_assoc, Nat.add_comm 1]

theorem showProcessInfo_singleton (process : Process) :
    stat.showProcessInfo [process] = [(stat.showProcess 1 0 (stat.processTable 1) process).1] := by
  rw [showProcessInfo, List.length_singleton, showProcesses]
  cases (stat.showProcess 1 0 (stat.processTable 1) process).2 with
  | none => rfl
  | some next => rfl

theorem reusable_showProcess (hverbose : stat.verbose = true) (h : Fresh stat base) (hzero : base.zeroTableData = base)
    {numPids pidIx : Nat} (hleft : Reusable stat base left) (hstart : pidIx = 0 → left = base) {process : Process}
    {next : Vtab D} (hnext : (stat.showProcess numPids pidIx left process).2 = some next) :
    Reusable stat base next := by
  rw [showProcess_eq hverbose h hzero hleft hstart] at hnext
  cases hmaps : process.numaMaps with
  | none =>
      rw [hmaps] at hnext
      cases hnext
      exact reusable_reusing h hzero hleft
  | some maps =>
      obtain ⟨r, hread, hplaced⟩ := exists_readNumaMaps stat (headerRows + ·) (ruleRow + 1) maps
      rw [hmaps] at hnext
      dsimp only at hnext
      rw [hread] at hnext
      cases r with
      | error why => cases hnext
      | ok adds =>
          cases hnext
          exact reusable_marked h hzero (hplaced adds rfl) hleft.toLeaves

/-- Every run leaves a table that can be used again, and the first one if it has no process. -/
theorem reusable_leftBy (hverbose : stat.verbose = true) (h : Fresh stat base) (hzero : base.zeroTableData = base)
    {numPids pidIx : Nat} {table : Vtab D} (htable : Reusable stat base table) (hstart : pidIx = 0 → table = base)
    {processes : List Process} (hleft : stat.leftBy numPids pidIx table processes = some left) :
    Reusable stat base left ∧ (pidIx + processes.length = 0 → left = base) := by
  induction processes generalizing pidIx table with
  | nil =>
      cases hleft
      exact ⟨htable, hstart⟩
  | cons process processes ih =>
      rw [leftBy, Option.bind_eq_some_iff] at hleft
      obtain ⟨next, hnext, hleft⟩ := hleft
      have hrun := ih (reusable_showProcess hverbose h hzero htable hstart hnext) (fun hpid => by omega) hleft
      exact ⟨hrun.1, fun hlen => by rw [List.length_cons] at hlen; omega⟩

/-- The table of a process alone, before its rows are sorted. -/
def ownTable (stat : Numastat D) (maps : NumaMaps) : Except Stop (Vtab D) :=
  (stat.readNumaMaps (headerRows + ·) (ruleRow + 1) (stat.processTable 1) maps).map stat.ready

/-- What earlier processes have left makes no difference to the table of a process, if it gets one. -/
def Meets (stat : Numastat D) (left : Vtab D) (process : Process) : Prop :=
  ∀ maps own, process.numaMaps = some maps → stat.ownTable maps = .ok own → Unaffected stat own left

theorem meets_of_none {process : Process} (hmaps : process.numaMaps = none) : stat.Meets left process := by
  intro maps own hsome
  rw [hmaps] at hsome
  cases hsome

theorem meets_of_error {process : Process} {maps : NumaMaps} {why : Stop} (hmaps : process.numaMaps = some maps)
    (htable : stat.ownTable maps = .error why) : stat.Meets left process := by
  intro maps' own hsome hown
  rw [hmaps] at hsome
  cases hsome
  rw [htable] at hown
  cases hown

theorem meets_iff {process : Process} {maps : NumaMaps} {own : Vtab D} (hmaps : process.numaMaps = some maps)
    (htable : stat.ownTable maps = .ok own) : stat.Meets left process ↔ Unaffected stat own left := by
  refine ⟨fun h => h maps own hmaps htable, fun h maps' own' hsome hown => ?_⟩
  rw [hmaps] at hsome
  cases hsome
  rw [htable] at hown
  cases hown
  exact h

instance (left : Vtab D) (process : Process) : Decidable (stat.Meets left process) :=
  match hmaps : process.numaMaps with
  | none => .isTrue (meets_of_none hmaps)
  | some maps =>
      match htable : stat.ownTable maps with
      | .error _ => .isTrue (meets_of_error hmaps htable)
      | .ok own => decidable_of_iff (Unaffected stat own left) (meets_iff hmaps htable).symm

theorem ownTable_eq {maps : NumaMaps} {r : Except Stop (List (Addition D))}
    (hread : ∀ table, stat.readNumaMaps (headerRows + ·) (ruleRow + 1) table maps = r.map (table.addAll stat.format)) :
    stat.ownTable maps = r.map (stat.ownNumbers (stat.processTable 1)) := by
  rw [ownTable, hread]
  cases r with
  | error why => rfl
  | ok adds => rfl

theorem numbers_of_ownTable (hverbose : stat.verbose = true) {maps : NumaMaps} {own : Vtab D}
    (hown : stat.ownTable maps = .ok own) : Numbers stat own := by
  obtain ⟨r, hread, hplaced⟩ := exists_readNumaMaps stat (headerRows + ·) (ruleRow + 1) maps
  rw [ownTable_eq hread] at hown
  cases r with
  | error why => cases hown
  | ok adds =>
      cases hown
      exact numbers_ownNumbers (fresh_processTable hverbose) zeroTableData_processTable
        (fun _ hle => colWidth_processTable hle) (hplaced adds rfl)

/-- What is printed for a process depends on its own table and on what it finds. -/
theorem showProcess_fst (hverbose : stat.verbose = true) {numPids pidIx : Nat}
    (hleft : Reusable stat (stat.processTable 1) left) (hstart : pidIx = 0 → left = stat.processTable 1)
    {process : Process} {maps : NumaMaps} (hmaps : process.numaMaps = some maps) :
    (stat.showProcess numPids pidIx left process).1 =
      match stat.ownTable maps with
      | .error why => .stopped why
      | .ok own =>
          .table ((stat.displayed own left).displayTable stat.format stat.screenWidth stat.showOptions).2 := by
  obtain ⟨r, hread, hplaced⟩ := exists_readNumaMaps stat (headerRows + ·) (ruleRow + 1) maps
  rw [showProcess_eq hverbose (fresh_processTable hverbose) zeroTableData_processTable hleft hstart, hmaps,
    ownTable_eq hread]
  dsimp only
  rw [hread]
  cases r with
  | error why => rfl
  | ok adds => rfl

section Alone

variable (hverbose : stat.verbose = true) {numPids pidIx : Nat} (hleft : Reusable stat (stat.processTable 1) left)
  (hstart : pidIx = 0 → left = stat.processTable 1) {process : Process}

include hverbose hleft hstart

/-- A process is shown as it would be alone where earlier ones make no difference. -/
theorem showProcess_of_meets (hmeets : stat.Meets left process) :
    (stat.showProcess numPids pidIx left process).1 = (stat.showProcess 1 0 (stat.processTable 1) process).1 := by
  have h : Fresh stat (stat.processTable 1) := fresh_processTable hverbose
  have hbase := reusable_base h zeroTableData_processTable
  cases hmaps : process.numaMaps with
  | none =>
      rw [showProcess_eq hverbose h zeroTableData_processTable hleft hstart,
        showProcess_eq hverbose h zeroTableData_processTable hbase fun _ => rfl, hmaps]
  | some maps =>
      rw [showProcess_fst hverbose hleft hstart hmaps, showProcess_fst hverbose hbase (fun _ => rfl) hmaps]
      cases hown : stat.ownTable maps with
      | error why => rfl
      | ok own =>
          have hguard := hmeets maps own hmaps hown
          exact congrArg ProcessOutput.table
            (displayTable_of_unaffected (numbers_of_ownTable hverbose hown) hleft.toLeaves h.untouched hguard)

variable (hsame : (stat.showProcess numPids pidIx left process).1 =
  (stat.showProcess 1 0 (stat.processTable 1) process).1)

include hsame

theorem displayTable_of_showProcess {maps : NumaMaps} {own : Vtab D} (hmaps : process.numaMaps = some maps)
    (hown : stat.ownTable maps = .ok own) :
    ((stat.displayed own left).displayTable stat.format stat.screenWidth stat.showOptions).2 =
      ((stat.displayed own (stat.processTable 1)).displayTable stat.format stat.screenWidth stat.showOptions).2 := by
  have hbase := reusable_base (fresh_processTable hverbose) (@zeroTableData_processTable D stat 1 _)
  rw [showProcess_fst hverbose hleft hstart hmaps, showProcess_fst hverbose hbase (fun _ => rfl) hmaps, hown] at hsame
  exact ProcessOutput.table.inj hsame

/-- Without sorting, it is shown as it would be alone only there. -/
theorem meets_of_showProcess (hsort : stat.sortTable = false) : stat.Meets left process := by
  intro maps own hmaps hown
  have h : Fresh stat (stat.processTable 1) := fresh_processTable hverbose
  have htables := displayTable_of_showProcess hverbose hleft hstart hsame hmaps hown
  exact unaffected_of_displayTable (numbers_of_ownTable hverbose hown) hleft.toLeaves h.untouched hsort htables

/-- If anything is shown, the rows are in the order they would have alone. -/
theorem rowsShown_of_showProcess {maps : NumaMaps} {own : Vtab D} (hmaps : process.numaMaps = some maps)
    (hown : stat.ownTable maps = .ok own) (hsome : ¬(someNonZero own = false ∧ stat.showZeroData = false)) :
    stat.rowsShown own left = stat.rowsShown own (stat.processTable 1) := by
  have h : Fresh stat (stat.processTable 1) := fresh_processTable hverbose
  have htables := displayTable_of_showProcess hverbose hleft hstart hsame hmaps hown
  exact rowsShown_of_displayTable (numbers_of_ownTable hverbose hown) hleft.toLeaves h.untouched hsome htables

end Alone

/-- Everything that is printed for a process would be printed for it alone. -/
def AsAlone (stat : Numastat D) (processes : List Process) : Prop :=
  ∀ pre process post, processes = pre ++ process :: post →
    ∀ output, (stat.showProcessInfo processes)[pre.length]? = some output → stat.showProcessInfo [process] = [output]

/-- What each process finds of earlier ones makes no difference to its table. -/
def StepsUnaffected (stat : Numastat D) (processes : List Process) : Prop :=
  ∀ pre process post, processes = pre ++ process :: post →
    ∀ left, stat.leftBy processes.length 0 (stat.processTable processes.length) pre = some left →
      stat.Meets left process

/-- What is printed for a process of a run, and the table it finds. -/
theorem getElem?_showProcessInfo {processes pre post : List Process} {process : Process}
    (hsplit : processes = pre ++ process :: post) :
    (stat.showProcessInfo processes)[pre.length]? =
      (stat.leftBy processes.length 0 (stat.processTable processes.length) pre).map fun left =>
        (stat.showProcess processes.length pre.length left process).1 := by
  subst hsplit
  rw [showProcessInfo, getElem?_showProcesses, Nat.zero_add]

/-- A process of a run finds a table that can be used again. -/
theorem reusable_of_leftBy (hverbose : stat.verbose = true) {numPids : Nat} {pre : List Process}
    (hleft : stat.leftBy numPids 0 (stat.processTable numPids) pre = some left) :
    Reusable stat (stat.processTable 1) left ∧ (pre.length = 0 → left = stat.processTable 1) := by
  have h : Fresh stat (stat.processTable 1) := fresh_processTable hverbose
  have hbase := reusable_base h zeroTableData_processTable
  rw [processTable_verbose hverbose] at hleft
  have hrun := reusable_leftBy hverbose h zeroTableData_processTable hbase (fun _ => rfl) hleft
  rw [Nat.zero_add] at hrun
  exact hrun

theorem asAlone_of_unaffected (hverbose : stat.verbose = true) {processes : List Process}
    (hsteps : stat.StepsUnaffected processes) : stat.AsAlone processes := by
  intro pre process post hsplit output houtput
  rw [getElem?_showProcessInfo hsplit, Option.map_eq_some_iff] at houtput
  obtain ⟨left, hleft, rfl⟩ := houtput
  obtain ⟨hreusable, hstart⟩ := reusable_of_leftBy hverbose hleft
  have hmeets := hsteps pre process post hsplit left hleft
  rw [showProcessInfo_singleton, showProcess_of_meets hverbose hreusable hstart hmeets]

theorem showProcess_of_asAlone {processes : List Process} (halone : stat.AsAlone processes) {pre post : List Process}
    {process : Process} (hsplit : processes = pre ++ process :: post)
    (hleft : stat.leftBy processes.length 0 (stat.processTable processes.length) pre = some left) :
    (stat.showProcess processes.length pre.length left process).1 =
      (stat.showProcess 1 0 (stat.processTable 1) process).1 := by
  have houtput := @getElem?_showProcessInfo D _ stat _ _ _ _ _ processes pre post process hsplit
  rw [hleft, Option.map_some] at houtput
  have hsame := halone pre process post hsplit _ houtput
  rw [showProcessInfo_singleton, List.singleton_inj] at hsame
  exact hsame.symm

theorem unaffected_of_asAlone (hverbose : stat.verbose = true) (hsort : stat.sortTable = false)
    {processes : List Process} (halone : stat.AsAlone processes) : stat.StepsUnaffected processes := by
  intro pre process post hsplit left hleft
  obtain ⟨hreusable, hstart⟩ := reusable_of_leftBy hverbose hleft
  exact meets_of_showProcess hverbose hreusable hstart (showProcess_of_asAlone halone hsplit hleft) hsort

theorem rowsShown_of_asAlone (hverbose : stat.verbose = true) {first second : Process}
    (halone : stat.AsAlone [first, second]) (hleft : stat.leftBy 2 0 (stat.processTable 2) [first] = some left)
    {maps : NumaMaps} {own : Vtab D} (hmaps : second.numaMaps = some maps) (hown : stat.ownTable maps = .ok own)
    (hsome : ¬(someNonZero own = false ∧ stat.showZeroData = false)) :
    stat.rowsShown own left = stat.rowsShown own (stat.processTable 1) := by
  obtain ⟨hreusable, hstart⟩ := reusable_of_leftBy hverbose hleft
  have hsame := @showProcess_of_asAlone D _ stat left _ _ _ _ _ [first, second] halone [first] [] second rfl hleft
  exact rowsShown_of_showProcess hverbose hreusable hstart hsame hmaps hown hsome

end Numastat

section TwoNodes

open Numastat

/-- Two nodes and pages of 4096 bytes, with numbers that are whole. -/
def twoNodes (showZeroData sortTable : Bool) : Numastat Int where
  verbose := true
  showZeroData := showZeroData
  compressDisplay := false
  sortTable := sortTable
  sortTableNode := -1
  screenWidth := 80
  nodeIxMap := [0, 1]
  nodeHeader := ["Node 0".toList, "Node 1".toList, "Total".toList]
  pageSizeInBytes := 4096
  hugePageSizeInBytes := 2048 * 1024
  format :=
    { text := fun places d => (toString d).toList ++ if places = 0 then [] else '.' :: List.replicate places '0'
      stringBits := fun _ => 0
      repcharBits := fun _ => 0 }

/-- The process 1 with a file of one line, or of none. -/
def processOf (line : String) : Process where
  label := "1 (sh)".toList
  numaMaps := some ⟨if line.isEmpty then [] else [line.toList], false⟩

theorem not_asAlone_of_meets {stat : Numastat Int} (hverbose : stat.verbose = true) (hsort : stat.sortTable = false)
    {first second : Process}
    (h : ((stat.leftBy 2 0 (stat.processTable 2) [first]).any fun left => !decide (stat.Meets left second)) = true) :
    ¬stat.AsAlone [first, second] := by
  intro halone
  obtain ⟨left, hleft, hnot⟩ := (Option.any_eq_true _ _).mp h
  have hmeets := unaffected_of_asAlone hverbose hsort halone [first] second [] rfl left hleft
  rw [Bool.not_eq_true', decide_eq_false_iff_not] at hnot
  exact hnot hmeets

theorem not_asAlone_of_rowsShown {stat : Numastat Int} (hverbose : stat.verbose = true) {first second : Process}
    {maps : NumaMaps} (hmaps : second.numaMaps = some maps)
    (h : ((stat.leftBy 2 0 (stat.processTable 2) [first]).any fun left => (stat.ownTable maps).toOption.any fun own =>
      decide (¬(someNonZero own = false ∧ stat.showZeroData = false) ∧
        stat.rowsShown own left ≠ stat.rowsShown own (stat.processTable 1))) = true) :
    ¬stat.AsAlone [first, second] := by
  intro halone
  obtain ⟨left, hleft, hany⟩ := (Option.any_eq_true _ _).mp h
  cases hown : stat.ownTable maps with
  | error why =>
      rw [hown] at hany
      cases hany
  | ok own =>
      rw [hown] at hany
      obtain ⟨hsome, hne⟩ := of_decide_eq_true hany
      exact hne (rowsShown_of_asAlone hverbose halone hleft hmaps hown hsome)

end TwoNodes

end Numactl
