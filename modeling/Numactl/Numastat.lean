import Mathlib.Algebra.Group.Int.Defs
import Mathlib.Data.Int.Cast.Defs
import Numactl.Base.CString
import Numactl.Base.Runs
import Numactl.Table

/-! The memory of processes by node (`show_process_info` in `numastat.c`). With `-v`, or for one process, every
process gets a table of its own, and all of them are printed from one table that is used again. -/

namespace Numactl

open CString (strtol)

/-- The options of a call, the nodes and page sizes found, and the double arithmetic of the machine. -/
structure Numastat (D : Type) where
  verbose : Bool
  showZeroData : Bool
  compressDisplay : Bool
  sortTable : Bool
  sortTableNode : Int
  screenWidth : Nat
  nodeIxMap : List Nat
  nodeHeader : List (List Char)
  pageSizeInBytes : D
  hugePageSizeInBytes : D
  format : CellFormat D

/-- A file `/proc/<PID>/numa_maps`, by the buffers `fgets` fills, and whether reading it fails in the end. -/
structure NumaMaps where
  buffers : List (List Char)
  readError : Bool

/-- A process: its number and command in a label, and its file if that can be opened. -/
structure Process where
  label : List Char
  numaMaps : Option NumaMaps

/-- What stops the program. For a node that is not in `node_ix_map` the search runs past its end. -/
inductive Stop where
  | nodeValueParseError
  | unknownNode
  | readError
  deriving DecidableEq

/-- What is printed for a process, after its title. Without tables for single processes only the last one
whose file is read prints something. -/
inductive ProcessOutput (D : Type) where
  | cantRead
  | summed
  | table (output : TableOutput D)
  | stopped (why : Stop)

/-- The tokens and labels of `process_meminfo`; the token of the last stands for all other memory. -/
def processMeminfo : List (List Char × List Char) :=
  [("huge".toList, "Huge".toList), ("heap".toList, "Heap".toList), ("stack".toList, "Stack".toList),
    ("N".toList, "Private".toList)]

def processHugeIndex : Nat := 0

def processPrivateIndex : Nat := 3

def kilobyte : Int := 1024

def megabyte : Int := 1024 * 1024

def vmPgszStr : List Char := "kernelpagesize_kB=".toList

/-- `strstr`, as the text from the place found. -/
def strstr (s pattern : List Char) : Option (List Char) := s.tails.find? pattern.isPrefixOf

/-- One word after the other, as `strtok` finds them. -/
def strtokWords (isDelimiter : Char → Bool) : List Char → List (List Char)
  | [] => []
  | c :: s =>
      if isDelimiter c then strtokWords isDelimiter s
      else
        match s with
        | [] => [[c]]
        | d :: _ =>
            match strtokWords isDelimiter s with
            | [] => [[c]]
            | w :: ws => if isDelimiter d then [c] :: w :: ws else (c :: w) :: ws

/-- The conversion of a `long` to an `int`. -/
def intOfLong (n : Int) : Int := (BitVec.ofInt 32 n).toInt

/-- The state of the loop over the words of a line. -/
structure MapsLine (D : Type) where
  table : Vtab D
  category : Nat
  vmPagesz : D

namespace Numastat

variable {D : Type} [LinearOrder D] [Zero D] [Add D] [Mul D] [Div D] [IntCast D]

def numNodes (stat : Numastat D) : Nat := stat.nodeIxMap.length

def showSubCategories (stat : Numastat D) (numPids : Nat) : Bool := stat.verbose || numPids == 1

theorem sixteen_lt : 16 < smallBufSize := by decide

theorem twentyFour_lt : 24 < smallBufSize := by decide

def headerRows : Nat := 2

def headerCols : Nat := 1

def dataRows (stat : Numastat D) (numPids : Nat) : Nat :=
  if stat.showSubCategories numPids then processMeminfo.length else numPids

def totalColIx (stat : Numastat D) : Nat := headerCols + stat.numNodes

def totalRowIx (stat : Numastat D) (numPids : Nat) : Nat := headerRows + stat.dataRows numPids + 1

/-- The header of the column of a node, or of the total. -/
def setNodeColumn (stat : Numastat D) (table : Vtab D) (nodeIx : Nat) : Vtab D :=
  let col := headerCols + nodeIx
  let decimalPlaces := if stat.compressDisplay then 0 else 2
  (((((table.stringAssign 0 col (stat.nodeHeader.getD nodeIx [])).repcharAssign 1 col '-').setColWidth col
    16).setColDecimalPlaces col decimalPlaces).setColJustification col .right)

/-- The labels of the rows, as far as they are known before the processes are gone through. -/
def setRowLabels (stat : Numastat D) (numPids : Nat) (table : Vtab D) : Vtab D :=
  if stat.showSubCategories numPids then
    (List.range processMeminfo.length).foldl
      (fun t row => t.stringAssign (headerRows + row) 0 (processMeminfo.getD row ([], [])).2) table
  else (table.stringAssign 0 0 "PID".toList).repcharAssign 1 0 '-'

/-- The table before the first process. -/
def processTable (stat : Numastat D) (numPids : Nat) : Vtab D :=
  let table := Vtab.initTable headerRows headerCols (stat.dataRows numPids + 2) (stat.numNodes + 1)
  let table := stat.setRowLabels numPids (table.stringAssign (stat.totalRowIx numPids) 0 "Total".toList)
  let table := (table.setColWidth 0 16).setColJustification 0 .left
  ((List.range (stat.numNodes + 1)).foldl stat.setNodeColumn table).zeroTableData

/-- The category of a line after a word of it. -/
def nextCategory (category : Nat) (p : List Char) : Nat :=
  if category = processPrivateIndex then
    ((processMeminfo.take processPrivateIndex).findIdx? fun entry => entry.1.isPrefixOf p).getD category
  else category

/-- Adds the value to its cell and to the three totals. -/
def addValue (stat : Numastat D) (totalRow : Nat) (table : Vtab D) (row col : Nat) (value : D) : Vtab D :=
  (((table.doubleAddto stat.format row col value).doubleAddto stat.format row stat.totalColIx value).doubleAddto
    stat.format totalRow col value).doubleAddto stat.format totalRow stat.totalColIx value

/-- One word of a line. The row of a category is `rowOf` of it. -/
def readWord (stat : Numastat D) (rowOf : Nat → Nat) (totalRow : Nat) (s : MapsLine D) (p : List Char) :
    Except Stop (MapsLine D) :=
  let category := nextCategory s.category p
  if p.head? = some 'N' then
    let nodeNum := strtol 10 p.tail
    if nodeNum.2.head? = some '=' then
      let vmPagesz :=
        if s.vmPagesz = 0 then
          if category = processHugeIndex then stat.hugePageSizeInBytes else stat.pageSizeInBytes
        else s.vmPagesz
      let value := ((strtol 10 nodeNum.2.tail).1 : D) * vmPagesz / (megabyte : D)
      match stat.nodeIxMap.findIdx? fun n : Nat => (n : Int) = intOfLong nodeNum.1 with
      | none => .error .unknownNode
      | some i =>
          .ok { table := stat.addValue totalRow s.table (rowOf category) (headerCols + i) value, category, vmPagesz }
    else .error .nodeValueParseError
  else .ok { s with category }

/-- The page size named in a line, or 0. -/
def linePagesz (D : Type) [Zero D] [Mul D] [IntCast D] (buf : List Char) : D :=
  match strstr buf vmPgszStr with
  | none => 0
  | some s => ((strtol 10 (s.drop vmPgszStr.length)).1 : D) * (kilobyte : D)

def readBuffer (stat : Numastat D) (rowOf : Nat → Nat) (totalRow : Nat) (table : Vtab D) (buf : List Char) :
    Except Stop (Vtab D) :=
  ((strtokWords (" \t\r\n".toList.contains ·) buf).foldlM (stat.readWord rowOf totalRow)
    ⟨table, processPrivateIndex, linePagesz D buf⟩).map (·.table)

/-- The numbers of a process, added to the table. -/
def readNumaMaps (stat : Numastat D) (rowOf : Nat → Nat) (totalRow : Nat) (table : Vtab D) (maps : NumaMaps) :
    Except Stop (Vtab D) :=
  (maps.buffers.foldlM (stat.readBuffer rowOf totalRow) table).bind fun table =>
    if maps.readError then .error .readError else .ok table

def setColWidths (stat : Numastat D) (table : Vtab D) : Vtab D :=
  if stat.compressDisplay then
    (List.range (headerCols + stat.numNodes + 1)).foldl
      (fun t col => t.autoSetColWidth stat.format col 4 ⟨16, sixteen_lt⟩) table
  else table.autoSetColWidth stat.format 0 16 ⟨24, twentyFour_lt⟩

/-- The dashes above the total. -/
def setRule (stat : Numastat D) (ruleRow : Nat) (table : Vtab D) : Vtab D :=
  (List.range (headerCols + stat.numNodes + 1)).foldl (fun t col => t.repcharAssign ruleRow col '-')
    (table.setRowFlag ruleRow fun f => { f with alwaysShow := true })

def sortCol (stat : Numastat D) : Nat :=
  if stat.sortTableNode < 0 ∨ (stat.numNodes : Int) ≤ stat.sortTableNode then stat.totalColIx
  else headerCols + stat.nodeIxMap.getD stat.sortTableNode.toNat 0

def sortRows (stat : Numastat D) (numPids : Nat) (table : Vtab D) : Vtab D :=
  if stat.sortTable then
    table.sortRowsDescendingByCol stat.format headerRows (headerRows + stat.dataRows numPids - 1) stat.sortCol
  else table

/-- What is done to the table before it is displayed. -/
def prepareTable (stat : Numastat D) (numPids : Nat) (table : Vtab D) : Vtab D :=
  stat.sortRows numPids (stat.setRule (stat.totalRowIx numPids - 1) (stat.setColWidths table))

/-- What `show_info_from_system_file` does to its table before it is displayed. -/
def prepareInfo (stat : Numastat D) (meminfoRows : Nat) (table : Vtab D) : Vtab D :=
  let table :=
    if stat.compressDisplay then
      (List.range (headerCols + stat.numNodes + 1)).foldl
        (fun t col => t.autoSetColWidth stat.format col 4 ⟨16, sixteen_lt⟩) table
    else table
  if stat.sortTable then
    table.sortRowsDescendingByCol stat.format table.headerRows (table.headerRows + meminfoRows - 1) stat.sortCol
  else table

def showOptions (stat : Numastat D) : ShowOptions where
  unseenRows := false
  unseenCols := false
  zeroRows := stat.showZeroData
  zeroCols := stat.showZeroData

/-- The table before the file of a process is read: zeroed again, or with the label of the process. -/
def startProcess (stat : Numastat D) (numPids pidIx : Nat) (process : Process) (table : Vtab D) : Vtab D :=
  if stat.showSubCategories numPids then if 0 < pidIx then table.zeroTableData else table
  else table.stringAssign (headerRows + pidIx) 0 process.label

/-- One process: what is printed for it, and the table for the next one. -/
def showProcess (stat : Numastat D) (numPids pidIx : Nat) (table : Vtab D) (process : Process) :
    ProcessOutput D × Option (Vtab D) :=
  let table := stat.startProcess numPids pidIx process table
  match process.numaMaps with
  | none => (.cantRead, some table)
  | some maps =>
      let rowOf category := headerRows + if stat.showSubCategories numPids then category else pidIx
      match stat.readNumaMaps rowOf (stat.totalRowIx numPids) table maps with
      | .error why => (.stopped why, none)
      | .ok table =>
          if stat.showSubCategories numPids ∨ pidIx + 1 = numPids then
            let shown := (stat.prepareTable numPids table).displayTable stat.format stat.screenWidth stat.showOptions
            (.table shown.2, some shown.1)
          else (.summed, some table)

/-- The loop over the processes from number `pidIx` on. -/
def showProcesses (stat : Numastat D) (numPids : Nat) : Nat → Vtab D → List Process → List (ProcessOutput D)
  | _, _, [] => []
  | pidIx, table, process :: processes =>
      let r := stat.showProcess numPids pidIx table process
      match r.2 with
      | none => [r.1]
      | some table => r.1 :: showProcesses stat numPids (pidIx + 1) table processes

/-- `show_process_info`: what is printed for each process until the program stops. -/
def showProcessInfo (stat : Numastat D) (processes : List Process) : List (ProcessOutput D) :=
  stat.showProcesses processes.length 0 (stat.processTable processes.length) processes

end Numastat

/-! ### Reading is adding

What reading a file does is a list of entries that no table has a part in, and each is added to a table at four
cells. -/

/-- What a word `N<node>=<pages>` stands for: a value for a category of memory and for a node. -/
@[ext] structure Entry (D : Type) where
  category : Nat
  nodeIx : Nat
  value : D
  deriving DecidableEq

/-- A value that is added to a cell. -/
structure Addition (D : Type) where
  row : Nat
  col : Nat
  value : D

namespace Vtab

variable {D : Type} [Zero D] [Add D]

def addAll (format : CellFormat D) (table : Vtab D) (adds : List (Addition D)) : Vtab D :=
  adds.foldl (fun t a => t.doubleAddto format a.row a.col a.value) table

end Vtab

namespace Numastat

variable {D : Type} {stat : Numastat D}

/-- The rows of the categories and the total, and the columns of the nodes and the total. -/
def Placed (stat : Numastat D) (rowOf : Nat → Nat) (totalRow : Nat) (a : Addition D) : Prop :=
  ((∃ category ≤ processPrivateIndex, a.row = rowOf category) ∨ a.row = totalRow) ∧
    headerCols ≤ a.col ∧ a.col ≤ stat.totalColIx

variable {rowOf : Nat → Nat} {totalRow : Nat}

theorem nextCategory_le {category : Nat} (h : category ≤ processPrivateIndex) (p : List Char) :
    nextCategory category p ≤ processPrivateIndex := by
  rw [nextCategory]
  split
  · cases hfind : (processMeminfo.take processPrivateIndex).findIdx? fun entry => entry.1.isPrefixOf p with
    | none => exact h
    | some ix =>
        have hlt := (List.findIdx?_eq_some_iff_findIdx_eq.mp hfind).1
        exact hlt.le
  · exact h

/-- The cells an entry is added to. -/
def additions (stat : Numastat D) (rowOf : Nat → Nat) (totalRow : Nat) (e : Entry D) : List (Addition D) :=
  [⟨rowOf e.category, headerCols + e.nodeIx, e.value⟩, ⟨rowOf e.category, stat.totalColIx, e.value⟩,
    ⟨totalRow, headerCols + e.nodeIx, e.value⟩, ⟨totalRow, stat.totalColIx, e.value⟩]

/-- The entry is one of a category and a node there are. -/
def Counted (stat : Numastat D) (e : Entry D) : Prop :=
  e.category ≤ processPrivateIndex ∧ e.nodeIx < stat.numNodes

theorem placed_additions {e : Entry D} (h : stat.Counted e) :
    ∀ a ∈ stat.additions rowOf totalRow e, stat.Placed rowOf totalRow a := by
  have hnode : headerCols ≤ headerCols + e.nodeIx ∧ headerCols + e.nodeIx ≤ stat.totalColIx :=
    ⟨Nat.le_add_right _ _, Nat.add_le_add_left h.2.le _⟩
  have htotal : headerCols ≤ stat.totalColIx ∧ stat.totalColIx ≤ stat.totalColIx :=
    ⟨Nat.le_add_right _ _, le_refl _⟩
  simp only [additions, List.forall_mem_cons, List.not_mem_nil, false_imp_iff, implies_true, and_true, Placed]
  exact ⟨⟨Or.inl ⟨_, h.1, rfl⟩, hnode⟩, ⟨Or.inl ⟨_, h.1, rfl⟩, htotal⟩, ⟨Or.inr trivial, hnode⟩,
    ⟨Or.inr trivial, htotal⟩⟩

theorem counted_append {es : List (Entry D)} {rest : Except Stop (List (Entry D))} {all : List (Entry D)}
    (hes : ∀ e ∈ es, stat.Counted e) (hrest : ∀ later, rest = .ok later → ∀ e ∈ later, stat.Counted e)
    (hall : rest.map (es ++ ·) = .ok all) : ∀ e ∈ all, stat.Counted e := by
  cases rest with
  | error why => cases hall
  | ok later =>
      cases hall
      exact List.forall_mem_append.mpr ⟨hes, hrest later rfl⟩

variable [LinearOrder D] [Zero D] [Add D] [Mul D] [Div D] [IntCast D]

/-- A word of a line: the entry it stands for, if it is one, and what it leaves for the words after it. -/
def wordEntry (stat : Numastat D) (category : Nat) (vmPagesz : D) (p : List Char) :
    Except Stop (Option (Entry D) × Nat × D) :=
  let category := nextCategory category p
  if p.head? = some 'N' then
    let nodeNum := strtol 10 p.tail
    if nodeNum.2.head? = some '=' then
      let vmPagesz :=
        if vmPagesz = 0 then
          if category = processHugeIndex then stat.hugePageSizeInBytes else stat.pageSizeInBytes
        else vmPagesz
      let value := ((strtol 10 nodeNum.2.tail).1 : D) * vmPagesz / (megabyte : D)
      match stat.nodeIxMap.findIdx? fun n : Nat => (n : Int) = intOfLong nodeNum.1 with
      | none => .error .unknownNode
      | some i => .ok (some ⟨category, i, value⟩, category, vmPagesz)
    else .error .nodeValueParseError
  else .ok (none, category, vmPagesz)

def wordsEntries (stat : Numastat D) : Nat → D → List (List Char) → Except Stop (List (Entry D))
  | _, _, [] => .ok []
  | category, vmPagesz, p :: words =>
      (stat.wordEntry category vmPagesz p).bind fun x =>
        (wordsEntries stat x.2.1 x.2.2 words).map (x.1.toList ++ ·)

def bufferEntries (stat : Numastat D) (buf : List Char) : Except Stop (List (Entry D)) :=
  stat.wordsEntries processPrivateIndex (linePagesz D buf) (strtokWords (" \t\r\n".toList.contains ·) buf)

def buffersEntries (stat : Numastat D) : List (List Char) → Except Stop (List (Entry D))
  | [] => .ok []
  | buf :: buffers => (stat.bufferEntries buf).bind fun es => (buffersEntries stat buffers).map (es ++ ·)

/-- The entries of a file that is read to its end. -/
def fileEntries (stat : Numastat D) (maps : NumaMaps) : Except Stop (List (Entry D)) :=
  (stat.buffersEntries maps.buffers).bind fun es => if maps.readError then .error .readError else .ok es

def addEntries (stat : Numastat D) (rowOf : Nat → Nat) (totalRow : Nat) (table : Vtab D) (es : List (Entry D)) :
    Vtab D :=
  es.foldl (fun t e => stat.addValue totalRow t (rowOf e.category) (headerCols + e.nodeIx) e.value) table

omit [LinearOrder D] [Mul D] [Div D] [IntCast D] in
theorem addEntries_eq (table : Vtab D) (es : List (Entry D)) :
    stat.addEntries rowOf totalRow table es =
      table.addAll stat.format (es.flatMap (stat.additions rowOf totalRow)) := by
  rw [addEntries, Vtab.addAll, List.foldl_flatMap]
  rfl

omit [LinearOrder D] [Mul D] [Div D] [IntCast D] in
/-- Entries before others that may not come to an end. -/
theorem map_addEntries_append (table : Vtab D) (es : List (Entry D)) (rest : Except Stop (List (Entry D))) :
    (rest.map (es ++ ·)).map (stat.addEntries rowOf totalRow table) =
      rest.map (stat.addEntries rowOf totalRow (stat.addEntries rowOf totalRow table es)) := by
  cases rest with
  | error why => rfl
  | ok later => exact congrArg Except.ok List.foldl_append

theorem readWord_eq (s : MapsLine D) (p : List Char) :
    stat.readWord rowOf totalRow s p = (stat.wordEntry s.category s.vmPagesz p).map fun x =>
      ⟨stat.addEntries rowOf totalRow s.table x.1.toList, x.2.1, x.2.2⟩ := by
  rw [readWord, wordEntry]
  dsimp only
  split
  · split
    · split
      · rfl
      · rfl
    · rfl
  · rfl

theorem foldlM_readWord (words : List (List Char)) (s : MapsLine D) :
    (words.foldlM (stat.readWord rowOf totalRow) s).map (·.table) =
      (stat.wordsEntries s.category s.vmPagesz words).map (stat.addEntries rowOf totalRow s.table) := by
  induction words generalizing s with
  | nil => rfl
  | cons p words ih =>
      rw [List.foldlM_cons, readWord_eq, wordsEntries]
      cases stat.wordEntry s.category s.vmPagesz p with
      | error why => rfl
      | ok x => exact (ih _).trans (map_addEntries_append _ _ _).symm

theorem foldlM_readBuffer (buffers : List (List Char)) (table : Vtab D) :
    buffers.foldlM (stat.readBuffer rowOf totalRow) table =
      (stat.buffersEntries buffers).map (stat.addEntries rowOf totalRow table) := by
  induction buffers generalizing table with
  | nil => rfl
  | cons buf buffers ih =>
      have hbuffer : stat.readBuffer rowOf totalRow table buf =
          (stat.bufferEntries buf).map (stat.addEntries rowOf totalRow table) := foldlM_readWord _ _
      rw [List.foldlM_cons, hbuffer, buffersEntries]
      cases stat.bufferEntries buf with
      | error why => rfl
      | ok es => exact (ih _).trans (map_addEntries_append _ _ _).symm

/-- Reading a file adds its entries to the table. -/
theorem readNumaMaps_eq (stat : Numastat D) (rowOf : Nat → Nat) (totalRow : Nat) (table : Vtab D) (maps : NumaMaps) :
    stat.readNumaMaps rowOf totalRow table maps =
      (stat.fileEntries maps).map (stat.addEntries rowOf totalRow table) := by
  rw [readNumaMaps, foldlM_readBuffer, fileEntries]
  cases stat.buffersEntries maps.buffers with
  | error why => rfl
  | ok es =>
      change (if maps.readError then Except.error Stop.readError else Except.ok _) =
        Except.map _ (if maps.readError then Except.error Stop.readError else Except.ok es)
      split
      · rfl
      · rfl

/-! ### The entries -/

omit [Add D] in
theorem counted_wordEntry {category : Nat} (hcategory : category ≤ processPrivateIndex) {vmPagesz : D} {p : List Char}
    {x : Option (Entry D) × Nat × D} (h : stat.wordEntry category vmPagesz p = .ok x) :
    (∀ e ∈ x.1.toList, stat.Counted e) ∧ x.2.1 ≤ processPrivateIndex := by
  have hnext := nextCategory_le hcategory p
  rw [wordEntry] at h
  dsimp only at h
  split at h
  · split at h
    · split at h
      · cases h
      · next i hfind =>
        cases h
        refine ⟨fun e he => ?_, hnext⟩
        obtain rfl := List.mem_singleton.mp he
        exact ⟨hnext, (List.findIdx?_eq_some_iff_findIdx_eq.mp hfind).1⟩
    · cases h
  · cases h
    exact ⟨fun e he => absurd he List.not_mem_nil, hnext⟩

omit [Add D] in
theorem counted_wordsEntries {category : Nat} (hcategory : category ≤ processPrivateIndex) {vmPagesz : D}
    {words : List (List Char)} {es : List (Entry D)} (h : stat.wordsEntries category vmPagesz words = .ok es) :
    ∀ e ∈ es, stat.Counted e := by
  induction words generalizing category vmPagesz es with
  | nil =>
      cases h
      exact fun e he => absurd he List.not_mem_nil
  | cons p words ih =>
      rw [wordsEntries] at h
      cases hword : stat.wordEntry category vmPagesz p with
      | error why =>
          rw [hword] at h
          cases h
      | ok x =>
          rw [hword] at h
          obtain ⟨hx, hnext⟩ := counted_wordEntry hcategory hword
          exact counted_append hx (fun later hlater => ih hnext hlater) h

omit [Add D] in
theorem counted_buffersEntries {buffers : List (List Char)} {es : List (Entry D)}
    (h : stat.buffersEntries buffers = .ok es) : ∀ e ∈ es, stat.Counted e := by
  induction buffers generalizing es with
  | nil =>
      cases h
      exact fun e he => absurd he List.not_mem_nil
  | cons buf buffers ih =>
      rw [buffersEntries] at h
      cases hbuf : stat.bufferEntries buf with
      | error why =>
          rw [hbuf] at h
          cases h
      | ok adds =>
          rw [hbuf] at h
          exact counted_append (counted_wordsEntries (le_refl _) hbuf) (fun later hlater => ih hlater) h

omit [Add D] in
theorem counted_fileEntries {maps : NumaMaps} {es : List (Entry D)} (h : stat.fileEntries maps = .ok es) :
    ∀ e ∈ es, stat.Counted e := by
  rw [fileEntries] at h
  cases hbuffers : stat.buffersEntries maps.buffers with
  | error why =>
      rw [hbuffers] at h
      cases h
  | ok all =>
      rw [hbuffers] at h
      change (if maps.readError then Except.error Stop.readError else Except.ok all) = Except.ok es at h
      split at h
      · cases h
      · cases h
        exact counted_buffersEntries hbuffers

/-- Reading a file adds the same to every table, or stops at the same place. -/
theorem exists_readNumaMaps (stat : Numastat D) (rowOf : Nat → Nat) (totalRow : Nat) (maps : NumaMaps) :
    ∃ r : Except Stop (List (Addition D)),
      (∀ table, stat.readNumaMaps rowOf totalRow table maps = r.map (table.addAll stat.format)) ∧
      ∀ adds, r = .ok adds → ∀ a ∈ adds, stat.Placed rowOf totalRow a := by
  refine ⟨(stat.fileEntries maps).map (List.flatMap (stat.additions rowOf totalRow)), fun table => ?_,
    fun adds h => ?_⟩
  · rw [readNumaMaps_eq]
    cases stat.fileEntries maps with
    | error why => rfl
    | ok es => exact congrArg Except.ok (addEntries_eq table es)
  · cases hfile : stat.fileEntries maps with
    | error why =>
        rw [hfile] at h
        cases h
    | ok es =>
        rw [hfile] at h
        cases h
        intro a ha
        obtain ⟨e, he, ha⟩ := List.mem_flatMap.mp ha
        exact placed_additions (counted_fileEntries hfile e he) a ha

end Numastat

end Numactl
