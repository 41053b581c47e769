import Numactl.MapsLines
import Numactl.TokenHash

/-! The files of the nodes (`show_info_from_system_file` in `numastat.c`). The rows of the table are those of the
first node's file, found again by their tokens in a hash table, and the values of every file go into the column of
its node and are added to the column of the total. A file is the same whenever it is read. -/

namespace Numactl

open CString (strtol)

/-! ### The table -/

/-- The arguments `file` and `tok_offset`, with `compatibility_mode`, the text of the file for every node unless it
cannot be opened, and what `update_hugepages_info` finds. -/
structure SystemFile (D : Type) where
  file : List Char
  tokOffset : Nat
  compatibilityMode : Bool
  text : Nat → Option (List Char)
  updateHugepagesInfo : Nat → List Char → D

/-- The file of a node cannot be opened, or the hash table is full and a search in it does not end. -/
inductive SystemStop where
  | cannotOpen (node : Nat)
  | fullHashTable
  deriving DecidableEq

/-- The table, the hash table, and the messages printed so far. -/
structure SystemTable (D : Type) where
  table : Vtab D
  hashTable : TokenTable
  messages : List (List Char)

def isSystemDelimiter (c : Char) : Bool := " \t\r\n:".toList.contains c

/-- The first letter and the letters after `_` are made capitals. -/
def capitalize : Bool → List Char → List Char
  | _, [] => []
  | first, c :: s => (if first then c.toUpper else c) :: capitalize (c = '_') s

namespace SystemFile

variable {D : Type} (file : SystemFile D)

def headerRows : Nat := if file.compatibilityMode then 1 else 2

/-- The label of the row of a token. -/
def label (token : List Char) : List Char :=
  if file.compatibilityMode ∨ "meminfo".toList.isPrefixOf file.file then token else capitalize true token

/-- What the calls of `fgets` read. -/
def buffers (text : List Char) : List (List Char) := LineBuffer.buffers '\n' (smallBufSize - 1) text

end SystemFile

namespace Numastat

variable {D : Type} [LinearOrder D] [Zero D] [Add D] [Mul D] [Div D] [IntCast D]

section

variable (stat : Numastat D) (file : SystemFile D)

/-- The header of a column, its width and justification. -/
def setSystemColumn (table : Vtab D) (nodeIx : Nat) : Vtab D :=
  let col := headerCols + nodeIx
  let table := table.stringAssign 0 col (stat.nodeHeader.getD nodeIx [])
  let table :=
    if file.compatibilityMode then table
    else (table.repcharAssign 1 col '-').setColDecimalPlaces col (if stat.compressDisplay then 0 else 2)
  (table.setColWidth col 16).setColJustification col .right

/-- A token that is not there is taken for an empty one. -/
def systemValue (nodeIx : Nat) (tok : List (List Char)) : D :=
  let value : D := ((strtol 10 (tok.getD (1 + file.tokOffset) [])).1 : D)
  if file.compatibilityMode then value
  else
    let scaled :=
      if tok.length < 4 then value * stat.pageSizeInBytes
      else if "HugePages".toList.isPrefixOf (tok.getD 2 []) then
        let new := file.updateHugepagesInfo (stat.nodeIxMap.getD nodeIx 0) (tok.getD 2 [])
        if 0 < new then new else value * stat.hugePageSizeInBytes
      else if "kB".toList.isPrefixOf (tok.getD 4 []) then value * (kilobyte : D)
      else value
    scaled / (megabyte : D)

/-- The first node's file: a row for the token. -/
def addToken (row : Nat) (token : List Char) (s : SystemTable D) : Except SystemStop (SystemTable D) :=
  match hashInsert s.hashTable token row with
  | none => .error .fullHashTable
  | some hashTable =>
      .ok { s with hashTable, table := s.table.stringAssign (file.headerRows + row) 0 (file.label token) }

/-- The value of a token, assigned in the column of the node and added in that of the total. -/
def storeValue (nodeIx index : Nat) (value : D) (table : Vtab D) : Vtab D :=
  (table.setCell (file.headerRows + index) (headerCols + nodeIx) (.double value)).doubleAddto stat.format
    (file.headerRows + index) stat.totalColIx value

def addValueOf (nodeIx : Nat) (tok : List (List Char)) (s : SystemTable D) : Except SystemStop (SystemTable D) :=
  let token := tok.getD file.tokOffset []
  match hashLookup s.hashTable token with
  | none => .error .fullHashTable
  | some none => .ok { s with messages := s.messages ++ ["Token ".toList ++ token ++ " not in hash table.\n".toList] }
  | some (some index) =>
      .ok { s with table := stat.storeValue file nodeIx index (stat.systemValue file nodeIx tok) s.table }

/-- The tokens of a line, with the number of the lines before it that are not blank. -/
def readTokens (nodeIx : Nat) (x : Nat × SystemTable D) (tok : List (List Char)) :
    Except SystemStop (Nat × SystemTable D) :=
  if tok = [] then .ok x
  else do
    let s ← if nodeIx = 0 then addToken file x.1 (tok.getD file.tokOffset []) x.2 else .ok x.2
    let s ← stat.addValueOf file nodeIx tok s
    return (x.1 + 1, s)

def readSystemNode (nodeIx : Nat) (s : SystemTable D) : Except SystemStop (SystemTable D) :=
  let node := stat.nodeIxMap.getD nodeIx 0
  match file.text node with
  | none => .error (.cannotOpen node)
  | some text =>
      ((SystemFile.buffers text).foldlM
        (fun x buf => stat.readTokens file nodeIx x (strtokWords isSystemDelimiter buf)) (0, s)).map (·.2)

/-- One iteration of the loop over the nodes. The one after the last node is for the header of the total. -/
def systemNode (s : SystemTable D) (nodeIx : Nat) : Except SystemStop (SystemTable D) :=
  let s := { s with table := stat.setSystemColumn file s.table nodeIx }
  if nodeIx = stat.numNodes then .ok s else stat.readSystemNode file nodeIx s

/-- The table before the first node. -/
def initSystemTable (meminfoRows : Nat) : Vtab D :=
  ((Vtab.initTable file.headerRows headerCols meminfoRows (stat.numNodes + 1)).setColWidth 0 16).setColJustification 0
    .left

/-- The columns with a header. -/
def headedColumns : List Nat := List.range (stat.numNodes + if file.compatibilityMode then 0 else 1)

/-- The table with what the files of the nodes say. -/
def systemTable : Except SystemStop (SystemTable D) :=
  let node := stat.nodeIxMap.getD 0 0
  match file.text node with
  | none => .error (.cannotOpen node)
  | some text =>
      (stat.headedColumns file).foldlM (stat.systemNode file)
        { table := stat.initSystemTable file (SystemFile.buffers text).length
          hashTable := initHashTable
          messages := [] }

/-- `show_info_from_system_file`: the messages, and what the table prints. -/
def showInfoFromSystemFile : Except SystemStop (List (List Char) × TableOutput D) :=
  (stat.systemTable file).map fun s =>
    (s.messages, ((stat.prepareInfo s.table.dataRows s.table).displayTable stat.format stat.screenWidth
      stat.showOptions).2)

end

end Numastat

/-! ### The lines of a file -/

/-- A delimiter at the end of a text is no part of a word. -/
theorem strtokWords_concat {isDelim : Char → Bool} {d : Char} (hd : isDelim d = true) (s : List Char) :
    strtokWords isDelim (s ++ [d]) = strtokWords isDelim s := by
  induction s with
  | nil => exact if_pos hd
  | cons c s ih =>
      by_cases hc : isDelim c = true
      · rw [List.cons_append, strtokWords_of_delimiter hc, strtokWords_of_delimiter hc, ih]
      · cases s with
        | nil =>
            have hlast : strtokWords isDelim [d] = [] := if_pos hd
            have hone : strtokWords isDelim [c] = [[c]] := if_neg hc
            rw [List.cons_append, List.nil_append, hone, strtokWords, if_neg hc, hlast]
        | cons e s =>
            rw [List.cons_append] at ih ⊢
            rw [List.cons_append, strtokWords, strtokWords, if_neg hc, if_neg hc, ih]

/-- The text is one of lines that are shorter than the buffer, each blank or a token with a word for its value, and
no token is there twice. -/
structure HoldsEntries (text : List Char) (entries : List (List Char × List Char)) : Prop where
  lines : ∃ lines : List (List Char), text = LineBuffer.joinLines '\n' lines ∧
    (∀ l ∈ lines, '\n' ∉ l ∧ l.length + 1 < smallBufSize) ∧
      (lines.map (strtokWords isSystemDelimiter)).filter (· ≠ []) = entries.map fun e => [e.1, e.2]
  nodup : (entries.map Prod.fst).Nodup

theorem buffers_joinLines {lines : List (List Char)} (h : ∀ l ∈ lines, '\n' ∉ l ∧ l.length + 1 < smallBufSize) :
    SystemFile.buffers (LineBuffer.joinLines '\n' lines) = lines.map (· ++ ['\n']) := by
  rw [SystemFile.buffers, LineBuffer.buffers_joinLines (by decide) fun l hl => (h l hl).1]
  induction lines with
  | nil => rfl
  | cons l lines ih =>
      rw [List.forall_mem_cons] at h
      have hfits : l.length < smallBufSize - 1 := by
        rw [smallBufSize] at h ⊢
        omega
      rw [List.flatMap_cons, ih h.2, LineBuffer.lineBuffers, LineBuffer.buffers_line h.1.1 [] hfits]
      rfl

namespace Numastat

section Lines

variable {D : Type} [LinearOrder D] [Zero D] [Add D] [Mul D] [Div D] [IntCast D]
  {stat : Numastat D} {file : SystemFile D}

/-- Reading a file is reading its entries. -/
theorem readSystemNode_eq {nodeIx : Nat} {text : List Char} {entries : List (List Char × List Char)}
    (htext : file.text (stat.nodeIxMap.getD nodeIx 0) = some text) (h : HoldsEntries text entries)
    (s : SystemTable D) :
    stat.readSystemNode file nodeIx s =
      (entries.foldlM (fun x e => stat.readTokens file nodeIx x [e.1, e.2]) (0, s)).map (·.2) := by
  obtain ⟨lines, rfl, hfits, hwords⟩ := h.lines
  have hblank (lines : List (List Char)) (x : Nat × SystemTable D) :
      (lines.map (· ++ ['\n'])).foldlM
          (fun x buf => stat.readTokens file nodeIx x (strtokWords isSystemDelimiter buf)) x =
        ((lines.map (strtokWords isSystemDelimiter)).filter (· ≠ [])).foldlM (stat.readTokens file nodeIx) x := by
    induction lines generalizing x with
    | nil => rfl
    | cons l lines ih =>
        rw [List.map_cons, List.map_cons, List.foldlM_cons, strtokWords_concat (by decide)]
        by_cases hl : strtokWords isSystemDelimiter l = []
        · rw [List.filter_cons_of_neg (by simp [hl]), ← ih, readTokens, if_pos hl]
          rfl
        · rw [List.filter_cons_of_pos (by simp [hl]), List.foldlM_cons]
          congr 1
          funext y
          exact ih y
  rw [readSystemNode, htext]
  dsimp only
  rw [buffers_joinLines hfits, hblank, hwords, List.foldlM_map]

end Lines

end Numastat

end Numactl
