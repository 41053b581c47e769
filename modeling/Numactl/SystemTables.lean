import Numactl.MapsAccounting
import Numactl.SystemFiles

/-! What the table of `show_info_from_system_file` holds after the files `numastat` of the nodes have been read: for
every token of the first node's file the values it has by node, in any order of the lines, and their sum. -/

namespace Numactl

open CString (strtol)

/-! ### The cells -/

namespace Numastat

section Cells

variable {D : Type} {stat : Numastat D} {file : SystemFile D} {base table : Vtab D}

/-- The cells of a column's header. -/
def headerCell (stat : Numastat D) (file : SystemFile D) (nodeIx row : Nat) : Option (Cell D) :=
  if row = 0 then some (.string (stat.nodeHeader.getD nodeIx []))
  else if row = 1 ∧ ¬file.compatibilityMode then some (.repchar '-')
  else none

theorem allCols_setSystemColumn (table : Vtab D) (nodeIx : Nat) :
    (stat.setSystemColumn file table nodeIx).allCols = table.allCols := by
  rw [setSystemColumn, Vtab.allCols_setColJustification, Vtab.allCols_setColWidth]
  split
  · exact Vtab.allCols_setCell table _ _ _
  · rw [Vtab.allCols_setColDecimalPlaces]
    exact (Vtab.allCols_setCell _ _ _ _).trans (Vtab.allCols_setCell table _ _ _)

theorem getCell_setSystemColumn {nodeIx : Nat} (hnode : nodeIx < stat.numNodes + 1)
    (hcols : table.allCols = stat.totalColIx + 1) (row : Nat) {col : Nat} (hcol : col < table.allCols) :
    (stat.setSystemColumn file table nodeIx).getCell row col =
      if col = headerCols + nodeIx then (stat.headerCell file nodeIx row).getD (table.getCell row col)
      else table.getCell row col := by
  have hlt : headerCols + nodeIx < table.allCols := by
    rw [hcols, totalColIx]
    omega
  have hfirst : ∀ row, (table.stringAssign 0 (headerCols + nodeIx) (stat.nodeHeader.getD nodeIx [])).getCell row col =
      if row = 0 ∧ col = headerCols + nodeIx then .string (stat.nodeHeader.getD nodeIx []) else table.getCell row col :=
    fun row => getCell_setCell hlt hcol _
  have hsecond : (stat.setSystemColumn file table nodeIx).getCell row col =
      if ¬file.compatibilityMode ∧ row = 1 ∧ col = headerCols + nodeIx then .repchar '-'
      else (table.stringAssign 0 (headerCols + nodeIx) (stat.nodeHeader.getD nodeIx [])).getCell row col := by
    rw [setSystemColumn, Vtab.getCell_setColJustification, Vtab.getCell_setColWidth]
    -- The header is a new opaque table, so that setting the next cell is not computed through it.
    have hcols' := Vtab.allCols_setCell table 0 (headerCols + nodeIx) (.string (stat.nodeHeader.getD nodeIx []))
    rw [← Vtab.stringAssign] at hcols'
    generalize table.stringAssign 0 (headerCols + nodeIx) (stat.nodeHeader.getD nodeIx []) = headed at hcols' ⊢
    by_cases hcompat : file.compatibilityMode = true
    · rw [if_pos hcompat, if_neg fun h => h.1 hcompat]
    · rw [if_neg hcompat, Vtab.getCell_setColDecimalPlaces, Vtab.repcharAssign,
        getCell_setCell (hcols' ▸ hlt) (hcols' ▸ hcol)]
      exact if_congr (and_iff_right hcompat).symm rfl rfl
  rw [hsecond, hfirst, headerCell]
  by_cases hc : col = headerCols + nodeIx
  · by_cases h0 : row = 0
    · simp [hc, h0]
    · by_cases h1 : row = 1
      · by_cases hcompat : file.compatibilityMode = true <;> simp [hc, h1, hcompat]
      · simp [hc, h0, h1]
  · simp [hc]

variable [AddCommMonoid D]

/-- What the cells hold: the labels, the values by node and row, their sums, and the header of another table. -/
structure Filled (stat : Numastat D) (file : SystemFile D) (base table : Vtab D) (labels : Nat → Option (List Char))
    (val : Nat → Nat → Option D) : Prop where
  cols : table.allCols = stat.totalColIx + 1
  label : ∀ i, table.getCell (file.headerRows + i) 0 = (labels i).elim .null .string
  node : ∀ i, ∀ k < stat.numNodes,
    table.getCell (file.headerRows + i) (headerCols + k) = (val k i).elim .null .double
  total : ∀ i,
    (∃ k < stat.numNodes, val k i ≠ none) ∧ table.getCell (file.headerRows + i) stat.totalColIx =
        .double (∑ k ∈ Finset.range stat.numNodes, (val k i).getD 0) ∨
      (∀ k < stat.numNodes, val k i = none) ∧ table.getCell (file.headerRows + i) stat.totalColIx = .null
  header : ∀ row < file.headerRows, ∀ col < table.allCols, table.getCell row col = base.getCell row col

variable {labels : Nat → Option (List Char)} {val : Nat → Nat → Option D}

theorem Filled.asDouble_total (h : Filled stat file base table labels val) (i : Nat) :
    (table.getCell (file.headerRows + i) stat.totalColIx).asDouble stat.format =
      ∑ k ∈ Finset.range stat.numNodes, (val k i).getD 0 := by
  obtain ⟨-, htotal⟩ | ⟨hnone, htotal⟩ := h.total i
  · rw [htotal]
    rfl
  · rw [htotal]
    refine (Finset.sum_eq_zero fun k hk => ?_).symm
    rw [hnone k (Finset.mem_range.mp hk), Option.getD_none]

theorem getCell_storeValue {nodeIx : Nat} (hnode : nodeIx < stat.numNodes)
    (hcols : table.allCols = stat.totalColIx + 1) (index : Nat) (value : D) (row : Nat) {col : Nat}
    (hcol : col < table.allCols) :
    (stat.storeValue file nodeIx index value table).getCell row col =
      if row = file.headerRows + index ∧ col = stat.totalColIx then
        .double ((table.getCell row col).asDouble stat.format + value)
      else if row = file.headerRows + index ∧ col = headerCols + nodeIx then .double value
      else table.getCell row col := by
  have hlt : headerCols + nodeIx < stat.totalColIx := Nat.add_lt_add_left hnode _
  have hset (row : Nat) {col : Nat} (hcol : col < table.allCols) :
      (table.setCell (file.headerRows + index) (headerCols + nodeIx) (.double value)).getCell row col =
        if row = file.headerRows + index ∧ col = headerCols + nodeIx then .double value else table.getCell row col :=
    getCell_setCell (by omega) hcol _
  have hadd := @getCell_doubleAddto D _ _ stat
    (table.setCell (file.headerRows + index) (headerCols + nodeIx) (.double value)) (file.headerRows + index)
    stat.totalColIx row col (hcols ▸ Nat.lt_succ_self _) hcol value
  rw [storeValue, hadd, hset row hcol]
  by_cases htotal : row = file.headerRows + index ∧ col = stat.totalColIx
  · have hother : ¬(row = file.headerRows + index ∧ col = headerCols + nodeIx) := fun h => by omega
    rw [if_pos htotal, if_pos htotal, if_neg hother]
  · rw [if_neg htotal, if_neg htotal]

/-- A value that is not there yet is stored. -/
theorem Filled.store (h : Filled stat file base table labels val) {nodeIx index : Nat} (hnode : nodeIx < stat.numNodes)
    (hnone : val nodeIx index = none) (value : D) :
    Filled stat file base (stat.storeValue file nodeIx index value table) labels
      fun k i => if k = nodeIx ∧ i = index then some value else val k i where
  cols := h.cols
  label i := by
    have htotal : ¬(0 = stat.totalColIx) := by
      rw [totalColIx, headerCols]
      omega
    have hlabel : ¬(0 = headerCols + nodeIx) := by
      rw [headerCols]
      omega
    rw [getCell_storeValue hnode h.cols index value _ (h.cols ▸ Nat.succ_pos _), if_neg fun hor => htotal hor.2,
      if_neg fun hor => hlabel hor.2, h.label]
  node i k hk := by
    have hlt : headerCols + k < stat.totalColIx := Nat.add_lt_add_left hk _
    rw [getCell_storeValue hnode h.cols index value _ (by rw [h.cols]; omega), if_neg fun hor => hlt.ne hor.2]
    by_cases hplace : k = nodeIx ∧ i = index
    · rw [if_pos hplace, if_pos ⟨by rw [hplace.2], by rw [hplace.1]⟩]
      rfl
    · rw [if_neg hplace, if_neg fun hor => hplace ⟨by omega, by omega⟩, h.node i k hk]
  total i := by
    have hother : ¬(stat.totalColIx = headerCols + nodeIx) := fun heq => by
      rw [totalColIx] at heq
      omega
    rw [getCell_storeValue hnode h.cols index value _ (h.cols ▸ Nat.lt_succ_self _)]
    by_cases hrow : i = index
    · subst hrow
      refine Or.inl ⟨⟨nodeIx, hnode, ?_⟩, ?_⟩
      · rw [if_pos ⟨rfl, rfl⟩]
        exact Option.some_ne_none value
      have hsplit : ∀ k ∈ Finset.range stat.numNodes,
          (if k = nodeIx ∧ i = i then some value else val k i).getD 0 =
            (val k i).getD 0 + if k = nodeIx then value else 0 := by
        intro k hk
        by_cases hkn : k = nodeIx
        · rw [if_pos ⟨hkn, rfl⟩, if_pos hkn, hkn, hnone, Option.getD_none, Option.getD_some, zero_add]
        · rw [if_neg fun hor => hkn hor.1, if_neg hkn, add_zero]
      rw [if_pos ⟨rfl, rfl⟩, h.asDouble_total, Finset.sum_congr rfl hsplit, Finset.sum_add_distrib,
        Finset.sum_ite_eq', if_pos (Finset.mem_range.mpr hnode)]
    · have hne : ¬(file.headerRows + i = file.headerRows + index) := by omega
      have hval : ∀ k, (if k = nodeIx ∧ i = index then some value else val k i) = val k i := fun k =>
        if_neg fun hor => hrow hor.2
      simp only [if_neg fun hor : file.headerRows + i = file.headerRows + index ∧ _ => hne hor.1, hval]
      exact h.total i
  header row hrow col hcol := by
    have hne : row ≠ file.headerRows + index := by omega
    rw [getCell_storeValue hnode h.cols index value row hcol, if_neg fun hor => hne hor.1, if_neg fun hor => hne hor.1]
    exact h.header row hrow col hcol

/-- A row gets a label. -/
theorem Filled.addLabel (h : Filled stat file base table labels val) (index : Nat) (text : List Char) :
    Filled stat file base (table.stringAssign (file.headerRows + index) 0 text)
      (fun i => if i = index then some text else labels i) val := by
  have hpos : 0 < table.allCols := h.cols ▸ Nat.succ_pos _
  have hcell (row : Nat) {col : Nat} (hcol : col < table.allCols) :
      (table.stringAssign (file.headerRows + index) 0 text).getCell row col =
        if row = file.headerRows + index ∧ col = 0 then .string text else table.getCell row col :=
    getCell_setCell hpos hcol _
  refine ⟨h.cols, fun i => ?_, fun i k hk => ?_, fun i => ?_, fun row hrow col hcol => ?_⟩
  · rw [hcell _ hpos]
    by_cases hi : i = index
    · rw [if_pos hi, if_pos ⟨by rw [hi], rfl⟩]
      rfl
    · rw [if_neg hi, if_neg fun hor => hi (by omega), h.label]
  · have hlt : headerCols + k < stat.totalColIx := Nat.add_lt_add_left hk _
    have hne : headerCols + k ≠ 0 := by
      rw [headerCols]
      omega
    rw [hcell _ (by rw [h.cols]; omega), if_neg fun hor => hne hor.2, h.node i k hk]
  · have hne : stat.totalColIx ≠ 0 := by
      rw [totalColIx, headerCols]
      omega
    rw [hcell _ (h.cols ▸ Nat.lt_succ_self _), if_neg fun hor => hne hor.2]
    exact h.total i
  · rw [hcell row hcol, if_neg fun hor => by omega]
    exact h.header row hrow col hcol

/-- A column gets its header, in both tables. -/
theorem Filled.setColumn (h : Filled stat file base table labels val) (hbase : base.allCols = table.allCols)
    {nodeIx : Nat} (hnode : nodeIx < stat.numNodes + 1) :
    Filled stat file (stat.setSystemColumn file base nodeIx) (stat.setSystemColumn file table nodeIx) labels val := by
  have hdata (i : Nat) {col : Nat} (hcol : col < table.allCols) :
      (stat.setSystemColumn file table nodeIx).getCell (file.headerRows + i) col =
        table.getCell (file.headerRows + i) col := by
    have hnone : stat.headerCell file nodeIx (file.headerRows + i) = none := by
      rw [headerCell, SystemFile.headerRows]
      by_cases hcompat : file.compatibilityMode = true
      · rw [if_pos hcompat, if_neg (by omega), if_neg fun hor => hor.2 hcompat]
      · rw [if_neg hcompat, if_neg (by omega), if_neg (by omega)]
    rw [getCell_setSystemColumn hnode h.cols _ hcol, hnone, Option.getD_none, ite_self]
  refine ⟨(allCols_setSystemColumn table nodeIx).trans h.cols, fun i => ?_, fun i k hk => ?_, fun i => ?_,
    fun row hrow col hcol => ?_⟩
  · rw [hdata i (h.cols ▸ Nat.succ_pos _), h.label]
  · have hlt : headerCols + k < stat.totalColIx := Nat.add_lt_add_left hk _
    rw [hdata i (by rw [h.cols]; omega), h.node i k hk]
  · rw [hdata i (h.cols ▸ Nat.lt_succ_self _)]
    exact h.total i
  · rw [allCols_setSystemColumn] at hcol
    rw [getCell_setSystemColumn hnode h.cols row hcol,
      getCell_setSystemColumn hnode (hbase.trans h.cols) row (hbase.symm ▸ hcol), h.header row hrow col hcol]

end Cells

end Numastat

/-! ### The files -/

section Lists

variable {α β : Type}

theorem getElem?_concat (l : List α) (a : α) (i : Nat) : (l ++ [a])[i]? = if i = l.length then some a else l[i]? := by
  by_cases hi : i = l.length
  · rw [if_pos hi, hi, List.getElem?_concat_length]
  · rw [if_neg hi]
    obtain hlt | hle := Nat.lt_or_ge i l.length
    · exact List.getElem?_append_left hlt
    · rw [List.getElem?_eq_none hle, List.getElem?_eq_none]
      rw [List.length_append, List.length_singleton]
      omega

variable {es : List (α × β)}

/-- Two places with the same key are one. -/
theorem eq_of_fst_eq (hnodup : (es.map Prod.fst).Nodup) {i j : Nat} {d e : α × β} (hd : es[i]? = some d)
    (he : es[j]? = some e) (heq : d.1 = e.1) : i = j := by
  have hi : (es.map Prod.fst)[i]? = some d.1 := by rw [List.getElem?_map, hd]; rfl
  have hj : (es.map Prod.fst)[j]? = some e.1 := by rw [List.getElem?_map, he]; rfl
  rw [heq] at hi
  exact (List.getElem?_inj (List.getElem?_eq_some_iff.mp hi).1 hnodup).mp (hi.trans hj.symm)

variable [BEq α]

theorem lookup_concat (es : List (α × β)) (e : α × β) (a : α) :
    (es ++ [e]).lookup a = (es.lookup a).or (if a == e.1 then some e.2 else none) := by
  rw [List.lookup_append, List.lookup_cons]
  cases a == e.1 with
  | true => rfl
  | false => rfl

variable [LawfulBEq α]

theorem lookup_eq_none_of_notMem {a : α} (h : a ∉ es.map Prod.fst) : es.lookup a = none := by
  rw [List.lookup_eq_none_iff]
  intro e he
  rw [bne_iff_ne]
  exact fun heq => h (heq ▸ List.mem_map_of_mem he)

/-- A key that is there once is looked up where it is. -/
theorem lookup_of_mem (hnodup : (es.map Prod.fst).Nodup) {e : α × β} (he : e ∈ es) : es.lookup e.1 = some e.2 := by
  induction es with
  | nil => cases he
  | cons d es ih =>
      rw [List.map_cons, List.nodup_cons] at hnodup
      rw [List.lookup_cons]
      obtain rfl | he := List.mem_cons.mp he
      · rw [beq_self_eq_true]
      · have hne : e.1 ≠ d.1 := fun heq => hnodup.1 (heq ▸ List.mem_map_of_mem he)
        rw [beq_eq_false_iff_ne.mpr hne]
        exact ih hnodup.2 he

end Lists

namespace Numastat

section Files

variable {D : Type} [Field D] {stat : Numastat D} {file : SystemFile D} {base : Vtab D}

/-- The value of a word in a file `numastat`: in pages, but for the compatibility mode it is shown in megabytes. -/
def nodeValue (stat : Numastat D) (file : SystemFile D) (w : List Char) : D :=
  if file.compatibilityMode then ((strtol 10 w).1 : D)
  else ((strtol 10 w).1 : D) * stat.pageSizeInBytes / (megabyte : D)

/-- The value a token has in a file. -/
def valueOf (stat : Numastat D) (file : SystemFile D) (es : List (List Char × List Char)) (token : List Char) :
    Option D := (es.lookup token).map (stat.nodeValue file)

def rowLabels (file : SystemFile D) (known : List (List Char × List Char)) (i : Nat) : Option (List Char) :=
  known[i]?.map fun e => file.label e.1

def rowValues (known : List (List Char × List Char)) (value : Nat → List Char → Option D) (k i : Nat) : Option D :=
  known[i]?.bind fun e => value k e.1

/-- The hash table finds the rows of the tokens of the entries, the rows have their labels, and the values of the
entries are in the column of a node. -/
structure Read (stat : Numastat D) (file : SystemFile D) (base : Vtab D) (known : List (List Char × List Char))
    (value : Nat → List Char → Option D) (s : SystemTable D) : Prop where
  holds : ProbeTable.Holds hashTableSize hashIx s.hashTable ((known.map Prod.fst).zipIdx)
  filled : Filled stat file base s.table (rowLabels file known) (rowValues known value)

variable {known p : List (List Char × List Char)} {value : Nat → List Char → Option D} {s : SystemTable D}

theorem Read.lookup_of_getElem? (h : Read stat file base known value s) {i : Nat} {e : List Char × List Char}
    (he : known[i]? = some e) : hashLookup s.hashTable e.1 = some (some i) := by
  refine h.holds.lookup_of_mem (hashIx_lt e.1) ?_
  rw [List.mk_mem_zipIdx_iff_getElem?, List.getElem?_map, he]
  rfl

theorem Read.lookup_of_notMem (h : Read stat file base known value s) (hlen : known.length < hashTableSize)
    {token : List Char} (htoken : token ∉ known.map Prod.fst) : hashLookup s.hashTable token = some none := by
  refine h.holds.lookup_of_notMem ?_ (hashIx_lt token) ?_
  · rwa [List.length_zipIdx, List.length_map]
  · rwa [List.zipIdx_map_fst]

/-- The first file: a token gets its row. -/
theorem Read.addToken (h : Read stat file base known value s) (hlen : known.length < hashTableSize)
    {e : List Char × List Char} (he : e.1 ∉ known.map Prod.fst) (hvalue : ∀ k, value k e.1 = none) :
    ∃ s', Numastat.addToken file known.length e.1 s = .ok s' ∧ Read stat file base (known ++ [e]) value s' := by
  have hzip : ((known ++ [e]).map Prod.fst).zipIdx = (known.map Prod.fst).zipIdx ++ [(e.1, known.length)] := by
    rw [List.map_append, List.zipIdx_append, List.length_map, Nat.zero_add]
    rfl
  obtain ⟨hashTable, hinsert, hholds⟩ := h.holds.insert (by rwa [List.length_zipIdx, List.length_map]) (hashIx_lt e.1)
    (by rwa [List.zipIdx_map_fst]) known.length
  have hlabels : (fun i => if i = known.length then some (file.label e.1) else rowLabels file known i) =
      rowLabels file (known ++ [e]) := by
    funext i
    rw [rowLabels, rowLabels, getElem?_concat]
    split
    · rfl
    · rfl
  have hvalues : rowValues known value = rowValues (known ++ [e]) value := by
    funext k i
    rw [rowValues, rowValues, getElem?_concat]
    split
    · next hi => rw [hi, List.getElem?_eq_none le_rfl, Option.bind_none, Option.bind_some, hvalue]
    · rfl
  refine ⟨{ s with hashTable, table := s.table.stringAssign (file.headerRows + known.length) 0 (file.label e.1) },
    by rw [Numastat.addToken, hashInsert, hinsert], hzip ▸ hholds, ?_⟩
  rw [← hlabels, ← hvalues]
  exact h.filled.addLabel known.length (file.label e.1)

variable [LinearOrder D]

theorem systemValue_pair (hoffset : file.tokOffset = 0) (nodeIx : Nat) (t w : List Char) :
    stat.systemValue file nodeIx [t, w] = stat.nodeValue file w := by
  rw [systemValue, hoffset, nodeValue]
  split
  · rfl
  · rfl

omit [Field D] [LinearOrder D] in
/-- A value of a known token is one of its row. -/
theorem rowValues_set (hnodup : (known.map Prod.fst).Nodup) {index : Nat} {d : List Char × List Char}
    (hindex : known[index]? = some d) (nodeIx : Nat) (v : D) :
    rowValues known (fun k t => if k = nodeIx ∧ t = d.1 then some v else value k t) =
      fun k i => if k = nodeIx ∧ i = index then some v else rowValues known value k i := by
  funext k i
  rw [rowValues, rowValues]
  cases hi : known[i]? with
  | none =>
      have hne : i ≠ index := by
        rintro rfl
        rw [hindex] at hi
        cases hi
      rw [if_neg fun hand => hne hand.2, Option.bind_none, Option.bind_none]
  | some c =>
      rw [Option.bind_some, Option.bind_some]
      by_cases hk : k = nodeIx ∧ i = index
      · obtain rfl : c = d := by
          rw [hk.2, hindex] at hi
          exact (Option.some.inj hi).symm
        rw [if_pos hk, if_pos ⟨hk.1, rfl⟩]
      · rw [if_neg hk, if_neg]
        exact fun hand => hk ⟨hand.1, eq_of_fst_eq hnodup hi hindex hand.2⟩

omit [Field D] [LinearOrder D] in
/-- A value of another token is in no row. -/
theorem rowValues_set_of_notMem {token : List Char} (htoken : token ∉ known.map Prod.fst) (nodeIx : Nat) (v : D) :
    rowValues known (fun k t => if k = nodeIx ∧ t = token then some v else value k t) = rowValues known value := by
  funext k i
  rw [rowValues, rowValues]
  cases hi : known[i]? with
  | none => rfl
  | some c =>
      rw [Option.bind_some, Option.bind_some, if_neg]
      exact fun hand => htoken (hand.2 ▸ List.mem_map_of_mem (List.mem_of_getElem? hi))

/-- A line with a token and its value, when the tokens of the first file are known. -/
theorem Read.addValueOf (h : Read stat file base known value s) (hoffset : file.tokOffset = 0)
    (hlen : known.length < hashTableSize) (hnodup : (known.map Prod.fst).Nodup) {nodeIx : Nat}
    (hnode : nodeIx < stat.numNodes) {e : List Char × List Char} (hnone : value nodeIx e.1 = none) :
    ∃ s', stat.addValueOf file nodeIx [e.1, e.2] s = .ok s' ∧ Read stat file base known
      (fun k t => if k = nodeIx ∧ t = e.1 then some (stat.nodeValue file e.2) else value k t) s' := by
  have htoken : [e.1, e.2].getD file.tokOffset [] = e.1 := by rw [hoffset]; rfl
  rw [Numastat.addValueOf, htoken]
  by_cases hmem : e.1 ∈ known.map Prod.fst
  · obtain ⟨d, hd, hfst⟩ := List.mem_map.mp hmem
    obtain ⟨index, hindex⟩ := List.getElem?_of_mem hd
    rw [← hfst] at hnone ⊢
    rw [h.lookup_of_getElem? hindex]
    refine ⟨_, rfl, h.holds, ?_⟩
    have hempty : rowValues known value nodeIx index = none := by
      rw [rowValues, hindex, Option.bind_some, hnone]
    rw [systemValue_pair hoffset, rowValues_set hnodup hindex]
    exact h.filled.store hnode hempty (stat.nodeValue file e.2)
  · rw [h.lookup_of_notMem hlen hmem]
    refine ⟨_, rfl, h.holds, ?_⟩
    rw [rowValues_set_of_notMem hmem]
    exact h.filled

/-- What the files of the nodes before `n` and the entries `p` of the file of `n` say. -/
def valuesUpTo (stat : Numastat D) (file : SystemFile D) (entries : Nat → List (List Char × List Char)) (n : Nat)
    (p : List (List Char × List Char)) (k : Nat) (token : List Char) : Option D :=
  if k < n then stat.valueOf file (entries k) token else if k = n then stat.valueOf file p token else none

variable {entries : Nat → List (List Char × List Char)} {n : Nat} {e : List Char × List Char}

omit [LinearOrder D] in
theorem valueOf_concat (he : e.1 ∉ p.map Prod.fst) (token : List Char) :
    stat.valueOf file (p ++ [e]) token =
      if token = e.1 then some (stat.nodeValue file e.2) else stat.valueOf file p token := by
  rw [valueOf, valueOf, lookup_concat]
  by_cases heq : token = e.1
  · rw [if_pos (beq_iff_eq.mpr heq), if_pos heq, heq, lookup_eq_none_of_notMem he]
    rfl
  · rw [if_neg (mt beq_iff_eq.mp heq), if_neg heq, Option.or_none]

omit [LinearOrder D] in
theorem valuesUpTo_concat (he : e.1 ∉ p.map Prod.fst) :
    (fun k t => if k = n ∧ t = e.1 then some (stat.nodeValue file e.2) else stat.valuesUpTo file entries n p k t) =
      stat.valuesUpTo file entries n (p ++ [e]) := by
  funext k t
  obtain rfl | hk := eq_or_ne k n
  · rw [valuesUpTo, valuesUpTo, valueOf_concat he]
    simp only [lt_irrefl, if_false, if_true, true_and]
  · rw [valuesUpTo, valuesUpTo, if_neg fun hand => hk hand.1, if_neg hk, if_neg hk]

omit [LinearOrder D] in
theorem valuesUpTo_next :
    stat.valuesUpTo file entries n (entries n) = stat.valuesUpTo file entries (n + 1) [] := by
  funext k t
  have hnil : stat.valueOf file [] t = none := rfl
  rw [valuesUpTo, valuesUpTo, hnil, ite_self]
  obtain hlt | rfl | hgt := lt_trichotomy k n
  · rw [if_pos hlt, if_pos (by omega)]
  · rw [if_neg (lt_irrefl k), if_pos rfl, if_pos (Nat.lt_succ_self k)]
  · rw [if_neg (by omega), if_neg (by omega), if_neg (by omega)]

omit [LinearOrder D] in
/-- A token that is not among the entries has no value yet. -/
theorem valuesUpTo_self (he : e.1 ∉ p.map Prod.fst) : stat.valuesUpTo file entries n p n e.1 = none := by
  rw [valuesUpTo, if_neg (lt_irrefl n), if_pos rfl, valueOf, lookup_eq_none_of_notMem he]
  rfl

/-- The entries of the first file known before a file is read. -/
def knownBefore (entries : Nat → List (List Char × List Char)) (n : Nat) : List (List Char × List Char) :=
  if n = 0 then [] else entries 0

/-- The lines of a file are read that hold the entries `p`. The first file's entries are known as far as they are
read, and later all of them. -/
def LinesRead (stat : Numastat D) (file : SystemFile D) (base : Vtab D) (entries : Nat → List (List Char × List Char))
    (n : Nat) (p : List (List Char × List Char)) (x : Nat × SystemTable D) : Prop :=
  x.1 = p.length ∧ Read stat file base (if n = 0 then p else entries 0) (stat.valuesUpTo file entries n p) x.2

/-- One line of a file. -/
theorem LinesRead.line (hoffset : file.tokOffset = 0) (hlen : (entries 0).length < hashTableSize)
    (hfirst : ((entries 0).map Prod.fst).Nodup) (hnode : n < stat.numNodes) {post : List (List Char × List Char)}
    (hnodup : ((entries n).map Prod.fst).Nodup) (hp : entries n = p ++ e :: post) {x : Nat × SystemTable D}
    (hx : LinesRead stat file base entries n p x) :
    ∃ y, stat.readTokens file n x [e.1, e.2] = .ok y ∧ LinesRead stat file base entries n (p ++ [e]) y := by
  obtain ⟨hrow, h⟩ := hx
  have he : e.1 ∉ p.map Prod.fst := by
    rw [hp, List.map_append, List.map_cons, List.nodup_append] at hnodup
    exact fun hmem => hnodup.2.2 _ hmem _ List.mem_cons_self rfl
  have hself := @valuesUpTo_self D _ stat file p entries n e he
  have hlength : x.1 + 1 = (p ++ [e]).length := by rw [hrow, List.length_append, List.length_singleton]
  obtain rfl | hn := Nat.eq_zero_or_pos n
  · -- The token is put into the hash table first, and then found in it.
    rw [if_pos rfl] at h
    rw [hp, List.length_append, List.length_cons] at hlen
    have hvalue : ∀ k, stat.valuesUpTo file entries 0 p k e.1 = none := by
      intro k
      obtain rfl | hk := Nat.eq_zero_or_pos k
      · exact hself
      · rw [valuesUpTo, if_neg (Nat.not_lt_zero k), if_neg hk.ne']
    obtain ⟨s', hadd, hs'⟩ := h.addToken (by omega) he hvalue
    have hknown : ((p ++ [e]).map Prod.fst).Nodup := by
      rw [hp, List.append_cons, List.map_append] at hfirst
      exact hfirst.of_append_left
    obtain ⟨s'', hstore, hs''⟩ := hs'.addValueOf hoffset
      (by rw [List.length_append, List.length_singleton]; omega) hknown hnode hself
    rw [valuesUpTo_concat he] at hs''
    refine ⟨(x.1 + 1, s''), ?_, hlength, hs''⟩
    have htoken : [e.1, e.2].getD file.tokOffset [] = e.1 := by rw [hoffset]; rfl
    rw [readTokens, if_neg (List.cons_ne_nil _ _), if_pos rfl, htoken, hrow, hadd]
    change (stat.addValueOf file 0 [e.1, e.2] s' >>= _) = _
    rw [hstore]
    rfl
  · rw [if_neg hn.ne'] at h
    obtain ⟨s', hstore, hs'⟩ := h.addValueOf hoffset hlen hfirst hnode hself
    rw [valuesUpTo_concat he] at hs'
    refine ⟨(x.1 + 1, s'), ?_, hlength, by rwa [if_neg hn.ne']⟩
    rw [readTokens, if_neg (List.cons_ne_nil _ _), if_neg hn.ne']
    change (stat.addValueOf file n [e.1, e.2] x.2 >>= _) = _
    rw [hstore]
    rfl

/-- The file of a node. -/
theorem Read.readFile (hoffset : file.tokOffset = 0) (hlen : (entries 0).length < hashTableSize)
    (hfirst : ((entries 0).map Prod.fst).Nodup) (hnode : n < stat.numNodes) {text : List Char}
    (htext : file.text (stat.nodeIxMap.getD n 0) = some text) (hentries : HoldsEntries text (entries n))
    (h : Read stat file base (knownBefore entries n) (stat.valuesUpTo file entries n []) s) :
    ∃ s', stat.readSystemNode file n s = .ok s' ∧
      Read stat file base (entries 0) (stat.valuesUpTo file entries (n + 1) []) s' := by
  have hrun : ∃ y, (entries n).foldlM (fun x e => stat.readTokens file n x [e.1, e.2]) (0, s) = .ok y ∧
      LinesRead stat file base entries n (entries n) y :=
    Runs.total_history_rule ⟨rfl, h⟩ fun p e post x hp hx =>
      LinesRead.line hoffset hlen hfirst hnode hentries.nodup hp hx
  obtain ⟨y, hrun, -, hy⟩ := hrun
  have hknown : (if n = 0 then entries n else entries 0) = entries 0 := by
    split
    · next hn => rw [hn]
    · rfl
  rw [hknown, valuesUpTo_next] at hy
  refine ⟨y.2, ?_, hy⟩
  rw [readSystemNode_eq htext hentries, hrun]
  rfl

/-- The table with headers over some columns, and nothing else. -/
def headerTable (stat : Numastat D) (file : SystemFile D) (rows : Nat) (nodeIxs : List Nat) : Vtab D :=
  nodeIxs.foldl (stat.setSystemColumn file) (stat.initSystemTable file rows)

omit [Field D] [LinearOrder D] in
theorem allCols_headerTable (rows : Nat) (nodeIxs : List Nat) :
    (stat.headerTable file rows nodeIxs).allCols = stat.totalColIx + 1 := by
  induction nodeIxs using List.reverseRecOn with
  | nil => rfl
  | append_singleton nodeIxs nodeIx ih =>
      rw [headerTable, List.foldl_append, List.foldl_cons, List.foldl_nil, allCols_setSystemColumn]
      exact ih

omit [Field D] [LinearOrder D] in
theorem getCell_headerTable (rows : Nat) {nodeIxs : List Nat} (h : ∀ k ∈ nodeIxs, k < stat.numNodes + 1) (row : Nat) :
    (stat.headerTable file rows nodeIxs).getCell row 0 = .null ∧
      ∀ k < stat.numNodes + 1, (stat.headerTable file rows nodeIxs).getCell row (headerCols + k) =
        if k ∈ nodeIxs then (stat.headerCell file k row).getD .null else .null := by
  induction nodeIxs using List.reverseRecOn with
  | nil => exact ⟨rfl, fun _ _ => rfl⟩
  | append_singleton nodeIxs nodeIx ih =>
      have hnode := h nodeIx (by simp)
      obtain ⟨hcorner, hcell⟩ := ih fun k hk => h k (List.mem_append_left _ hk)
      have hcols := @allCols_headerTable D stat file rows nodeIxs
      have hnext : stat.headerTable file rows (nodeIxs ++ [nodeIx]) =
          stat.setSystemColumn file (stat.headerTable file rows nodeIxs) nodeIx := List.foldl_append
      rw [hnext]
      refine ⟨?_, fun k hk => ?_⟩
      · have hne : ¬(0 = headerCols + nodeIx) := by
          rw [headerCols]
          omega
        rw [getCell_setSystemColumn hnode hcols row (by omega), if_neg hne, hcorner]
      · have hlt : headerCols + k < (stat.headerTable file rows nodeIxs).allCols := by
          rw [hcols, totalColIx]
          omega
        rw [getCell_setSystemColumn hnode hcols row hlt, hcell k hk]
        by_cases hk : k = nodeIx
        · rw [if_pos (by rw [hk]), if_pos (List.mem_append_right _ (List.mem_singleton.mpr hk)), ← hk]
          cases stat.headerCell file k row with
          | none => rw [Option.getD_none, Option.getD_none, ite_self]
          | some c => rfl
        · have hmem : k ∈ nodeIxs ++ [nodeIx] ↔ k ∈ nodeIxs := by
            rw [List.mem_append, List.mem_singleton, or_iff_left hk]
          rw [if_neg fun heq => hk (by omega)]
          simp only [hmem]

omit [LinearOrder D] in
/-- Before the first node. -/
theorem read_init (rows : Nat) :
    Read stat file (stat.headerTable file rows []) (knownBefore entries 0) (stat.valuesUpTo file entries 0 [])
      { table := stat.initSystemTable file rows, hashTable := initHashTable, messages := [] } :=
  ⟨ProbeTable.Holds.empty _ _, rfl, fun _ => rfl, fun _ _ _ => rfl, fun _ => Or.inr ⟨fun _ _ => rfl, rfl⟩,
    fun _ _ _ _ => rfl⟩

omit [LinearOrder D] in
theorem Read.setColumn {rows : Nat} {nodeIxs : List Nat}
    (h : Read stat file (stat.headerTable file rows nodeIxs) known value s) {nodeIx : Nat}
    (hnode : nodeIx < stat.numNodes + 1) :
    Read stat file (stat.headerTable file rows (nodeIxs ++ [nodeIx])) known value
      { s with table := stat.setSystemColumn file s.table nodeIx } := by
  have hbase : stat.headerTable file rows (nodeIxs ++ [nodeIx]) =
      stat.setSystemColumn file (stat.headerTable file rows nodeIxs) nodeIx := List.foldl_append
  rw [hbase]
  exact ⟨h.holds, h.filled.setColumn ((allCols_headerTable rows nodeIxs).trans h.filled.cols.symm) hnode⟩

/-- Every cell of the table: the labels of the first file's tokens, the values they have in the files of the nodes
and their sums, and the headers. -/
structure HoldsFiles (stat : Numastat D) (file : SystemFile D) (entries : Nat → List (List Char × List Char))
    (table : Vtab D) : Prop where
  label : ∀ i e, (entries 0)[i]? = some e → table.getCell (file.headerRows + i) 0 = .string (file.label e.1)
  node : ∀ i e, (entries 0)[i]? = some e → ∀ k < stat.numNodes,
    table.getCell (file.headerRows + i) (headerCols + k) =
      (stat.valueOf file (entries k) e.1).elim .null .double
  total : ∀ i e, (entries 0)[i]? = some e → table.getCell (file.headerRows + i) stat.totalColIx =
    .double (∑ k ∈ Finset.range stat.numNodes, (stat.valueOf file (entries k) e.1).getD 0)
  blank : ∀ i, (entries 0).length ≤ i → ∀ col ≤ stat.totalColIx, table.getCell (file.headerRows + i) col = .null
  corner : ∀ row < file.headerRows, table.getCell row 0 = .null
  header : ∀ row < file.headerRows, ∀ k ≤ stat.numNodes, table.getCell row (headerCols + k) =
    if k ∈ stat.headedColumns file then (stat.headerCell file k row).getD .null else .null

/-- One iteration of the loop over the nodes. -/
theorem Read.systemNode (hoffset : file.tokOffset = 0) (hlen : (entries 0).length < hashTableSize)
    (hfirst : ((entries 0).map Prod.fst).Nodup) {rows : Nat} {pre : List Nat} (hnode : n < stat.numNodes)
    {text : List Char} (htext : file.text (stat.nodeIxMap.getD n 0) = some text)
    (hentries : HoldsEntries text (entries n))
    (h : Read stat file (stat.headerTable file rows pre) (knownBefore entries n)
      (stat.valuesUpTo file entries n []) s) :
    ∃ s', stat.systemNode file s n = .ok s' ∧ Read stat file (stat.headerTable file rows (pre ++ [n])) (entries 0)
      (stat.valuesUpTo file entries (n + 1) []) s' := by
  rw [Numastat.systemNode, if_neg hnode.ne]
  exact Read.readFile hoffset hlen hfirst hnode htext hentries (h.setColumn (by omega))

/-- The loop over the nodes reads all files. -/
theorem exists_systemTable (hoffset : file.tokOffset = 0) (hpos : 0 < stat.numNodes)
    (hlen : (entries 0).length < hashTableSize)
    (hfiles : ∀ k < stat.numNodes, ∃ text, file.text (stat.nodeIxMap.getD k 0) = some text ∧
      HoldsEntries text (entries k)) :
    ∃ s rows, stat.systemTable file = .ok s ∧ Read stat file (stat.headerTable file rows (stat.headedColumns file))
      (entries 0) (stat.valuesUpTo file entries stat.numNodes []) s := by
  obtain ⟨text, htext, hentries⟩ := hfiles 0 hpos
  have hfirst := hentries.nodup
  rw [systemTable, htext]
  dsimp only
  generalize (SystemFile.buffers text).length = rows
  have hrun : ∃ s, (stat.headedColumns file).foldlM (stat.systemNode file)
        { table := stat.initSystemTable file rows, hashTable := initHashTable, messages := [] } = .ok s ∧
      Read stat file (stat.headerTable file rows (stat.headedColumns file))
        (knownBefore entries (min (stat.headedColumns file).length stat.numNodes))
        (stat.valuesUpTo file entries (min (stat.headedColumns file).length stat.numNodes) []) s := by
    refine Runs.total_history_rule (I := fun pre s => Read stat file (stat.headerTable file rows pre)
      (knownBefore entries (min pre.length stat.numNodes))
      (stat.valuesUpTo file entries (min pre.length stat.numNodes) []) s) ?_ fun pre a post s hops hs => ?_
    · rw [List.length_nil, Nat.zero_min]
      exact read_init rows
    · -- The nodes are gone through in order, the one after the last for its header only.
      have hget : (List.range (stat.numNodes + if file.compatibilityMode then 0 else 1))[pre.length]? = some a := by
        rw [headedColumns] at hops
        rw [hops, List.getElem?_append_right le_rfl, Nat.sub_self]
        rfl
      obtain ⟨hlt, heq⟩ := List.getElem?_eq_some_iff.mp hget
      rw [List.getElem_range] at heq
      rw [List.length_range] at hlt
      have hbound : pre.length < stat.numNodes + 1 := by
        split at hlt <;> omega
      subst heq
      rw [List.length_append, List.length_singleton]
      obtain hnode | hend := Nat.lt_succ_iff_lt_or_eq.mp hbound
      · obtain ⟨text, htext, hentries⟩ := hfiles _ hnode
        rw [min_eq_left hnode.le] at hs
        rw [min_eq_left hnode]
        exact Read.systemNode hoffset hlen hfirst hnode htext hentries hs
      · rw [min_eq_right hend.ge] at hs
        rw [min_eq_right (by omega)]
        refine ⟨_, ?_, hs.setColumn hbound⟩
        rw [Numastat.systemNode]
        exact if_pos hend
  obtain ⟨s, hrun, hs⟩ := hrun
  have hall : min (stat.headedColumns file).length stat.numNodes = stat.numNodes := by
    rw [headedColumns, List.length_range]
    exact min_eq_right (Nat.le_add_right _ _)
  have hknown : knownBefore entries stat.numNodes = entries 0 := if_neg hpos.ne'
  rw [hall, hknown] at hs
  exact ⟨s, rows, hrun, hs⟩

/-- The files `numastat` of the nodes: the table has a row for every token of the first node's file, with the values
the token has in the files, by node, and their sum. It does not depend on the order of the lines in the other files,
nor on the tokens that only these have. -/
theorem systemTable_holdsFiles (hoffset : file.tokOffset = 0) (hpos : 0 < stat.numNodes)
    (hlen : (entries 0).length ≤ 150)
    (hfiles : ∀ k < stat.numNodes, ∃ text, file.text (stat.nodeIxMap.getD k 0) = some text ∧
      HoldsEntries text (entries k)) :
    ∃ s, stat.systemTable file = .ok s ∧ HoldsFiles stat file entries s.table := by
  obtain ⟨s, rows, hrun, hs⟩ := exists_systemTable hoffset hpos (Nat.lt_succ_of_le hlen) hfiles
  have hvalues : ∀ i e, (entries 0)[i]? = some e → ∀ k < stat.numNodes,
      rowValues (entries 0) (stat.valuesUpTo file entries stat.numNodes []) k i =
        stat.valueOf file (entries k) e.1 := by
    intro i e he k hk
    rw [rowValues, he, Option.bind_some, valuesUpTo, if_pos hk]
  have hheaded : ∀ k ∈ stat.headedColumns file, k < stat.numNodes + 1 := by
    intro k hk
    rw [headedColumns, List.mem_range] at hk
    split at hk <;> omega
  have hcols := hs.filled.cols
  refine ⟨s, hrun, ⟨fun i e he => ?_, fun i e he k hk => ?_, fun i e he => ?_, fun i hi col hcol => ?_,
    fun row hrow => ?_, fun row hrow k hk => ?_⟩⟩
  · rw [hs.filled.label, rowLabels, he]
    rfl
  · rw [hs.filled.node i k hk, hvalues i e he k hk]
  · obtain ⟨-, htotal⟩ | ⟨hnone, -⟩ := hs.filled.total i
    · rw [htotal]
      refine congrArg Cell.double (Finset.sum_congr rfl fun k hk => ?_)
      rw [hvalues i e he k (Finset.mem_range.mp hk)]
    · obtain ⟨text, -, hentries⟩ := hfiles 0 hpos
      have hzero := hnone 0 hpos
      rw [hvalues i e he 0 hpos, valueOf, lookup_of_mem hentries.nodup (List.mem_of_getElem? he)] at hzero
      cases hzero
  · have hnone : (entries 0)[i]? = none := List.getElem?_eq_none hi
    have hval : ∀ k, rowValues (entries 0) (stat.valuesUpTo file entries stat.numNodes []) k i = none := fun k => by
      rw [rowValues, hnone, Option.bind_none]
    rw [totalColIx] at hcol
    obtain rfl | ⟨k, rfl⟩ : col = 0 ∨ ∃ k, col = headerCols + k := by
      obtain hzero | hpos := Nat.eq_zero_or_pos col
      · exact Or.inl hzero
      · exact Or.inr ⟨col - headerCols, (Nat.add_sub_cancel' hpos).symm⟩
    · rw [hs.filled.label, rowLabels, hnone]
      rfl
    · obtain hk | rfl := Nat.lt_or_eq_of_le (Nat.le_of_add_le_add_left hcol)
      · rw [hs.filled.node i k hk, hval]
        rfl
      · obtain ⟨⟨k, -, hsome⟩, -⟩ | ⟨-, htotal⟩ := hs.filled.total i
        · exact absurd (hval k) hsome
        · exact htotal
  · rw [hs.filled.header row hrow 0 (by omega)]
    exact (getCell_headerTable rows hheaded row).1
  · rw [hs.filled.header row hrow _ (by rw [hcols, totalColIx]; omega)]
    exact (getCell_headerTable rows hheaded row).2 k (by omega)

end Files

end Numastat

/-- Files in different orders: only the second node has the last token, and only the first node the first. -/
def twoFiles : SystemFile ℚ where
  file := "numastat".toList
  tokOffset := 0
  compatibilityMode := true
  text node := if node = 0 then some "numa_hit 1\nnuma_miss 2\n".toList else some "numa_miss 5\nother_node 7\n".toList
  updateHugepagesInfo _ _ := 0

def twoFilesEntries (k : Nat) : List (List Char × List Char) :=
  if k = 0 then [("numa_hit".toList, ['1']), ("numa_miss".toList, ['2'])]
  else [("numa_miss".toList, ['5']), ("other_node".toList, ['7'])]

theorem holdsEntries_twoFiles :
    HoldsEntries "numa_hit 1\nnuma_miss 2\n".toList (twoFilesEntries 0) ∧
      HoldsEntries "numa_miss 5\nother_node 7\n".toList (twoFilesEntries 1) :=
  ⟨⟨⟨["numa_hit 1".toList, "numa_miss 2".toList], by decide, by decide, by decide⟩, by decide⟩,
    ⟨⟨["numa_miss 5".toList, "other_node 7".toList], by decide, by decide, by decide⟩, by decide⟩⟩

theorem systemTable_holdsFiles_twoFiles :
    ∃ s, exactNodes.systemTable twoFiles = .ok s ∧ s.table.getCell 1 2 = .null ∧
      s.table.getCell 2 2 = .double 5 ∧ s.table.getCell 2 3 = .double 7 := by
  have hfiles : ∀ k < exactNodes.numNodes, ∃ text, twoFiles.text (exactNodes.nodeIxMap.getD k 0) = some text ∧
      HoldsEntries text (twoFilesEntries k) := by
    intro k hk
    obtain rfl | rfl : k = 0 ∨ k = 1 := by
      change k < 2 at hk
      omega
    · exact ⟨_, rfl, holdsEntries_twoFiles.1⟩
    · exact ⟨_, rfl, holdsEntries_twoFiles.2⟩
  obtain ⟨s, hrun, hs⟩ := Numastat.systemTable_holdsFiles rfl (by decide) (by decide) hfiles
  refine ⟨s, hrun, ?_, ?_, ?_⟩
  · exact hs.node 0 _ rfl 1 (by decide)
  · exact (hs.node 1 _ rfl 1 (by decide)).trans (congrArg Cell.double (by decide +kernel))
  · exact (hs.total 1 _ rfl).trans (congrArg Cell.double (by decide +kernel))

end Numactl
