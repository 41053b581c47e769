import Numactl.Base.LineLayout
import Numactl.Base.Runs
import Numactl.Table

/-! What `display_table` prints, if no cell leaves its buffer: for each section of columns, as they fit the screen,
a line for every row that is shown, in the order of the row map. Of the flags and the row map nothing else is
seen. -/

namespace Numactl

namespace Vtab

variable {D : Type}

/-- The rows that are displayed in every section, from the top to the bottom. -/
def displayedRows (table : Vtab D) (options : ShowOptions) : List Nat :=
  ((List.range table.allRows).map table.rowIxMap).filter fun row =>
    decide (row < table.headerRows) || table.showsRow options row

def headerWidth (table : Vtab D) : Nat :=
  (List.range table.headerCols).foldl (fun width col => width + table.colWidth col) 0

/-- The data columns of the sections. -/
def sectionCols (table : Vtab D) (screenWidth : Nat) (options : ShowOptions) : List (List Nat) :=
  LineLayout.sections (table.showsCol options) table.colWidth table.allCols table.headerWidth screenWidth
    (table.allCols + 1) table.headerCols

/-- The data columns that are shown. -/
def shownCols (table : Vtab D) (options : ShowOptions) : List Nat :=
  (List.range' table.headerCols table.dataCols).filter (table.showsCol options)

/-- Every cell that is printed stays in its buffer: in each row displayed, beside a data column that is shown, that
of the column and those of the header columns. -/
def InBuffers (table : Vtab D) (options : ShowOptions) : Prop :=
  ∀ row ∈ table.displayedRows options, ∀ dataCol ∈ table.shownCols options,
    ∀ col ∈ List.range table.headerCols ++ [dataCol], (table.getCell row col).inBuffer (table.colWidth col) = true

instance (table : Vtab D) (options : ShowOptions) : Decidable (table.InBuffers options) :=
  inferInstanceAs (Decidable (∀ row ∈ table.displayedRows options, ∀ dataCol ∈ table.shownCols options,
    ∀ col ∈ List.range table.headerCols ++ [dataCol], (table.getCell row col).inBuffer (table.colWidth col) = true))

variable (format : CellFormat D) (table : Vtab D) (screenWidth : Nat) (options : ShowOptions)

/-- A cell as it is printed, where it stays in its buffer. -/
def printedCell (row col : Nat) : PrintedCell D where
  row := row
  col := col
  cell := table.getCell row col
  text := Cell.justified (table.colJustify col) (table.colWidth col)
    ((table.getCell row col).cellText format (table.colWidth col) (table.colDecimalPlaces col))

/-- A line with the header columns and some data columns. -/
def printLine (cols : List Nat) (row : Nat) : PrintedLine D :=
  .cells ((List.range table.headerCols ++ cols).map (table.printedCell format row))

/-- Sections, with a blank line before each but the first. -/
def printSections (rows : List Nat) (first : Bool) : List (List Nat) → List (PrintedLine D)
  | [] => []
  | cols :: rest =>
      (if first then [] else [.blank]) ++ rows.map (table.printLine format cols) ++ printSections rows false rest

variable {format table screenWidth options}

theorem printCell_eq {row col : Nat} (h : (table.getCell row col).inBuffer (table.colWidth col) = true) :
    table.printCell format row col = some (table.printedCell format row col) := by
  rw [printCell, Cell.displayJustifiedCell, Cell.fmtCellData, if_pos h]
  rfl

theorem mapM_printCell {row : Nat} {cols : List Nat}
    (h : ∀ col ∈ cols, (table.getCell row col).inBuffer (table.colWidth col) = true) :
    cols.mapM (table.printCell format row) = some (cols.map (table.printedCell format row)) := by
  induction cols with
  | nil => rfl
  | cons col cols ih =>
      rw [List.mapM_cons, printCell_eq (h col List.mem_cons_self)]
      rw [ih fun col hcol => h col (List.mem_cons_of_mem _ hcol)]
      rfl

theorem mem_shownCols {col : Nat} :
    col ∈ table.shownCols options ↔
      (table.headerCols ≤ col ∧ col < table.allCols) ∧ table.showsCol options col = true := by
  rw [shownCols, List.mem_filter, List.mem_range'_1, allCols]

/-- The loop over the columns of a line, if those it shows stay in their buffers. -/
theorem lineLoop_eq {row left col lineWidth : Nat} (hleft : col + left = table.allCols) (hpos : 0 < left)
    (hbuffers : ∀ c, col ≤ c → c < table.allCols → table.showsCol options c = true →
      (table.getCell row c).inBuffer (table.colWidth c) = true) :
    table.lineLoop format screenWidth options row left col lineWidth =
      some ((LineLayout.line (table.showsCol options) col
          (LineLayout.lineEnd (table.showsCol options) table.colWidth table.allCols screenWidth left col
            lineWidth)).map (table.printedCell format row),
        LineLayout.lineEnd (table.showsCol options) table.colWidth table.allCols screenWidth left col lineWidth) := by
  induction left generalizing col lineWidth with
  | zero => omega
  | succ left ih =>
      rw [lineLoop, LineLayout.lineEnd]
      generalize (if table.showsCol options col = true then lineWidth + table.colWidth col else lineWidth) = lineWidth
      have hshown : ∀ c ∈ (if table.showsCol options col = true then [col] else []),
          (table.getCell row c).inBuffer (table.colWidth c) = true := by
        intro c hc
        split at hc
        · next hshow =>
          obtain rfl := List.mem_singleton.mp hc
          exact hbuffers c (le_refl _) (by omega) hshow
        · cases hc
      rw [mapM_printCell hshown, Option.bind_eq_bind, Option.bind_some]
      dsimp only
      split
      · rw [LineLayout.line_cons (Nat.lt_succ_self col), LineLayout.line, Nat.sub_self]
        simp
      · next hmore =>
        rw [not_or, not_le] at hmore
        have hbounds := @LineLayout.lineEnd_bounds (table.showsCol options) table.colWidth table.allCols screenWidth
          left (col + 1) lineWidth (by omega) (by omega)
        rw [ih (by omega) (by omega) fun c hc => hbuffers c (by omega), LineLayout.line_cons (by omega : col < _),
          List.map_append]
        rfl

theorem displayLine_eq (h : table.InBuffers options) {row dataCol : Nat} (hrow : row ∈ table.displayedRows options)
    (hcol : dataCol ∈ table.shownCols options) :
    table.displayLine format screenWidth options dataCol row =
      let next := LineLayout.lineEnd (table.showsCol options) table.colWidth table.allCols screenWidth
        (table.allCols - dataCol) dataCol table.headerWidth
      some ((List.range table.headerCols ++ LineLayout.line (table.showsCol options) dataCol next).map
        (table.printedCell format row), next) := by
  obtain ⟨⟨hle, hlt⟩, -⟩ := mem_shownCols.mp hcol
  have hheader : ∀ col ∈ List.range table.headerCols,
      (table.getCell row col).inBuffer (table.colWidth col) = true := fun col hmem =>
    h row hrow dataCol hcol col (List.mem_append_left _ hmem)
  have hdata : ∀ c, dataCol ≤ c → c < table.allCols → table.showsCol options c = true →
      (table.getCell row c).inBuffer (table.colWidth c) = true := fun c hge hc hshow =>
    h row hrow c (mem_shownCols.mpr ⟨⟨hle.trans hge, hc⟩, hshow⟩) c
      (List.mem_append_right _ (List.mem_singleton.mpr rfl))
  rw [displayLine, mapM_printCell hheader, Option.bind_eq_bind, Option.bind_some]
  dsimp only
  rw [lineLoop_eq (by omega) (by omega) hdata, Option.bind_eq_bind, Option.bind_some, List.map_append]
  rfl

/-- The rows that are not displayed leave a section as it is. -/
theorem foldlM_displayRow_filter (dataCol : Nat) (s : List (PrintedLine D) × Int) :
    (List.range table.allRows).foldlM (table.displayRow format screenWidth options dataCol) s =
      (table.displayedRows options).foldlM (fun s row =>
        (table.displayLine format screenWidth options dataCol row).map fun line =>
          (s.1 ++ [.cells line.1], (line.2 : Int))) s := by
  rw [displayedRows, List.foldlM_filter, List.foldlM_map]
  congr 1
  funext s rowIx
  rw [displayRow]
  by_cases hshown : table.headerRows ≤ table.rowIxMap rowIx ∧ ¬table.showsRow options (table.rowIxMap rowIx) = true
  · rw [if_pos hshown, if_neg]
    · rfl
    · rw [Bool.or_eq_true, decide_eq_true_eq, not_or, not_lt]
      exact hshown
  · rw [if_neg hshown, if_pos]
    rw [Bool.or_eq_true, decide_eq_true_eq]
    by_contra hnot
    rw [not_or, not_lt] at hnot
    exact hshown hnot

/-- A section prints its line for each row displayed and gets to the column after the line. -/
theorem foldlM_displayRow (h : table.InBuffers options) {dataCol : Nat} (hcol : dataCol ∈ table.shownCols options)
    (col : Int) (hrows : table.displayedRows options ≠ []) :
    (List.range table.allRows).foldlM (table.displayRow format screenWidth options dataCol) ([], col) =
      let next := LineLayout.lineEnd (table.showsCol options) table.colWidth table.allCols screenWidth
        (table.allCols - dataCol) dataCol table.headerWidth
      some ((table.displayedRows options).map
        (table.printLine format (LineLayout.line (table.showsCol options) dataCol next)), (next : Int)) := by
  generalize hnext : LineLayout.lineEnd (table.showsCol options) table.colWidth table.allCols screenWidth
    (table.allCols - dataCol) dataCol table.headerWidth = next
  dsimp only
  rw [foldlM_displayRow_filter, Runs.output_last_rule
    (table.printLine format (LineLayout.line (table.showsCol options) dataCol next)) (next : Int) hrows,
    List.nil_append]
  intro row hrow ls col
  rw [displayLine_eq h hrow hcol, hnext]
  rfl

/-- The sections from a column on are printed to the end. -/
theorem sectionLoop_eq (h : table.InBuffers options) (hrows : table.displayedRows options ≠ []) {fuel dataCol : Nat}
    {col : Int} (hheader : table.headerCols ≤ dataCol) (hfuel : table.allCols - dataCol < fuel) :
    table.sectionLoop format screenWidth options fuel dataCol col =
      some (table.printSections format (table.displayedRows options) (decide (col ≤ 0))
        (LineLayout.sections (table.showsCol options) table.colWidth table.allCols table.headerWidth screenWidth fuel
          dataCol)) := by
  induction fuel generalizing dataCol col with
  | zero => omega
  | succ fuel ih =>
      rw [sectionLoop, LineLayout.sections]
      by_cases hend : table.allCols ≤ dataCol
      · rw [if_pos hend, if_pos hend]
        rfl
      rw [if_neg hend, if_neg hend]
      by_cases hshown : table.showsCol options dataCol = true
      · have hmem : dataCol ∈ table.shownCols options := mem_shownCols.mpr ⟨⟨hheader, by omega⟩, hshown⟩
        have hbounds := @LineLayout.lineEnd_bounds (table.showsCol options) table.colWidth table.allCols screenWidth
          (table.allCols - dataCol) dataCol table.headerWidth (by omega) (by omega)
        rw [if_neg (not_not.mpr hshown), if_neg (not_not.mpr hshown), foldlM_displayRow h hmem col hrows]
        generalize LineLayout.lineEnd (table.showsCol options) table.colWidth table.allCols screenWidth
          (table.allCols - dataCol) dataCol table.headerWidth = next at hbounds
        dsimp only
        rw [Option.bind_eq_bind, Option.bind_some, if_neg (by omega), Int.toNat_natCast, ih (by omega) (by omega),
          printSections]
        have hlater : decide ((next : Int) ≤ 0) = false := decide_eq_false (by omega)
        rw [hlater]
        by_cases hcol : 0 < col
        · rw [if_pos hcol, decide_eq_false (by omega), if_neg Bool.false_ne_true]
          rfl
        · rw [if_neg hcol, decide_eq_true (by omega), if_pos rfl]
          rfl
      · rw [if_pos hshown, if_pos hshown, ih (by omega) (by omega)]

/-! ### Where a cell leaves its buffer -/

theorem inBuffer_of_mapM {row : Nat} {cols : List Nat} {cs : List (PrintedCell D)}
    (h : cols.mapM (table.printCell format row) = some cs) :
    ∀ col ∈ cols, (table.getCell row col).inBuffer (table.colWidth col) = true := by
  induction cols generalizing cs with
  | nil => exact fun col hcol => absurd hcol List.not_mem_nil
  | cons col cols ih =>
      rw [List.mapM_cons] at h
      obtain ⟨c, hc, h⟩ := Option.bind_eq_some_iff.mp h
      obtain ⟨rest, hrest, -⟩ := Option.bind_eq_some_iff.mp h
      intro k hk
      rcases List.mem_cons.mp hk with rfl | hk
      · by_contra hnot
        rw [printCell, Cell.displayJustifiedCell, Cell.fmtCellData, if_neg hnot] at hc
        cases hc
      · exact ih hrest k hk

/-- A line that is printed gets to its end, and its cells stay in their buffers. -/
theorem inBuffer_of_lineLoop {row left col lineWidth : Nat} {r : List (PrintedCell D) × Nat}
    (h : table.lineLoop format screenWidth options row left col lineWidth = some r) :
    r.2 = LineLayout.lineEnd (table.showsCol options) table.colWidth table.allCols screenWidth left col lineWidth ∧
      ∀ c, col ≤ c → c < r.2 → table.showsCol options c = true →
        (table.getCell row c).inBuffer (table.colWidth c) = true := by
  induction left generalizing col lineWidth r with
  | zero =>
      obtain rfl := Option.some.inj h
      exact ⟨rfl, fun c hle hlt => absurd hlt (Nat.not_lt.mpr hle)⟩
  | succ left ih =>
      rw [lineLoop] at h
      rw [LineLayout.lineEnd]
      generalize (if table.showsCol options col = true then lineWidth + table.colWidth col else lineWidth) = lineWidth
        at h ⊢
      obtain ⟨printed, hprinted, h⟩ := Option.bind_eq_some_iff.mp h
      have hfirst : table.showsCol options col = true →
          (table.getCell row col).inBuffer (table.colWidth col) = true := fun hshow =>
        inBuffer_of_mapM hprinted col (by rw [if_pos hshow]; exact List.mem_singleton.mpr rfl)
      dsimp only at h ⊢
      split at h
      · next hlast =>
        obtain rfl := Option.some.inj h
        refine ⟨(if_pos hlast).symm, fun c hle hlt hshow => ?_⟩
        obtain rfl : c = col := Nat.le_antisymm (Nat.le_of_lt_succ hlt) hle
        exact hfirst hshow
      · next hmore =>
        obtain ⟨rest, hrest, h⟩ := Option.bind_eq_some_iff.mp h
        obtain rfl := Option.some.inj h
        obtain ⟨hend, hcells⟩ := ih hrest
        refine ⟨hend.trans (if_neg hmore).symm, fun c hle hlt hshow => ?_⟩
        rcases Nat.eq_or_lt_of_le hle with rfl | hlater
        · exact hfirst hshow
        · exact hcells c hlater hlt hshow

theorem inBuffer_of_displayLine {row dataCol : Nat} {r : List (PrintedCell D) × Nat}
    (h : table.displayLine format screenWidth options dataCol row = some r) :
    r.2 = LineLayout.lineEnd (table.showsCol options) table.colWidth table.allCols screenWidth
        (table.allCols - dataCol) dataCol table.headerWidth ∧
      ∀ c, dataCol ≤ c → c < r.2 → table.showsCol options c = true →
        ∀ col ∈ List.range table.headerCols ++ [c], (table.getCell row col).inBuffer (table.colWidth col) = true := by
  rw [displayLine] at h
  obtain ⟨header, hheader, h⟩ := Option.bind_eq_some_iff.mp h
  obtain ⟨rest, hrest, h⟩ := Option.bind_eq_some_iff.mp h
  obtain rfl := Option.some.inj h
  obtain ⟨hend, hcells⟩ := inBuffer_of_lineLoop hrest
  refine ⟨hend, fun c hle hlt hshow col hcol => ?_⟩
  rcases List.mem_append.mp hcol with hcol | hcol
  · exact inBuffer_of_mapM hheader col hcol
  · obtain rfl := List.mem_singleton.mp hcol
    exact hcells col hle hlt hshow

/-- Sections that are printed to the end have every cell in its buffer. -/
theorem inBuffer_of_sectionLoop (hrows : table.displayedRows options ≠ []) {fuel dataCol : Nat} {col : Int}
    {ls : List (PrintedLine D)} (h : table.sectionLoop format screenWidth options fuel dataCol col = some ls) :
    ∀ row ∈ table.displayedRows options, ∀ c, dataCol ≤ c → c < table.allCols → table.showsCol options c = true →
      ∀ k ∈ List.range table.headerCols ++ [c], (table.getCell row k).inBuffer (table.colWidth k) = true := by
  intro row hrow c hle hlt hshow
  induction fuel generalizing dataCol col ls with
  | zero => cases h
  | succ fuel ih =>
      rw [sectionLoop, if_neg (by omega)] at h
      split at h
      · next hhidden =>
        refine ih h (Nat.lt_of_le_of_ne hle ?_)
        rintro rfl
        exact hhidden hshow
      · obtain ⟨s, hs, h⟩ := Option.bind_eq_some_iff.mp h
        rw [foldlM_displayRow_filter] at hs
        have hlines := Runs.exists_of_foldlM hs
        obtain ⟨line, hline⟩ := hlines row hrow
        obtain ⟨hend, hcells⟩ := inBuffer_of_displayLine hline
        by_cases hthis : c < line.2
        · exact hcells c hle hthis hshow
        · -- Every line of the section ends at the same column, where the next one starts.
          have hnext : s.2 = (line.2 : Int) := by
            have hstep : ∀ row' ∈ table.displayedRows options, ∀ (ls : List (PrintedLine D)) (_ : Int),
                (table.displayLine format screenWidth options dataCol row').map
                    (fun line => (ls ++ [.cells line.1], (line.2 : Int))) =
                  some (ls ++ [.cells (((table.displayLine format screenWidth options dataCol row').map
                    Prod.fst).getD [])], (line.2 : Int)) := by
              intro row' hrow' ls _
              obtain ⟨line', hline'⟩ := hlines row' hrow'
              rw [hline', hend, ← (inBuffer_of_displayLine hline').1]
              rfl
            rw [Runs.output_last_rule _ _ hrows hstep, Option.some.injEq] at hs
            rw [← hs]
          rw [hnext, if_neg (by omega)] at h
          obtain ⟨rest, hrest, -⟩ := Option.bind_eq_some_iff.mp h
          exact ih hrest (Nat.le_of_not_lt hthis)

/-- A cell of the row and the column is printed in some line. -/
def ShownIn (ls : List (PrintedLine D)) (row col : Nat) : Prop :=
  ∃ cs, .cells cs ∈ ls ∧ ∃ c ∈ cs, c.row = row ∧ c.col = col

/-- A data cell is printed if its row and its column are. -/
theorem shownIn_printSections {rows : List Nat} {first : Bool} {secs : List (List Nat)} {row col : Nat}
    (hcol : table.headerCols ≤ col) :
    ShownIn (table.printSections format rows first secs) row col ↔ row ∈ rows ∧ col ∈ secs.flatten := by
  induction secs generalizing first with
  | nil => simp [ShownIn, printSections]
  | cons cols secs ih =>
      have hline : ShownIn (rows.map (table.printLine format cols)) row col ↔ row ∈ rows ∧ col ∈ cols := by
        constructor
        · rintro ⟨cs, hcs, c, hc, rfl, rfl⟩
          obtain ⟨row, hrow, hprint⟩ := List.mem_map.mp hcs
          rw [printLine, PrintedLine.cells.injEq] at hprint
          subst hprint
          obtain ⟨k, hk, rfl⟩ := List.mem_map.mp hc
          refine ⟨hrow, (List.mem_append.mp hk).resolve_left fun hheader => ?_⟩
          exact absurd (List.mem_range.mp hheader) (Nat.not_lt.mpr hcol)
        · rintro ⟨hrow, hmem⟩
          refine ⟨_, List.mem_map.mpr ⟨row, hrow, rfl⟩, table.printedCell format row col, ?_, rfl, rfl⟩
          exact List.mem_map.mpr ⟨col, List.mem_append_right _ hmem, rfl⟩
      have happend : ShownIn (table.printSections format rows first (cols :: secs)) row col ↔
          ShownIn (rows.map (table.printLine format cols)) row col ∨
            ShownIn (table.printSections format rows false secs) row col := by
        rw [printSections]
        constructor
        · rintro ⟨cs, hcs, hc⟩
          obtain hcs | hcs := List.mem_append.mp hcs
          · obtain hblank | hcs := List.mem_append.mp hcs
            · split at hblank
              · cases hblank
              · simp at hblank
            · exact Or.inl ⟨cs, hcs, hc⟩
          · exact Or.inr ⟨cs, hcs, hc⟩
        · rintro (⟨cs, hcs, hc⟩ | ⟨cs, hcs, hc⟩)
          · exact ⟨cs, List.mem_append_left _ (List.mem_append_right _ hcs), hc⟩
          · exact ⟨cs, List.mem_append_right _ hcs, hc⟩
      rw [happend, hline, ih, List.flatten_cons, List.mem_append, ← and_or_left]

/-- The row a line is printed for. -/
def lineRow : PrintedLine D → Option Nat
  | .blank => none
  | .cells cs => cs.head?.map (·.row)

/-- The rows are seen from the lines of the first section. -/
theorem rows_of_printSections (hcols : 0 < table.headerCols) {rows rows' : List Nat} {secs secs' : List (List Nat)}
    (hsecs : secs ≠ []) (hsecs' : secs' ≠ [])
    (h : table.printSections format rows true secs = table.printSections format rows' true secs') : rows = rows' := by
  have hrow : ∀ cols row, lineRow (table.printLine format cols row) = some row := by
    intro cols row
    obtain ⟨n, hn⟩ := Nat.exists_eq_add_one.mpr hcols
    rw [printLine, hn, List.range_succ_eq_map]
    rfl
  have hread : ∀ (rows : List Nat) {secs : List (List Nat)}, secs ≠ [] →
      ((table.printSections format rows true secs).map lineRow).takeWhile Option.isSome = rows.map some := by
    intro rows secs hsecs
    obtain ⟨cols, rest, rfl⟩ := List.exists_cons_of_ne_nil hsecs
    have hlines : ((rows.map (table.printLine format cols)).map lineRow) = rows.map some := by
      rw [List.map_map]
      exact List.map_congr_left fun row _ => hrow cols row
    rw [printSections, if_pos rfl, List.nil_append, List.map_append, hlines, List.takeWhile_append_of_pos]
    · cases rest with
      | nil => rw [printSections, List.map_nil, List.takeWhile_nil, List.append_nil]
      | cons cols' rest => exact List.append_nil _
    · intro row hrow
      obtain ⟨row, -, rfl⟩ := List.mem_map.mp hrow
      rfl
  have hmap := (hread rows hsecs).symm.trans ((congrArg _ (congrArg _ h)).trans (hread rows' hsecs'))
  exact List.map_injective_iff.mpr (Option.some_injective Nat) hmap

end Vtab

/-! ### The width of the lines -/

section Width

variable {D : Type}

theorem Cell.length_cellText_le (format : CellFormat D) (c : Cell D) (maxWidth decimalPlaces : Nat) :
    (c.cellText format maxWidth decimalPlaces).length ≤ maxWidth :=
  (List.takeWhile_sublist _).length_le.trans (List.length_take_le _ _)

/-- A cell takes exactly the width of its column. -/
theorem Cell.length_justified (justify : Justify) {width : Nat} {p : List Char} (h : p.length ≤ width) :
    (Cell.justified justify width p).length = width := by
  unfold Cell.justified
  cases justify with
  | left =>
      rw [List.length_append, List.length_replicate]
      omega
  | right =>
      rw [List.length_append, List.length_replicate]
      omega
  | center =>
      simp only [List.length_append, List.length_replicate]
      omega

def PrintedLine.width : PrintedLine D → Nat
  | .blank => 0
  | .cells cs => (cs.map fun c => c.text.length).sum

namespace Vtab

variable {format : CellFormat D} {table : Vtab D}

theorem headerWidth_eq (table : Vtab D) :
    table.headerWidth = ((List.range table.headerCols).map table.colWidth).sum := by
  have hfold (cols : List Nat) (width : Nat) :
      cols.foldl (fun width col => width + table.colWidth col) width = width + (cols.map table.colWidth).sum := by
    induction cols generalizing width with
    | nil => rfl
    | cons col cols ih => rw [List.foldl_cons, ih, List.map_cons, List.sum_cons, Nat.add_assoc]
  rw [headerWidth, hfold, Nat.zero_add]

theorem width_printLine (cols : List Nat) (row : Nat) :
    (table.printLine format cols row).width = table.headerWidth + (cols.map table.colWidth).sum := by
  have htext : ∀ col, (table.printedCell format row col).text.length = table.colWidth col := fun col =>
    Cell.length_justified _ (Cell.length_cellText_le _ _ _ _)
  rw [printLine, PrintedLine.width, List.map_map, headerWidth_eq, ← List.sum_append, ← List.map_append]
  exact congrArg List.sum (List.map_congr_left fun col _ => htext col)

/-- Every row has its place in the row map, as it has from `init_table` on. -/
def MapsAllRows (table : Vtab D) : Prop := ∀ row < table.allRows, ∃ ix < table.allRows, table.rowIxMap ix = row

theorem mapsAllRows_of_id (h : table.rowIxMap = id) : table.MapsAllRows := by
  intro row hrow
  rw [h]
  exact ⟨row, hrow, rfl⟩

/-- Sorting rows of the table moves no row out of it. -/
theorem MapsAllRows.sortRowsDescendingByCol [Zero D] [LinearOrder D] (h : table.MapsAllRows) (format : CellFormat D)
    {startRow stopRow : Nat} (hstop : stopRow < table.allRows) (col : Nat) :
    (table.sortRowsDescendingByCol format startRow stopRow col).MapsAllRows := by
  intro row hrow
  obtain ⟨ix, hix, hmap⟩ := h row hrow
  by_cases hin : startRow ≤ ix ∧ ix ≤ stopRow
  · have hmem : row ∈ SelectionSort.window table.rowIxMap startRow stopRow :=
      List.mem_map.mpr ⟨ix, List.mem_range'_1.mpr (by omega), hmap⟩
    have hsorted : row ∈ SelectionSort.window (table.sortRowsDescendingByCol format startRow stopRow col).rowIxMap
        startRow stopRow := SelectionSort.window_sort.mem_iff.mpr hmem
    obtain ⟨ix', hix', hmap'⟩ := List.mem_map.mp hsorted
    rw [List.mem_range'_1] at hix'
    have hlt : ix' < table.allRows := by omega
    exact ⟨ix', hlt, hmap'⟩
  · exact ⟨ix, hix, (SelectionSort.sort_of_outside (by omega)).trans hmap⟩

/-- The rows with the header are displayed in any case. -/
theorem displayedRows_ne_nil {options : ShowOptions} (hheader : 0 < table.headerRows) (hmap : table.MapsAllRows) :
    table.displayedRows options ≠ [] := by
  obtain ⟨ix, hix, hrow⟩ := hmap 0 (Nat.lt_of_lt_of_le hheader (Nat.le_add_right _ _))
  apply List.ne_nil_of_mem
  refine List.mem_filter.mpr ⟨List.mem_map.mpr ⟨ix, List.mem_range.mpr hix, hrow⟩, ?_⟩
  rw [Bool.or_eq_true]
  exact Or.inl (decide_eq_true hheader)

variable [Zero D] [DecidableEq D]

/-- Past the two messages, what is printed are the sections from the first data column on. -/
theorem displayTable_snd {options : ShowOptions} {screenWidth : Nat}
    (hdata : (table.displayTable format screenWidth options).2 ≠ .noData)
    (hnonZero : (table.displayTable format screenWidth options).2 ≠ .noNonZeroData) :
    (table.displayTable format screenWidth options).2 =
      .lines (table.markData.table.sectionLoop format screenWidth options (table.markData.table.allCols + 1)
        table.markData.table.headerCols (-1)) := by
  rw [displayTable] at hdata hnonZero ⊢
  split
  · next hseen =>
    rw [if_pos hseen] at hdata
    exact absurd rfl hdata
  · next hseen =>
    rw [if_neg hseen] at hnonZero
    split
    · next hzero =>
      rw [if_pos hzero] at hnonZero
      exact absurd rfl hnonZero
    · rfl

theorem displayedRows_markData {options : ShowOptions} (hheader : 0 < table.headerRows) (hmap : table.MapsAllRows) :
    table.markData.table.displayedRows options ≠ [] := by
  have hmarked := table.markData_eq
  refine displayedRows_ne_nil ?_ ?_
  · rw [hmarked]
    exact hheader
  · rw [hmarked]
    exact hmap

/-- Where the table has data to show and no cell leaves its buffer, `display_table` comes to its end, and what it
prints are sections: lines with the same columns for every row displayed. The sections hold the data columns that
are shown, each once and in order. A line that is wider than the screen has a single data column. -/
theorem displayTable_sections (format : CellFormat D) (table : Vtab D) (screenWidth : Nat) (options : ShowOptions)
    (hheader : 0 < table.headerRows) (hmap : table.MapsAllRows)
    (hdata : (table.displayTable format screenWidth options).2 ≠ .noData)
    (hnonZero : (table.displayTable format screenWidth options).2 ≠ .noNonZeroData)
    (hbuffers : table.markData.table.InBuffers options) :
    let marked := table.markData.table
    ∃ secs : List (List Nat),
      (table.displayTable format screenWidth options).2 =
          .lines (some (marked.printSections format (marked.displayedRows options) true secs)) ∧
        secs.flatten = (List.range' table.headerCols table.dataCols).filter (marked.showsCol options) ∧
          ∀ cols ∈ secs, cols ≠ [] ∧
            ∀ row, screenWidth < (marked.printLine format cols row).width → cols.length = 1 := by
  dsimp only
  have hmarked := table.markData_eq
  have hcols : table.markData.table.allCols = table.allCols := by rw [hmarked]; rfl
  have hleft : table.markData.table.headerCols = table.headerCols := by rw [hmarked]
  refine ⟨table.markData.table.sectionCols screenWidth options, ?_, ?_, fun cols hsec => ?_⟩
  · rw [displayTable_snd hdata hnonZero,
      sectionLoop_eq hbuffers (displayedRows_markData hheader hmap) (le_refl _) (by omega)]
    rfl
  · rw [sectionCols, LineLayout.flatten_sections (by omega), LineLayout.line, hcols, hleft]
    have hwidth : table.allCols - table.headerCols = table.dataCols := Nat.add_sub_cancel_left _ _
    rw [hwidth]
  · obtain ⟨hne, hfits | hsingle⟩ := LineLayout.section_fits hsec
    · refine ⟨hne, fun row hwide => absurd hwide ?_⟩
      rw [width_printLine]
      exact Nat.not_lt.mpr hfits
    · exact ⟨hne, fun _ _ => hsingle⟩

/-- It comes to its end only there. -/
theorem displayTable_ends_iff (format : CellFormat D) (table : Vtab D) (screenWidth : Nat) (options : ShowOptions)
    (hheader : 0 < table.headerRows) (hmap : table.MapsAllRows)
    (hdata : (table.displayTable format screenWidth options).2 ≠ .noData)
    (hnonZero : (table.displayTable format screenWidth options).2 ≠ .noNonZeroData) :
    (∃ ls, (table.displayTable format screenWidth options).2 = .lines (some ls)) ↔
      table.markData.table.InBuffers options := by
  have hrows := @displayedRows_markData D table _ _ options hheader hmap
  rw [displayTable_snd hdata hnonZero]
  constructor
  · rintro ⟨ls, hls⟩ row hrow dataCol hcol
    obtain ⟨⟨hle, hlt⟩, hshow⟩ := mem_shownCols.mp hcol
    exact inBuffer_of_sectionLoop hrows (TableOutput.lines.inj hls) row hrow dataCol hle hlt hshow
  · intro hbuffers
    exact ⟨_, congrArg _ (sectionLoop_eq hbuffers hrows (le_refl _) (by omega))⟩

end Vtab

end Width

def plainFormat : CellFormat Nat where
  text _ d := (toString d).toList
  stringBits _ := 1
  repcharBits _ := 1

/-- A number under a dash, in a column with the width `init_table` gives it. -/
def noWidth : Vtab Nat := ((Vtab.initTable 1 1 1 1).repcharAssign 0 1 '-').setCell 1 1 (.double 5)

/-- The dash is repeated `max_width - 1` times, which is not a number of times. -/
theorem not_displayTable_sections_noWidth :
    0 < noWidth.headerRows ∧ noWidth.MapsAllRows ∧
      (noWidth.displayTable plainFormat 80 ⟨false, false, false, false⟩).2 ≠ .noData ∧
        (noWidth.displayTable plainFormat 80 ⟨false, false, false, false⟩).2 ≠ .noNonZeroData ∧
          ¬∃ ls, (noWidth.displayTable plainFormat 80 ⟨false, false, false, false⟩).2 = .lines (some ls) := by
  have hprint : (noWidth.displayTable plainFormat 80 ⟨false, false, false, false⟩).2 = .lines none := rfl
  refine ⟨by decide, Vtab.mapsAllRows_of_id rfl, ?_⟩
  rw [hprint]
  refine ⟨fun h => ?_, fun h => ?_, fun ⟨ls, h⟩ => ?_⟩
  · cases h
  · cases h
  · cases h

/-- A table of two data columns, with nothing in the first. -/
def oneNumber : Vtab Nat :=
  ((((Vtab.initTable 1 1 1 2).setColWidth 0 8).setColWidth 1 8).setColWidth 2 8).setCell 1 2 (.double 5)

theorem displayTable_sections_oneNumber :
    ∃ secs : List (List Nat),
      (oneNumber.displayTable plainFormat 12 ⟨false, false, false, false⟩).2 =
          .lines (some (oneNumber.markData.table.printSections plainFormat [0, 1] true secs)) ∧
        secs.flatten = [2] := by
  obtain ⟨secs, hprint, hflatten, -⟩ := Vtab.displayTable_sections plainFormat oneNumber 12
    ⟨false, false, false, false⟩ (by decide) (Vtab.mapsAllRows_of_id rfl) (by intro h; cases h)
    (by intro h; cases h) (by decide)
  exact ⟨secs, hprint, hflatten⟩

end Numactl
