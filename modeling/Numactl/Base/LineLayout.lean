import Mathlib.Algebra.GroupWithZero.Nat
import Mathlib.Data.List.Range
import Mathlib.Order.Basic

/-! Columns folded into sections that fit a screen. Some of the columns are shown, each has a width, and every
line of a section starts with a header. A section starts with a column that is shown and takes columns while the
next one still fits, shown or not. -/

namespace LineLayout

variable (shows : Nat → Bool) (width : Nat → Nat) (columns headerWidth screenWidth : Nat)

/-- The column after the last of a line that has got to `col`, with at most so many of them left. -/
def lineEnd : Nat → Nat → Nat → Nat
  | 0, col, _ => col
  | left + 1, col, lineWidth =>
      let lineWidth := if shows col then lineWidth + width col else lineWidth
      if columns ≤ col + 1 ∨ screenWidth < lineWidth + width (col + 1) then col + 1
      else lineEnd left (col + 1) lineWidth

/-- The columns shown in a line that starts at `col`. -/
def line (col next : Nat) : List Nat := (List.range' col (next - col)).filter shows

/-- The columns of each section from `col` on. -/
def sections : Nat → Nat → List (List Nat)
  | 0, _ => []
  | fuel + 1, col =>
      if columns ≤ col then []
      else if ¬shows col then sections fuel (col + 1)
      else
        let next := lineEnd shows width columns screenWidth (columns - col) col headerWidth
        line shows col next :: sections fuel next

variable {shows width columns headerWidth screenWidth}

theorem lineEnd_bounds {left col lineWidth : Nat} (hleft : col + left = columns) (hpos : 0 < left) :
    col < lineEnd shows width columns screenWidth left col lineWidth ∧
      lineEnd shows width columns screenWidth left col lineWidth ≤ columns := by
  induction left generalizing col lineWidth with
  | zero => omega
  | succ left ih =>
      rw [lineEnd]
      generalize (if shows col then lineWidth + width col else lineWidth) = lineWidth
      split
      · omega
      · next hmore =>
        rw [not_or, not_le] at hmore
        obtain ⟨hlt, hle⟩ := @ih (col + 1) lineWidth (by omega) (by omega)
        exact ⟨by omega, hle⟩

theorem line_cons {col next : Nat} (h : col < next) :
    line shows col next = (if shows col then [col] else []) ++ line shows (col + 1) next := by
  rw [line, line, ← Nat.succ_pred_eq_of_pos (Nat.sub_pos_of_lt h), List.range'_succ, List.filter_cons, ← Nat.sub_one,
    Nat.sub_sub]
  split
  · rfl
  · rfl

theorem line_append {col next last : Nat} (h : col ≤ next) (hnext : next ≤ last) :
    line shows col next ++ line shows next last = line shows col last := by
  rw [line, line, line, ← List.filter_append]
  congr 1
  have happend := @List.range'_append_1 col (next - col) (last - next)
  have hlen : next - col + (last - next) = last - col := by omega
  rwa [Nat.add_sub_cancel' h, hlen] at happend

/-- The sections together hold the columns shown, each once and in order. -/
theorem flatten_sections {fuel col : Nat} (hfuel : columns - col < fuel) :
    (sections shows width columns headerWidth screenWidth fuel col).flatten = line shows col columns := by
  induction fuel generalizing col with
  | zero => omega
  | succ fuel ih =>
      rw [sections]
      split
      · next hend =>
        rw [line, Nat.sub_eq_zero_of_le hend]
        rfl
      · next hmore =>
        have hlt : col < columns := Nat.lt_of_not_le hmore
        split
        · next hhidden =>
          rw [ih (by omega), line_cons hlt, if_neg hhidden, List.nil_append]
        · have hbounds := @lineEnd_bounds shows width columns screenWidth (columns - col) col headerWidth (by omega)
            (by omega)
          rw [List.flatten_cons, ih (by omega)]
          exact line_append hbounds.1.le hbounds.2

/-- Where the next column still fits, shown or not, so does the rest of the line. -/
theorem sum_width_line_le {left col lineWidth : Nat} (hleft : col + left = columns) (hpos : 0 < left)
    (hfit : lineWidth + width col ≤ screenWidth) :
    lineWidth + ((line shows col (lineEnd shows width columns screenWidth left col lineWidth)).map width).sum ≤
      screenWidth := by
  induction left generalizing col lineWidth with
  | zero => omega
  | succ left ih =>
      have hbounds := @lineEnd_bounds shows width columns screenWidth (left + 1) col lineWidth hleft hpos
      rw [line_cons hbounds.1, List.map_append, List.sum_append, lineEnd, ← Nat.add_assoc]
      have hfirst : lineWidth + ((if shows col = true then [col] else []).map width).sum =
          if shows col = true then lineWidth + width col else lineWidth := by
        split
        · rw [List.map_singleton, List.sum_singleton]
        · rfl
      have hle : (if shows col = true then lineWidth + width col else lineWidth) ≤ screenWidth := by
        split
        · exact hfit
        · omega
      rw [hfirst]
      generalize (if shows col = true then lineWidth + width col else lineWidth) = lineWidth' at hle
      split
      · rw [line, Nat.sub_self]
        exact hle
      · next hmore =>
        rw [not_or, not_le, not_lt] at hmore
        exact ih (by omega) (by omega) hmore.2

/-- A section has columns, and either fits the screen or is a single column. -/
theorem section_fits {fuel col : Nat} {cols : List Nat}
    (hmem : cols ∈ sections shows width columns headerWidth screenWidth fuel col) :
    cols ≠ [] ∧ (headerWidth + (cols.map width).sum ≤ screenWidth ∨ cols.length = 1) := by
  induction fuel generalizing col with
  | zero => cases hmem
  | succ fuel ih =>
      rw [sections] at hmem
      by_cases hend : columns ≤ col
      · rw [if_pos hend] at hmem
        cases hmem
      rw [if_neg hend] at hmem
      by_cases hshown : shows col = true
      · rw [if_neg (not_not.mpr hshown)] at hmem
        obtain rfl | hmem := List.mem_cons.mp hmem
        · obtain ⟨left, hleft⟩ : ∃ left, columns - col = left + 1 := ⟨columns - col - 1, by omega⟩
          have hbounds := @lineEnd_bounds shows width columns screenWidth (columns - col) col headerWidth (by omega)
            (by omega)
          rw [line_cons hbounds.1, if_pos hshown]
          refine ⟨List.cons_ne_nil _ _, ?_⟩
          rw [hleft, lineEnd, if_pos hshown]
          split
          · rw [line, Nat.sub_self]
            exact Or.inr rfl
          · next hmore =>
            rw [not_or, not_le, not_lt] at hmore
            rw [List.singleton_append, List.map_cons, List.sum_cons, ← Nat.add_assoc]
            exact Or.inl (sum_width_line_le (by omega) (by omega) hmore.2)
        · exact ih hmem
      · rw [if_pos hshown] at hmem
        exact ih hmem

theorem lineEnd_congr {shows' : Nat → Bool} {left col lineWidth : Nat} (hleft : col + left = columns)
    (h : ∀ k, col ≤ k → k < columns → shows k = shows' k) :
    lineEnd shows width columns screenWidth left col lineWidth =
      lineEnd shows' width columns screenWidth left col lineWidth := by
  induction left generalizing col lineWidth with
  | zero => rfl
  | succ left ih =>
      rw [lineEnd, lineEnd, h col (le_refl col) (by omega)]
      generalize (if shows' col then lineWidth + width col else lineWidth) = lineWidth
      rw [ih (by omega) fun k hk => h k (by omega)]

theorem line_congr {shows' : Nat → Bool} {col next : Nat} (h : ∀ k, col ≤ k → k < next → shows k = shows' k) :
    line shows col next = line shows' col next := by
  apply List.filter_congr
  intro k hk
  rw [List.mem_range'_1] at hk
  exact h k hk.1 (by omega)

/-- Only which of the columns from `col` on are shown matters. -/
theorem sections_congr {shows' : Nat → Bool} {fuel col : Nat} (h : ∀ k, col ≤ k → k < columns → shows k = shows' k) :
    sections shows width columns headerWidth screenWidth fuel col =
      sections shows' width columns headerWidth screenWidth fuel col := by
  induction fuel generalizing col with
  | zero => rfl
  | succ fuel ih =>
      rw [sections, sections]
      by_cases hend : columns ≤ col
      · rw [if_pos hend, if_pos hend]
      · have hnext : lineEnd shows width columns screenWidth (columns - col) col headerWidth =
            lineEnd shows' width columns screenWidth (columns - col) col headerWidth :=
          lineEnd_congr (by omega) h
        have hbounds := @lineEnd_bounds shows' width columns screenWidth (columns - col) col headerWidth (by omega)
          (by omega)
        rw [if_neg hend, if_neg hend, h col (le_refl col) (by omega), ih fun k hk => h k (by omega), hnext]
        generalize lineEnd shows' width columns screenWidth (columns - col) col headerWidth = next at hbounds
        dsimp only
        rw [ih fun k hk => h k (by omega), line_congr fun k hk hlt => h k hk (by omega)]

end LineLayout
