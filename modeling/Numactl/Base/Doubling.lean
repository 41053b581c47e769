import Mathlib.Algebra.GroupWithZero.Nat

/-! Searching for a size by doubling. A size is tried, and doubled while the answer asks for more and a limit is
not reached; the search stops with the first size that is enough or not below the limit. The number of sizes tried
is bounded by fuel, and a logarithm of the limit is enough. -/

namespace Doubling

variable {retry : Nat → Bool} {limit : Nat}

/-- The size the search stops with, from `size` on. -/
def search (retry : Nat → Bool) (limit : Nat) : Nat → Nat → Option Nat
  | 0, _ => none
  | fuel + 1, size => if retry size = true ∧ size < limit then search retry limit fuel (2 * size) else some size

/-- The search goes on behind `size`. -/
def GoesOn (retry : Nat → Bool) (limit size : Nat) : Prop := retry size = true ∧ size < limit

/-- The search has tried the first `j` doublings and stopped behind them. -/
structure StopsAt (retry : Nat → Bool) (limit start j : Nat) : Prop where
  goesOn : ∀ i < j, GoesOn retry limit (2 ^ i * start)
  stops : ¬GoesOn retry limit (2 ^ j * start)

theorem stopsAt_zero {start : Nat} (h : ¬GoesOn retry limit start) : StopsAt retry limit start 0 where
  goesOn i hi := absurd hi (Nat.not_lt_zero i)
  stops := by rwa [Nat.pow_zero, Nat.one_mul]

theorem StopsAt.succ {start j : Nat} (hstart : GoesOn retry limit start) (h : StopsAt retry limit (2 * start) j) :
    StopsAt retry limit start (j + 1) where
  goesOn i hi := by
    cases i with
    | zero => rwa [Nat.pow_zero, Nat.one_mul]
    | succ i =>
        rw [Nat.pow_succ, Nat.mul_assoc]
        exact h.goesOn i (by omega)
  stops := by
    rw [Nat.pow_succ, Nat.mul_assoc]
    exact h.stops

theorem search_eq_some {fuel start r : Nat} (h : search retry limit fuel start = some r) :
    ∃ j < fuel, r = 2 ^ j * start ∧ StopsAt retry limit start j := by
  induction fuel generalizing start with
  | zero => cases h
  | succ fuel ih =>
      rw [search] at h
      by_cases hgoes : retry start = true ∧ start < limit
      · rw [if_pos hgoes] at h
        obtain ⟨j, hj, rfl, hstops⟩ := ih h
        exact ⟨j + 1, by omega, by rw [Nat.pow_succ, Nat.mul_assoc], hstops.succ hgoes⟩
      · rw [if_neg hgoes] at h
        cases h
        exact ⟨0, Nat.succ_pos fuel, by rw [Nat.pow_zero, Nat.one_mul], stopsAt_zero hgoes⟩

/-- Fuel for all the sizes below the limit is enough. -/
theorem exists_search {fuel start : Nat} (h : limit ≤ 2 ^ fuel * start) :
    ∃ r, search retry limit (fuel + 1) start = some r := by
  induction fuel generalizing start with
  | zero =>
      rw [Nat.pow_zero, Nat.one_mul] at h
      exact ⟨start, if_neg fun hgoes => absurd hgoes.2 (by omega)⟩
  | succ fuel ih =>
      rw [search]
      by_cases hgoes : retry start = true ∧ start < limit
      · rw [if_pos hgoes]
        exact ih (by rwa [← Nat.mul_assoc, ← Nat.pow_succ])
      · rw [if_neg hgoes]
        exact ⟨start, rfl⟩

theorem StopsAt.unique {start i j : Nat} (h : StopsAt retry limit start i) (h' : StopsAt retry limit start j) : i = j := by
  rcases Nat.lt_trichotomy i j with hlt | rfl | hlt
  · exact absurd (h'.goesOn i hlt) h.stops
  · rfl
  · exact absurd (h.goesOn j hlt) h'.stops

/-! ### Thresholds -/

/-- Where the sizes below `need` are too small, the search stops with enough, or at the limit, and has not gone
beyond twice as far as it had to. -/
theorem StopsAt.threshold {need start j : Nat} (h : StopsAt (fun size => decide (size < need)) limit start j) :
    (need ≤ 2 ^ j * start ∨ limit ≤ 2 ^ j * start) ∧
      (j = 0 ∨ 2 ^ j * start < 2 * need ∧ 2 ^ j * start < 2 * limit) := by
  refine ⟨?_, ?_⟩
  · have hstops := h.stops
    unfold GoesOn at hstops
    rw [decide_eq_true_eq] at hstops
    omega
  · cases j with
    | zero => exact Or.inl rfl
    | succ j =>
        have hlast := h.goesOn j (Nat.lt_succ_self j)
        unfold GoesOn at hlast
        rw [decide_eq_true_eq] at hlast
        rw [Nat.pow_succ, Nat.mul_comm (2 ^ j) 2, Nat.mul_assoc]
        exact Or.inr (by omega)

/-- With a limit among the doublings of the start, the search finds enough exactly if the limit is. -/
theorem StopsAt.need_le_iff {need start i j : Nat} (hlimit : limit = 2 ^ i * start)
    (h : StopsAt (fun size => decide (size < need)) limit start j) : need ≤ 2 ^ j * start ↔ need ≤ limit := by
  have hle : 2 ^ j * start ≤ limit := by
    cases j with
    | zero =>
        rw [hlimit]
        exact Nat.mul_le_mul_right start (Nat.pow_le_pow_right (by decide) (Nat.zero_le i))
    | succ j =>
        have hlast := (h.goesOn j (Nat.lt_succ_self j)).2
        rw [hlimit] at hlast ⊢
        have hji : j < i := Nat.lt_of_not_le fun hij =>
          absurd (Nat.mul_le_mul_right start (Nat.pow_le_pow_right (by decide : 0 < 2) hij)) (Nat.not_le.mpr hlast)
        exact Nat.mul_le_mul_right start (Nat.pow_le_pow_right (by decide) hji)
  refine ⟨fun hneed => Nat.le_trans hneed hle, fun hneed => ?_⟩
  rcases h.threshold.1 with henough | hlim
  · exact henough
  · exact Nat.le_trans hneed hlim

end Doubling
