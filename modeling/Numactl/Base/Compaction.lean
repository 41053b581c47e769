import Mathlib.Data.List.Range
import Mathlib.Logic.Function.Basic
import Mathlib.Order.Lattice

/-! Squeezing an array in place. An element is read at one place and kept at another, behind the elements kept so far,
unless it equals the last of them. The place read is never before the place written, so no element is lost before it
has been read; a sorted array is left with each of its elements once. -/

namespace Compaction

variable {α : Type*}

/-- The array and the place of the last element kept. -/
structure State (α : Type*) where
  array : Nat → α
  ix1 : Nat

/-- The elements up to the place `j` have been read. -/
structure Squeezed (m : Nat → α) (j : Nat) (s : State α) : Prop where
  le : s.ix1 ≤ j
  unread : ∀ k, j < k → s.array k = m k
  last : s.array s.ix1 = m j
  mem_iff : ∀ a, (∃ i ≤ s.ix1, s.array i = a) ↔ ∃ i ≤ j, m i = a

variable {m : Nat → α} {j : Nat} {s : State α}

theorem squeezed_zero (m : Nat → α) : Squeezed m 0 ⟨m, 0⟩ where
  le := Nat.le_refl 0
  unread _ _ := rfl
  last := rfl
  mem_iff _ := Iff.rfl

section

variable [DecidableEq α]

/-- The element at `ix2` is read. -/
def step (s : State α) (ix2 : Nat) : State α :=
  if s.array ix2 = s.array s.ix1 then s
  else
    { array := if s.ix1 + 1 < ix2 then Function.update s.array (s.ix1 + 1) (s.array ix2) else s.array
      ix1 := s.ix1 + 1 }

/-- The `n` elements of an array that is not empty, squeezed. -/
def squeeze (m : Nat → α) (n : Nat) : State α := (List.range' 1 (n - 1)).foldl step ⟨m, 0⟩

/-- What a new element does to the elements kept. -/
theorem step_of_ne (h : Squeezed m j s) (hne : s.array (j + 1) ≠ s.array s.ix1) :
    (step s (j + 1)).ix1 = s.ix1 + 1 ∧ (step s (j + 1)).array (s.ix1 + 1) = m (j + 1) ∧
      ∀ i, i ≠ s.ix1 + 1 → (step s (j + 1)).array i = s.array i := by
  rw [step, if_neg hne]
  have hle := h.le
  refine ⟨rfl, ?_, ?_⟩
  · by_cases hmoves : s.ix1 + 1 < j + 1
    · rw [if_pos hmoves]
      exact (Function.update_self _ _ _).trans (h.unread (j + 1) (Nat.lt_succ_self j))
    · have hplace : s.ix1 + 1 = j + 1 := by omega
      rw [if_neg hmoves]
      show s.array (s.ix1 + 1) = m (j + 1)
      rw [hplace, h.unread (j + 1) (Nat.lt_succ_self j)]
  · intro i hi
    by_cases hmoves : s.ix1 + 1 < j + 1
    · rw [if_pos hmoves]
      exact Function.update_of_ne hi _ _
    · rw [if_neg hmoves]

theorem Squeezed.step (h : Squeezed m j s) : Squeezed m (j + 1) (step s (j + 1)) := by
  have hle := h.le
  have hread : s.array (j + 1) = m (j + 1) := h.unread (j + 1) (Nat.lt_succ_self j)
  have hsplit (a : α) : (∃ i ≤ j + 1, m i = a) ↔ (∃ i ≤ j, m i = a) ∨ m (j + 1) = a := by
    constructor
    · rintro ⟨i, hi, rfl⟩
      rcases Nat.lt_or_ge i (j + 1) with hlt | hge
      · exact Or.inl ⟨i, by omega, rfl⟩
      · exact Or.inr (congrArg m (by omega))
    · rintro (⟨i, hi, rfl⟩ | rfl)
      · exact ⟨i, by omega, rfl⟩
      · exact ⟨j + 1, Nat.le_refl _, rfl⟩
  by_cases heq : s.array (j + 1) = s.array s.ix1
  · rw [Compaction.step, if_pos heq]
    refine ⟨by omega, fun k hk => h.unread k (by omega), by rw [← heq, hread], fun a => ?_⟩
    rw [hsplit, h.mem_iff]
    constructor
    · exact Or.inl
    · rintro (hold | rfl)
      · exact hold
      · exact ⟨j, Nat.le_refl j, by rw [← h.last, ← heq, hread]⟩
  · obtain ⟨hix, hnew, hother⟩ := step_of_ne h heq
    refine ⟨by omega, fun k hk => ?_, by rw [hix, hnew], fun a => ?_⟩
    · rw [hother k (by omega), h.unread k (by omega)]
    · rw [hsplit, ← h.mem_iff, hix]
      constructor
      · rintro ⟨i, hi, rfl⟩
        rcases Nat.lt_or_ge i (s.ix1 + 1) with hlt | hge
        · exact Or.inl ⟨i, by omega, (hother i (by omega)).symm⟩
        · obtain rfl : i = s.ix1 + 1 := by omega
          exact Or.inr hnew.symm
      · rintro (⟨i, hi, rfl⟩ | rfl)
        · exact ⟨i, by omega, hother i (by omega)⟩
        · exact ⟨s.ix1 + 1, Nat.le_refl _, hnew⟩

theorem squeezed (m : Nat → α) (j : Nat) : Squeezed m j (squeeze m (j + 1)) := by
  rw [squeeze, Nat.add_sub_cancel]
  induction j with
  | zero => exact squeezed_zero m
  | succ j ih =>
      rw [List.range'_concat, List.foldl_concat, Nat.one_mul, Nat.add_comm 1 j]
      exact ih.step

end

/-! ### Sorted arrays -/

variable [LinearOrder α] {m : Nat → α} {j : Nat} {s : State α}

/-- The elements kept are in strictly ascending order. -/
def Ascending (s : State α) : Prop := ∀ i k, i < k → k ≤ s.ix1 → s.array i < s.array k

theorem Ascending.step (h : Squeezed m j s) (hasc : Ascending s) (hle : m j ≤ m (j + 1)) :
    Ascending (step s (j + 1)) := by
  by_cases heq : s.array (j + 1) = s.array s.ix1
  · rw [Compaction.step, if_pos heq]
    exact hasc
  · obtain ⟨hix, hnew, hother⟩ := step_of_ne h heq
    have hlt : s.array s.ix1 < m (j + 1) := by
      have hread := h.unread (j + 1) (Nat.lt_succ_self j)
      rw [hread] at heq
      exact lt_of_le_of_ne (h.last ▸ hle) fun hsame => heq hsame.symm
    intro i k hik hk
    rw [hix] at hk
    rw [hother i (by omega)]
    rcases Nat.lt_or_ge k (s.ix1 + 1) with hklt | hkge
    · rw [hother k (by omega)]
      exact hasc i k hik (by omega)
    · obtain rfl : k = s.ix1 + 1 := by omega
      rw [hnew]
      rcases Nat.lt_or_ge i s.ix1 with hilt | hige
      · exact (hasc i s.ix1 hilt (Nat.le_refl _)).trans hlt
      · obtain rfl : i = s.ix1 := by omega
        exact hlt

theorem ascending_squeeze (hsorted : ∀ i < j, m i ≤ m (i + 1)) : Ascending (squeeze m (j + 1)) := by
  induction j with
  | zero =>
      intro i k hik hk
      exact absurd hik (by rw [Nat.le_zero.mp hk]; exact Nat.not_lt_zero i)
  | succ j ih =>
      have hthis := (ih fun i hi => hsorted i (by omega)).step (squeezed m j) (hsorted j (Nat.lt_succ_self j))
      have hnext : squeeze m (j + 1 + 1) = step (squeeze m (j + 1)) (j + 1) := by
        rw [squeeze, squeeze, Nat.add_sub_cancel, Nat.add_sub_cancel, List.range'_concat, List.foldl_concat, Nat.one_mul,
          Nat.add_comm 1 j]
      rw [hnext]
      exact hthis

/-- The elements kept. -/
def kept (s : State α) : List α := (List.range (s.ix1 + 1)).map s.array

/-- A sorted array is left with each of its elements once, in their order. -/
theorem kept_squeeze (hsorted : ∀ i < j, m i ≤ m (i + 1)) :
    (kept (squeeze m (j + 1))).Pairwise (· < ·) ∧ ∀ a, a ∈ kept (squeeze m (j + 1)) ↔ ∃ i ≤ j, m i = a := by
  constructor
  · rw [kept, List.pairwise_map]
    apply List.Pairwise.imp_of_mem _ List.pairwise_lt_range
    intro i k _ hk hik
    exact ascending_squeeze hsorted i k hik (Nat.le_of_lt_succ (List.mem_range.mp hk))
  · intro a
    rw [← (squeezed m j).mem_iff, kept, List.mem_map]
    constructor
    · rintro ⟨i, hi, rfl⟩
      exact ⟨i, Nat.le_of_lt_succ (List.mem_range.mp hi), rfl⟩
    · rintro ⟨i, hi, rfl⟩
      exact ⟨i, List.mem_range.mpr (Nat.lt_succ_of_le hi), rfl⟩

end Compaction
