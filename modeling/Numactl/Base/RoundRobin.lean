import Mathlib.Data.Finset.Basic
import Mathlib.Data.Finset.Max
import Mathlib.Data.Nat.Find

/-! Going round a set of numbers below a bound. From a number on, the first member of the set is the least one
that is not smaller, or, behind the last of them, the least of all. A search tests one number after the other
and goes on at 0 behind the bound. -/

namespace RoundRobin

/-- `m` is the first member of the set from `lo` on. -/
inductive FirstFrom (s : Finset Nat) (lo m : Nat) : Prop
  | ahead (hm : m ∈ s) (hlo : lo ≤ m) (hleast : ∀ i ∈ s, lo ≤ i → m ≤ i)
  | around (hm : m ∈ s) (hnone : ∀ i ∈ s, i < lo) (hleast : ∀ i ∈ s, m ≤ i)

/-- The search; `none` where it does not end within the fuel. -/
def search (p : Nat → Bool) (n : Nat) : Nat → Nat → Option Nat
  | 0, _ => none
  | fuel + 1, cur => if p cur then some cur else search p n fuel ((cur + 1) % n)

variable {s : Finset Nat} {lo m m' n : Nat}

namespace FirstFrom

theorem mem (h : FirstFrom s lo m) : m ∈ s := by
  cases h with
  | ahead hm _ _ => exact hm
  | around hm _ _ => exact hm

theorem unique (h : FirstFrom s lo m) (h' : FirstFrom s lo m') : m = m' := by
  cases h with
  | ahead hm hlo hleast =>
      cases h' with
      | ahead hm' hlo' hleast' => exact le_antisymm (hleast m' hm' hlo') (hleast' m hm hlo)
      | around _ hnone _ => exact absurd (hnone m hm) hlo.not_gt
  | around hm hnone hleast =>
      cases h' with
      | ahead hm' hlo' _ => exact absurd (hnone m' hm') hlo'.not_gt
      | around hm' _ hleast' => exact le_antisymm (hleast m' hm') (hleast' m hm)

/-- Behind the last member the search for the first one starts again. -/
theorem of_zero (h : FirstFrom s 0 m) (hnone : ∀ i ∈ s, i < lo) : FirstFrom s lo m := by
  cases h with
  | ahead hm _ hleast => exact .around hm hnone fun i hi => hleast i hi (Nat.zero_le i)
  | around hm hzero _ => exact absurd (hzero m hm) (Nat.not_lt_zero m)

theorem exists_ahead (h : ∃ i ∈ s, lo ≤ i) : ∃ m, FirstFrom s lo m ∧ lo ≤ m := by
  have hex : ∃ i, i ∈ s ∧ lo ≤ i := h
  obtain ⟨hmem, hlo⟩ := Nat.find_spec hex
  exact ⟨Nat.find hex, .ahead hmem hlo fun i hi hle => Nat.find_min' hex ⟨hi, hle⟩, hlo⟩

end FirstFrom

variable {p : Nat → Bool} {fuel cur : Nat}

theorem search_of_true (h : p cur = true) : search p n (fuel + 1) cur = some cur := by
  rw [search, if_pos h]

theorem search_of_false (h : p cur = false) :
    search p n (fuel + 1) cur = search p n fuel ((cur + 1) % n) := by
  rw [search, if_neg (Bool.eq_false_iff.mp h)]

/-- Numbers below the bound that are not in the set are passed over one by one. -/
theorem search_skip {d : Nat} (hd : cur + d < n) (hnone : ∀ i, cur ≤ i → i < cur + d → p i = false) :
    search p n (fuel + d) cur = search p n fuel (cur + d) := by
  induction d generalizing cur with
  | zero => rfl
  | succ d ih =>
      have hfalse := hnone cur le_rfl (by omega)
      have hmod : (cur + 1) % n = cur + 1 := Nat.mod_eq_of_lt (by omega)
      calc search p n (fuel + (d + 1)) cur = search p n (fuel + d) (cur + 1) := by
            rw [← Nat.add_assoc, search_of_false hfalse, hmod]
        _ = search p n fuel (cur + 1 + d) := ih (by omega) fun i hlo hhi => hnone i (by omega) (by omega)
        _ = search p n fuel (cur + (d + 1)) := by rw [Nat.add_assoc, Nat.add_comm 1 d]

theorem search_ahead (hp : ∀ i, p i = true ↔ i ∈ s) (hlt : ∀ i ∈ s, i < n) (h : FirstFrom s lo m) (hlo : lo ≤ m)
    (hfuel : m - lo < fuel) : search p n fuel lo = some m := by
  have hbetween : ∀ i, lo ≤ i → i < lo + (m - lo) → p i = false := by
    intro i hi hlt
    refine Bool.eq_false_iff.mpr fun htrue => ?_
    cases h with
    | ahead _ _ hleast => exact absurd (hleast i ((hp i).mp htrue) hi) (by omega)
    | around _ hnone _ => exact absurd (hnone i ((hp i).mp htrue)) (by omega)
  obtain ⟨rest, rfl⟩ : ∃ rest, fuel = rest + 1 + (m - lo) := ⟨fuel - 1 - (m - lo), by omega⟩
  have hm : lo + (m - lo) = m := by omega
  rw [search_skip (by rw [hm]; exact hlt m h.mem) hbetween, hm]
  exact search_of_true ((hp m).mpr h.mem)

/-- From a number below the bound, the search finds the first member of a set that is not empty. -/
theorem exists_search (hp : ∀ i, p i = true ↔ i ∈ s) (hlt : ∀ i ∈ s, i < n) (hs : s.Nonempty) (hlo : lo < n)
    (hfuel : n + 1 ≤ fuel) : ∃ m, search p n fuel lo = some m ∧ FirstFrom s lo m := by
  by_cases hex : ∃ i ∈ s, lo ≤ i
  · obtain ⟨m, hm, hle⟩ := FirstFrom.exists_ahead hex
    have hmn := hlt m hm.mem
    exact ⟨m, search_ahead hp hlt hm hle (by omega), hm⟩
  · have hnone : ∀ i ∈ s, i < lo := fun i hi => Nat.lt_of_not_ge fun hle => hex ⟨i, hi, hle⟩
    obtain ⟨i, hi⟩ := hs
    obtain ⟨m, hm, -⟩ := FirstFrom.exists_ahead ⟨i, hi, Nat.zero_le i⟩
    have hmlo := hnone m hm.mem
    have hfalse : ∀ i, lo ≤ i → p i = false := fun i hle =>
      Bool.eq_false_iff.mpr fun htrue => absurd (hnone i ((hp i).mp htrue)) hle.not_gt
    obtain ⟨rest, rfl⟩ : ∃ rest, fuel = rest + 1 + (n - 1 - lo) := ⟨fuel - 1 - (n - 1 - lo), by omega⟩
    have hlast : lo + (n - 1 - lo) = n - 1 := by omega
    refine ⟨m, ?_, hm.of_zero hnone⟩
    calc search p n (rest + 1 + (n - 1 - lo)) lo = search p n (rest + 1) (n - 1) := by
          rw [search_skip (by omega) fun i hle _ => hfalse i hle, hlast]
      _ = search p n rest 0 := by
          rw [search_of_false (hfalse (n - 1) (by omega)), Nat.sub_add_cancel (by omega), Nat.mod_self]
      _ = some m := search_ahead hp hlt hm (Nat.zero_le m) (by omega)

end RoundRobin
