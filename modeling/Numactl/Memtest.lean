import Numactl.MersenneTwister

/-! The kernels of `memtest` in `numademo.c` that go over the memory in steps: `FORWARD`, `BACKWARD` and `RANDOM2`. The
first touches every cache line once and the second the same ones except for some sizes. The third increments as many
words as it counts, each within the memory, at the places the generator names. -/

namespace Numactl
namespace Numademo

/-! ### Cache lines -/

/-- `CACHELINESIZE`. -/
def cachelineSize : Nat := 64

/-- The loop of `FORWARD` from `k` on: the bytes it increments. -/
def forward (msize k : Nat) : List Nat :=
  if k < msize then k :: forward msize (k + 64) else []
termination_by msize - k

/-- The loop of `BACKWARD` from `k` down: the bytes it decrements. `k` is signed. -/
def backward (k : Int) : List Nat :=
  if 0 < k then k.toNat :: backward (k - 64) else []
termination_by k.toNat

/-- The cache line of a byte. -/
def cacheline (k : Nat) : Nat := k / cachelineSize

def lineCount (msize : Nat) : Nat := (msize + 63) / 64

theorem forward_lines (msize j : Nat) :
    (forward msize (64 * j)).map cacheline = List.range' j (lineCount msize - j) := by
  generalize hleft : lineCount msize - j = left
  induction left generalizing j with
  | zero =>
      rw [forward, if_neg (by unfold lineCount at hleft; omega)]
      rfl
  | succ left ih =>
      have hthis : cacheline (64 * j) = j := by
        rw [cacheline, cachelineSize]
        omega
      rw [forward, if_pos (by unfold lineCount at hleft; omega), List.map_cons, List.range'_succ, hthis,
        show 64 * j + 64 = 64 * (j + 1) by omega, ih (j + 1) (by omega)]

theorem lt_of_mem_forward {msize k i : Nat} (h : i ∈ forward msize k) : i < msize := by
  induction k using forward.induct msize with
  | case1 k hlt ih =>
      rw [forward, if_pos hlt, List.mem_cons] at h
      rcases h with rfl | htail
      · exact hlt
      · exact ih htail
  | case2 k hge =>
      rw [forward, if_neg hge] at h
      cases h

/-- The bytes of `BACKWARD` lie in the lines from the first byte's one down, one in each. -/
theorem backward_lines (r j : Nat) (hr : r < 64) :
    (backward (64 * j + r : Nat)).map cacheline =
      (List.range' (if r = 0 then 1 else 0) (if r = 0 then j else j + 1)).reverse := by
  induction j with
  | zero =>
      rw [backward]
      by_cases h0 : r = 0
      · rw [if_neg (by omega), if_pos h0, if_pos h0]
        rfl
      · rw [if_pos (by omega), if_neg h0, if_neg h0, backward, if_neg (by omega)]
        show [cacheline (64 * 0 + r)] = [0]
        rw [cacheline, cachelineSize, show (64 * 0 + r) / 64 = 0 by omega]
  | succ j ih =>
      have hthis : cacheline (64 * (j + 1) + r) = j + 1 := by
        rw [cacheline, cachelineSize]
        omega
      have hrest : ((64 * (j + 1) + r : Nat) : Int) - 64 = (64 * j + r : Nat) := by omega
      rw [backward, if_pos (by omega), List.map_cons, hrest, ih, Int.toNat_natCast, hthis]
      have hconcat (first count : Nat) (hnext : j + 1 = first + count) :
          (List.range' first (count + 1)).reverse = (j + 1) :: (List.range' first count).reverse := by
        rw [List.range'_concat, List.reverse_concat, Nat.one_mul, hnext]
      by_cases h0 : r = 0
      · rw [if_pos h0, if_pos h0, if_pos h0, hconcat 1 j (Nat.add_comm j 1)]
      · rw [if_neg h0, if_neg h0, if_neg h0, hconcat 0 (j + 1) (Nat.zero_add _).symm]

theorem lt_of_mem_backward {k : Int} {i : Nat} (h : i ∈ backward k) : (i : Int) ≤ k := by
  induction k using backward.induct with
  | case1 k hpos ih =>
      rw [backward, if_pos hpos, List.mem_cons] at h
      rcases h with rfl | htail
      · omega
      · have hthis := ih htail
        omega
  | case2 k hneg =>
      rw [backward, if_neg hneg] at h
      cases h

/-- `BACKWARD` starts five bytes before the end. It takes every line where the last one has more than five bytes, all
but the first where the start is the first byte of the last, and all but the last otherwise. -/
theorem backward_lines_eq (msize : Nat) :
    (backward ((msize : Int) - 5)).map cacheline =
      (if msize % 64 = 0 ∨ 5 < msize % 64 then List.range' 0 (lineCount msize)
        else if msize % 64 = 5 then List.range' 1 (lineCount msize - 1)
        else List.range' 0 (lineCount msize - 1)).reverse := by
  unfold lineCount
  by_cases hsmall : msize < 5
  · have hnone : backward ((msize : Int) - 5) = [] := by rw [backward, if_neg (by omega)]
    rw [hnone]
    by_cases hzero : msize = 0
    · rw [if_pos (by omega), hzero]
      rfl
    · rw [if_neg (by omega), if_neg (by omega), show (msize + 63) / 64 - 1 = 0 by omega]
      rfl
  · obtain ⟨j, r, hr, hsize⟩ : ∃ j r, r < 64 ∧ msize = 64 * j + r + 5 :=
      ⟨(msize - 5) / 64, (msize - 5) % 64, by omega⟩
    have hfirst : (msize : Int) - 5 = (64 * j + r : Nat) := by omega
    rw [hfirst, backward_lines r j hr]
    by_cases h0 : r = 0
    · rw [if_pos h0, if_pos h0, if_neg (by omega), if_pos (by omega), show (msize + 63) / 64 - 1 = j by omega]
    · rw [if_neg h0, if_neg h0]
      by_cases hall : msize % 64 = 0 ∨ 5 < msize % 64
      · rw [if_pos hall, show (msize + 63) / 64 = j + 1 by omega]
      · rw [if_neg hall, if_neg (by omega), show (msize + 63) / 64 - 1 = j + 1 by omega]

/-- `FORWARD` increments a byte of each cache line of the memory, in order. `BACKWARD` stays within the memory as well,
and comes back over the same lines exactly if the last line has more than five bytes of it: otherwise it starts in the
line before, or ends before the first one, whose turn is at byte 0. -/
theorem backward_lines_iff (msize : Nat) :
    (forward msize 0).map cacheline = List.range (lineCount msize) ∧
      (∀ i ∈ forward msize 0 ++ backward ((msize : Int) - 5), i < msize) ∧
      ((backward ((msize : Int) - 5)).map cacheline = ((forward msize 0).map cacheline).reverse ↔
        msize % 64 = 0 ∨ 5 < msize % 64) ∧
      (msize % 64 = 5 →
        (backward ((msize : Int) - 5)).map cacheline = ((forward msize 0).map cacheline).tail.reverse) ∧
      (0 < msize % 64 → msize % 64 < 5 →
        (backward ((msize : Int) - 5)).map cacheline = ((forward msize 0).map cacheline).dropLast.reverse) := by
  have hforward : (forward msize 0).map cacheline = List.range' 0 (lineCount msize) := forward_lines msize 0
  rw [hforward, backward_lines_eq]
  refine ⟨List.range_eq_range'.symm, fun i hi => ?_, ⟨fun h => ?_, fun hall => by rw [if_pos hall]⟩, fun hfive => ?_,
    fun hpos hfew => ?_⟩
  · obtain hi | hi := List.mem_append.mp hi
    · exact lt_of_mem_forward hi
    · have hle := lt_of_mem_backward hi
      omega
  · by_contra hnot
    have hlength := congrArg List.length h
    rw [if_neg hnot, List.length_reverse, List.length_reverse, List.length_range', lineCount] at hlength
    split at hlength
    · rw [List.length_range'] at hlength
      omega
    · rw [List.length_range'] at hlength
      omega
  · rw [if_neg (by omega), if_pos hfive, List.tail_range']
  · obtain ⟨n, hn⟩ : ∃ n, lineCount msize = n + 1 := ⟨lineCount msize - 1, by unfold lineCount; omega⟩
    rw [if_neg (by omega), if_neg (by omega), hn, List.range'_concat, List.dropLast_concat, Nat.add_sub_cancel]

/-! ### Random words -/

/-- The loop that widens the mask, with fuel. -/
def maskLoop (max : BitVec 32) : Nat → BitVec 32 → Option (BitVec 32)
  | 0, _ => none
  | fuel + 1, mask => if mask < max then maskLoop max fuel (mask <<< 1 ||| 1) else some mask

/-- The word incremented for a random number. -/
def random2Index (max mask w : BitVec 32) : BitVec 32 :=
  let idx := w &&& mask
  if max ≤ idx then idx - max else idx

/-- The `k` rounds left of the loop, `none` where a word outside the memory is incremented. -/
def random2Loop (max mask : BitVec 32) : Nat → Mt → List (BitVec 32) → Option (List (BitVec 32))
  | 0, _, m => some m
  | k + 1, s, m => do
      let (w, s) ← mtRandom s
      let idx := (random2Index max mask w).toNat
      let word ← m[idx]?
      random2Loop max mask k s (m.set idx (word + 1))

/-- `RANDOM2` on memory of `m.length` words, a number that is cut to 32 bits. -/
def random2 (rand : Nat → BitVec 32) (m : List (BitVec 32)) : Option (List (BitVec 32)) := do
  let max := BitVec.ofNat 32 m.length
  let mask ← maskLoop max 32 1
  random2Loop max mask max.toNat (mtInit rand) m

/-- The mask reaches the maximum, and one subtraction of the maximum is enough for what it lets through. -/
structure Masks (max mask : Nat) : Prop where
  le : max ≤ mask
  first : mask < 2 * max ∨ mask = 1

theorem toNat_widen {mask : BitVec 32} (h : 2 * mask.toNat + 1 < 2 ^ 32) :
    (mask <<< 1 ||| 1).toNat = 2 * mask.toNat + 1 := by
  have hdisjoint : mask <<< 1 &&& 1 = 0 := by
    apply BitVec.eq_of_getLsbD_eq
    intro i _
    rw [BitVec.getLsbD_and, BitVec.getLsbD_shiftLeft]
    cases i with
    | zero => simp
    | succ i => simp [BitVec.getLsbD_one]
  rw [← BitVec.add_eq_or_of_and_eq_zero _ _ hdisjoint, BitVec.toNat_add, BitVec.toNat_shiftLeft, Nat.shiftLeft_eq,
    show (1 : BitVec 32).toNat = 1 from rfl]
  omega

/-- A mask of `k` bits finds its end within the bits that are left. -/
theorem maskLoop_eq_some {max mask : BitVec 32} {fuel k : Nat} (hk : mask.toNat + 1 = 2 ^ k) (hfuel : 32 ≤ k + fuel)
    (hfirst : mask.toNat < 2 * max.toNat ∨ mask.toNat = 1) :
    ∃ r, maskLoop max (fuel + 1) mask = some r ∧ Masks max.toNat r.toNat := by
  induction fuel generalizing mask k with
  | zero =>
      have hall : 2 ^ 32 ≤ 2 ^ k := Nat.pow_le_pow_right (by decide) (by omega)
      have hle : max.toNat ≤ mask.toNat := by omega
      exact ⟨mask, if_neg (Nat.not_lt_of_le hle), hle, hfirst⟩
  | succ fuel ih =>
      rw [maskLoop]
      by_cases hlt : mask < max
      · rw [if_pos hlt]
        have hlt' : mask.toNat < max.toNat := hlt
        have hk32 : k < 32 := Nat.lt_of_not_le fun hle => by
          have hall : 2 ^ 32 ≤ 2 ^ k := Nat.pow_le_pow_right (by decide) hle
          omega
        have hdouble : 2 ^ (k + 1) ≤ 2 ^ 32 := Nat.pow_le_pow_right (by decide) hk32
        rw [Nat.pow_succ] at hdouble
        have hwiden : (mask <<< 1 ||| 1).toNat = 2 * mask.toNat + 1 := toNat_widen (by omega)
        apply ih (k := k + 1)
        · rw [hwiden, Nat.pow_succ]
          omega
        · omega
        · omega
      · rw [if_neg hlt]
        exact ⟨mask, rfl, Nat.le_of_not_lt hlt, hfirst⟩

theorem exists_maskLoop (max : BitVec 32) : ∃ mask, maskLoop max 32 1 = some mask ∧ Masks max.toNat mask.toNat :=
  maskLoop_eq_some (k := 1) rfl (by decide) (Or.inr rfl)

/-- One subtraction brings a masked number below the maximum. -/
theorem toNat_random2Index_lt {max mask : BitVec 32} (h : Masks max.toNat mask.toNat) (hpos : 0 < max.toNat)
    (w : BitVec 32) : (random2Index max mask w).toNat < max.toNat := by
  have hle : (w &&& mask).toNat ≤ mask.toNat := by
    rw [BitVec.toNat_and]
    exact Nat.and_le_right
  have hfirst := h.first
  show (if max ≤ w &&& mask then (w &&& mask) - max else w &&& mask).toNat < max.toNat
  by_cases hover : max ≤ w &&& mask
  · rw [if_pos hover, BitVec.toNat_sub_of_le hover]
    have hover' : max.toNat ≤ (w &&& mask).toNat := hover
    omega
  · rw [if_neg hover]
    exact Nat.lt_of_not_le hover

/-- How many of the `k` numbers of the sequence from the `n`-th on name the word `i`. -/
def hits (max mask : BitVec 32) (x : Nat → BitVec 32) (n k i : Nat) : Nat :=
  (List.range' n k).countP fun j => (random2Index max mask (x j)).toNat = i

theorem random2Loop_eq_some {max mask : BitVec 32} (hmask : Masks max.toNat mask.toNat) (hpos : 0 < max.toNat)
    {x : Nat → BitVec 32} (hx : ∀ i, x (i + 624) = mtNext (x i) (x (i + 1)) (x (i + 397))) (k : Nat) {n : Nat} {s : Mt}
    (hs : s.After x n) {m : List (BitVec 32)} (hm : max.toNat ≤ m.length) :
    ∃ m', random2Loop max mask k s m = some m' ∧
      ∀ i, m'[i]? = m[i]?.map (· + BitVec.ofNat 32 (hits max mask x n k i)) := by
  induction k generalizing n s m with
  | zero =>
      refine ⟨m, rfl, ?_⟩
      intro i
      simp [hits]
  | succ k ih =>
      obtain ⟨t, hcall, ht⟩ := hs.step hx
      have hidx := Nat.lt_of_lt_of_le (toNat_random2Index_lt hmask hpos (x n)) hm
      generalize hplace : (random2Index max mask (x n)).toNat = idx at hidx
      obtain ⟨m', hrest, hcounts⟩ := ih ht (m := m.set idx (m[idx] + 1)) (by rwa [List.length_set])
      refine ⟨m', ?_, ?_⟩
      · simp only [random2Loop, hcall, Option.bind_eq_bind, Option.bind_some, hplace, List.getElem?_eq_getElem hidx]
        exact hrest
      · intro i
        have hcount : hits max mask x n (k + 1) i = hits max mask x (n + 1) k i + if idx = i then 1 else 0 := by
          rw [hits, List.range'_succ, List.countP_cons, hplace]
          simp only [decide_eq_true_eq, hits]
        rw [hcounts i, hcount, List.getElem?_set]
        by_cases hi : idx = i
        · subst hi
          rw [if_pos rfl, if_pos hidx, if_pos rfl, List.getElem?_eq_getElem hidx, Option.map_some, Option.map_some,
            BitVec.ofNat_add, BitVec.add_assoc, BitVec.add_comm 1]
          rfl
        · rw [if_neg hi, if_neg hi]
          rfl

/-- Whatever the size of the memory and the random numbers, the mask comes to an end at or above the number of words,
every word incremented lies within the memory, and each has gone up by the number of times the sequence of the generator
names it. -/
theorem random2_spec (rand : Nat → BitVec 32) (m : List (BitVec 32)) :
    ∃ mask m', maskLoop (BitVec.ofNat 32 m.length) 32 1 = some mask ∧ Masks (m.length % 2 ^ 32) mask.toNat ∧
      random2 rand m = some m' ∧ ∀ i, m'[i]? = m[i]?.map (· + BitVec.ofNat 32
        (hits (BitVec.ofNat 32 m.length) mask (mtSeq rand) 0 (m.length % 2 ^ 32) i)) := by
  obtain ⟨mask, hloop, hmask⟩ := exists_maskLoop (BitVec.ofNat 32 m.length)
  have hmax : (BitVec.ofNat 32 m.length).toNat = m.length % 2 ^ 32 := BitVec.toNat_ofNat _ _
  have hmask' : Masks (m.length % 2 ^ 32) mask.toNat := hmax ▸ hmask
  rcases Nat.eq_zero_or_pos (m.length % 2 ^ 32) with hzero | hpos
  · refine ⟨mask, m, hloop, hmask', ?_, ?_⟩
    · simp only [random2, hloop, Option.bind_eq_bind, Option.bind_some, hmax, hzero]
      rfl
    · intro i
      rw [hzero]
      simp [hits]
  · obtain ⟨m', hrun, hcounts⟩ := random2Loop_eq_some hmask (by rwa [hmax]) (mtSeq_add rand) (m.length % 2 ^ 32)
      (after_mtInit rand) (m := m) (by
        rw [hmax]
        exact Nat.mod_le _ _)
    refine ⟨mask, m', hloop, hmask', ?_, hcounts⟩
    simp only [random2, hloop, Option.bind_eq_bind, Option.bind_some, hmax]
    exact hrun

end Numademo
end Numactl
