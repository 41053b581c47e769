import Mathlib.Data.Finset.Filter
import Mathlib.Data.Finset.Range
import Mathlib.Data.Finset.Card
import Mathlib.Data.List.GetD

/-! Bit numbers in a list of machine words. A list of `w`-bit words, the word of index 0 holding the
lowest bits, is read as one long string of bits. The operations are those C code performs on such an
array: set one bit, copy a number of whole words, clear the words of a range, fill from a predicate.
For each of them one lemma says what every bit reads afterwards. -/

namespace Words

variable {w : Nat}

/-- Bit `i` of the words; a bit past the last word reads as 0. -/
def bit (ws : List (BitVec w)) (i : Nat) : Bool :=
  (ws.getD (i / w) 0#w).getLsbD (i % w)

/-- The words with bit `i` set to `v`; a bit past the last word is not written. -/
def setBit (ws : List (BitVec w)) (i : Nat) (v : Bool) : List (BitVec w) :=
  ws.set (i / w) (if v then ws.getD (i / w) 0#w ||| BitVec.twoPow w (i % w)
    else ws.getD (i / w) 0#w &&& ~~~BitVec.twoPow w (i % w))

/-- `dst` with its first `k` words overwritten by those of `src`. -/
def copy (k : Nat) (src dst : List (BitVec w)) : List (BitVec w) :=
  src.take k ++ dst.drop k

/-- `ws` with the words from `k` up to `m` cleared. -/
def clear (k m : Nat) (ws : List (BitVec w)) : List (BitVec w) :=
  ws.take k ++ List.replicate (m - k) 0#w ++ ws.drop m

/-- `n` words whose bits are given by `f`. -/
def ofBits (w n : Nat) (f : Nat → Bool) : List (BitVec w) :=
  (List.range n).map fun k =>
    (List.range w).foldl (fun acc j => if f (k * w + j) then acc ||| BitVec.twoPow w j else acc) 0#w

theorem bit_eq_false_of_length_le {ws : List (BitVec w)} {i : Nat} (h : ws.length * w ≤ i) :
    bit ws i = false := by
  by_cases hw : w = 0
  · subst hw
    simp [bit]
  · have hle : ws.length ≤ i / w := (Nat.le_div_iff_mul_le (by omega)).mpr h
    rw [bit, List.getD_eq_default _ _ hle]
    exact BitVec.getLsbD_zero

theorem bit_getD (ws : List (BitVec w)) (k : Nat) {j : Nat} (hj : j < w) :
    (ws.getD k 0#w).getLsbD j = bit ws (k * w + j) := by
  have hw : 0 < w := by omega
  have hdiv : (k * w + j) / w = k := by
    rw [Nat.add_comm, Nat.add_mul_div_right _ _ hw, Nat.div_eq_of_lt hj, Nat.zero_add]
  have hmod : (k * w + j) % w = j := by
    rw [Nat.add_comm, Nat.add_mul_mod_self_right, Nat.mod_eq_of_lt hj]
  rw [bit, hdiv, hmod]

/-- Lists of words of one length with the same bits are equal. -/
theorem ext_bit {ws vs : List (BitVec w)} (hlen : ws.length = vs.length)
    (h : ∀ i, i < ws.length * w → bit ws i = bit vs i) : ws = vs := by
  apply List.ext_getElem hlen
  intro k hk hk'
  apply BitVec.eq_of_getLsbD_eq
  intro j hj
  have hlt : k * w + j < ws.length * w :=
    calc k * w + j < k * w + w := by omega
      _ = (k + 1) * w := by rw [Nat.add_mul, Nat.one_mul]
      _ ≤ ws.length * w := Nat.mul_le_mul_right w hk
  have hbit := h _ hlt
  rwa [← bit_getD ws k hj, ← bit_getD vs k hj, List.getD_eq_getElem _ _ hk, List.getD_eq_getElem _ _ hk'] at hbit

@[simp] theorem length_setBit (ws : List (BitVec w)) (i : Nat) (v : Bool) :
    (setBit ws i v).length = ws.length := by
  simp [setBit]

theorem length_copy {k : Nat} {src dst : List (BitVec w)} (hsrc : k ≤ src.length)
    (hdst : k ≤ dst.length) : (copy k src dst).length = dst.length := by
  simp only [copy, List.length_append, List.length_take, List.length_drop]
  omega

theorem length_clear {k m : Nat} {ws : List (BitVec w)} (hk : k ≤ m) (hm : m ≤ ws.length) :
    (clear k m ws).length = ws.length := by
  simp only [clear, List.length_append, List.length_take, List.length_replicate, List.length_drop]
  omega

@[simp] theorem length_ofBits (n : Nat) (f : Nat → Bool) : (ofBits w n f).length = n := by
  simp [ofBits]

/-- Two bit numbers in one word with one offset are one bit number. -/
theorem eq_of_div_mod {i j : Nat} (hdiv : i / w = j / w) (hmod : i % w = j % w) : i = j := by
  rw [← Nat.div_add_mod i w, ← Nat.div_add_mod j w, hdiv, hmod]

/-- A place in words, or rows, of one length belongs to one of them. -/
theorem place_inj {a b c d : Nat} (hb : b < w) (hd : d < w) (h : a * w + b = c * w + d) : a = c ∧ b = d := by
  have hdiv := congrArg (· / w) h
  have hw : 0 < w := by omega
  simp only [Nat.mul_comm _ w, Nat.mul_add_div hw, Nat.div_eq_of_lt hb, Nat.div_eq_of_lt hd] at hdiv
  obtain rfl : a = c := hdiv
  exact ⟨rfl, Nat.add_left_cancel h⟩

theorem place_lt {n a b : Nat} (ha : a < n) (hb : b < w) : a * w + b < n * w := by
  calc
    a * w + b < a * w + w := Nat.add_lt_add_left hb _
    _ = (a + 1) * w := (Nat.succ_mul a w).symm
    _ ≤ n * w := Nat.mul_le_mul_right w ha

theorem bit_setBit {ws : List (BitVec w)} {i : Nat} (v : Bool) (h : i < ws.length * w) (j : Nat) :
    bit (setBit ws i v) j = if j = i then v else bit ws j := by
  have hw : 0 < w := Nat.pos_of_ne_zero (by rintro rfl; simp at h)
  have hi : i / w < ws.length := (Nat.div_lt_iff_lt_mul hw).mpr h
  have hmod : i % w < w := Nat.mod_lt _ hw
  have hjmod : j % w < w := Nat.mod_lt _ hw
  by_cases hword : j / w = i / w
  · have heq : j = i ↔ j % w = i % w :=
      ⟨fun hji => by rw [hji], fun hji => eq_of_div_mod hword hji⟩
    have hget : bit (setBit ws i v) j = (if v then ws.getD (i / w) 0#w ||| BitVec.twoPow w (i % w)
        else ws.getD (i / w) 0#w &&& ~~~BitVec.twoPow w (i % w)).getLsbD (j % w) := by
      rw [bit, setBit, hword, List.getD_eq_getElem _ _ (by simpa using hi), List.getElem_set_self]
    rw [hget]
    simp only [heq]
    have hold : bit ws j = (ws.getD (i / w) 0#w).getLsbD (j % w) := by rw [bit, hword]
    cases v with
    | true =>
        rw [if_pos rfl, BitVec.getLsbD_or, BitVec.getLsbD_twoPow, ← hold]
        by_cases hji : j % w = i % w
        · simp [hji, hmod]
        · simp [hji, Ne.symm hji]
    | false =>
        rw [if_neg (by simp), BitVec.getLsbD_and, BitVec.getLsbD_not, BitVec.getLsbD_twoPow, ← hold]
        by_cases hji : j % w = i % w
        · simp [hji, hmod]
        · simp [hji, Ne.symm hji, hjmod]
  · have hne : j ≠ i := fun hji => hword (by rw [hji])
    rw [if_neg hne, bit, bit, setBit, List.getD_eq_getElem?_getD,
      List.getElem?_set_ne (Ne.symm hword), ← List.getD_eq_getElem?_getD]

theorem bit_append (ws vs : List (BitVec w)) (i : Nat) :
    bit (ws ++ vs) i = if i < ws.length * w then bit ws i else bit vs (i - ws.length * w) := by
  by_cases hw : w = 0
  · subst hw
    simp [bit]
  have hpos : 0 < w := by omega
  by_cases h : i < ws.length * w
  · have hi : i / w < ws.length := (Nat.div_lt_iff_lt_mul hpos).mpr h
    rw [if_pos h, bit, bit, List.getD_append _ _ _ _ hi]
  · have hle : ws.length ≤ i / w := (Nat.le_div_iff_mul_le hpos).mpr (by omega)
    rw [if_neg h, bit, bit, List.getD_append_right _ _ _ _ hle, Nat.mul_comm, Nat.sub_mul_div,
      Nat.sub_mul_mod (by rw [Nat.mul_comm]; omega)]

theorem bit_take {ws : List (BitVec w)} {k : Nat} (i : Nat) :
    bit (ws.take k) i = if i < k * w then bit ws i else false := by
  by_cases hw : w = 0
  · subst hw
    simp [bit]
  have hpos : 0 < w := by omega
  by_cases h : i < k * w
  · have hi : i / w < k := (Nat.div_lt_iff_lt_mul hpos).mpr h
    rw [if_pos h, bit, bit, List.getD_eq_getElem?_getD, List.getElem?_take_of_lt hi,
      ← List.getD_eq_getElem?_getD]
  · rw [if_neg h]
    apply bit_eq_false_of_length_le
    calc (ws.take k).length * w ≤ k * w := Nat.mul_le_mul_right w (List.length_take_le k ws)
      _ ≤ i := by omega

theorem bit_drop (ws : List (BitVec w)) (k i : Nat) : bit (ws.drop k) i = bit ws (k * w + i) := by
  by_cases hw : w = 0
  · subst hw
    simp [bit]
  have hpos : 0 < w := by omega
  rw [bit, bit, List.getD_eq_getElem?_getD, List.getElem?_drop, ← List.getD_eq_getElem?_getD,
    Nat.add_comm (k * w), Nat.add_mul_div_right _ _ hpos, Nat.add_mul_mod_self_right,
    Nat.add_comm (i / w)]

@[simp] theorem bit_replicate_zero (n i : Nat) : bit (List.replicate n 0#w) i = false := by
  rw [bit, List.getD_eq_getElem?_getD, List.getElem?_replicate]
  split <;> simp

theorem bit_copy {k : Nat} {src dst : List (BitVec w)} (hsrc : k ≤ src.length) (i : Nat) :
    bit (copy k src dst) i = if i < k * w then bit src i else bit dst i := by
  have hlen : (src.take k).length = k := List.length_take_of_le hsrc
  rw [copy, bit_append, hlen]
  by_cases h : i < k * w
  · rw [if_pos h, if_pos h, bit_take, if_pos h]
  · rw [if_neg h, if_neg h, bit_drop, Nat.add_sub_cancel' (by omega)]

theorem bit_clear {k m : Nat} {ws : List (BitVec w)} (hk : k ≤ m) (hm : m ≤ ws.length) (i : Nat) :
    bit (clear k m ws) i = if k * w ≤ i ∧ i < m * w then false else bit ws i := by
  have hle : k * w ≤ m * w := Nat.mul_le_mul_right w hk
  have hlen : (ws.take k).length = k := List.length_take_of_le (by omega)
  have hlen' : (ws.take k ++ List.replicate (m - k) 0#w).length = m := by
    rw [List.length_append, hlen, List.length_replicate]
    omega
  rw [clear, bit_append, hlen', bit_append, hlen, bit_take]
  by_cases h1 : i < k * w
  · rw [if_pos (by omega), if_pos h1, if_pos h1, if_neg (by omega)]
  · by_cases h2 : i < m * w
    · rw [if_pos h2, if_neg h1, bit_replicate_zero, if_pos ⟨by omega, h2⟩]
    · rw [if_neg h2, bit_drop, if_neg (by omega), Nat.add_sub_cancel' (by omega)]

theorem getLsbD_foldl_twoPow (g : Nat → Bool) (n : Nat) (hn : n ≤ w) (j : Nat) :
    ((List.range n).foldl (fun acc k => if g k then acc ||| BitVec.twoPow w k else acc)
      0#w).getLsbD j = (decide (j < n) && g j) := by
  induction n with
  | zero => simp
  | succ n ih =>
      rw [List.range_succ, List.foldl_append, List.foldl_cons, List.foldl_nil]
      have ih' := ih (by omega)
      by_cases hg : g n
      · rw [if_pos hg, BitVec.getLsbD_or, ih', BitVec.getLsbD_twoPow]
        by_cases hj : j = n
        · subst hj
          simp [hg, show j < w by omega]
        · have hiff : j < n + 1 ↔ j < n := by omega
          simp [Ne.symm hj, hiff]
      · rw [if_neg hg, ih']
        by_cases hj : j = n
        · subst hj
          simp [hg]
        · have hiff : j < n + 1 ↔ j < n := by omega
          simp [hiff]

theorem bit_ofBits (hw : 0 < w) (n : Nat) (f : Nat → Bool) (i : Nat) :
    bit (ofBits w n f) i = (decide (i < n * w) && f i) := by
  by_cases h : i < n * w
  · have hi : i / w < n := (Nat.div_lt_iff_lt_mul hw).mpr h
    have hmod : i % w < w := Nat.mod_lt _ hw
    rw [bit, List.getD_eq_getElem _ _ (by simpa using hi)]
    simp only [ofBits, List.getElem_map, List.getElem_range]
    rw [getLsbD_foldl_twoPow (fun j => f (i / w * w + j)) w le_rfl, Nat.div_add_mod']
    simp [h, hmod]
  · rw [bit_eq_false_of_length_le (by simpa using h)]
    simp [h]

/-! ### The numbers below a bound whose bit is set -/

/-- The bit numbers below `n` that are set. -/
def bitsBelow (ws : List (BitVec w)) (n : Nat) : Finset Nat :=
  (Finset.range n).filter fun i => bit ws i = true

theorem mem_bitsBelow {ws : List (BitVec w)} {n i : Nat} :
    i ∈ bitsBelow ws n ↔ i < n ∧ bit ws i = true := by
  simp [bitsBelow]

/-- One bit less is read without loss exactly if the last bit is clear. -/
theorem bitsBelow_pred_eq_iff {ws : List (BitVec w)} {n : Nat} :
    bitsBelow ws (n - 1) = bitsBelow ws n ↔ n - 1 ∉ bitsBelow ws n := by
  refine ⟨fun h hlast => ?_, fun h => ?_⟩
  · rw [← h, mem_bitsBelow] at hlast
    exact lt_irrefl _ hlast.1
  · apply Finset.ext
    intro i
    rw [mem_bitsBelow, mem_bitsBelow]
    refine ⟨fun hi => ⟨by omega, hi.2⟩, fun hi => ⟨?_, hi.2⟩⟩
    obtain hlt | rfl : i < n - 1 ∨ i = n - 1 := by omega
    · exact hlt
    · exact absurd (mem_bitsBelow.mpr hi) h

/-! ### Word by word -/

/-- A loop that rewrites the words one by one. -/
theorem getD_foldl_set (f : Nat → BitVec w → BitVec w) (ws : List (BitVec w)) {n : Nat} (hn : n ≤ ws.length)
    (k : Nat) : ((List.range n).foldl (fun ws j => ws.set j (f j (ws.getD j 0#w))) ws).getD k 0#w =
      if k < n then f k (ws.getD k 0#w) else ws.getD k 0#w := by
  have hlength : ∀ n, ((List.range n).foldl (fun ws j => ws.set j (f j (ws.getD j 0#w))) ws).length =
      ws.length := by
    intro n
    induction n with
    | zero => rfl
    | succ n ih => rw [List.range_succ, List.foldl_append, List.foldl_cons, List.foldl_nil, List.length_set, ih]
  induction n with
  | zero => rfl
  | succ n ih =>
      rw [List.range_succ, List.foldl_append, List.foldl_cons, List.foldl_nil]
      by_cases hk : n = k
      · subst hk
        have hrest := ih (by omega)
        rw [if_neg (by omega)] at hrest
        rw [List.getD_eq_getElem?_getD, List.getElem?_set_self (by rw [hlength]; omega), Option.getD_some, hrest,
          if_pos (by omega)]
      · rw [List.getD_eq_getElem?_getD, List.getElem?_set_ne hk, ← List.getD_eq_getElem?_getD, ih (by omega)]
        by_cases hlt : k < n
        · rw [if_pos hlt, if_pos (by omega)]
        · rw [if_neg hlt, if_neg (by omega)]

/-- Two arrays have a word in common bits exactly if they have a common bit. -/
theorem exists_and_ne_zero_iff (hw : 0 < w) {ws vs : List (BitVec w)} {n : Nat} :
    (∃ k < n, ws.getD k 0#w &&& vs.getD k 0#w ≠ 0#w) ↔ ∃ i < n * w, bit ws i = true ∧ bit vs i = true := by
  refine ⟨fun h => ?_, fun h => ?_⟩
  · obtain ⟨k, hk, hne⟩ := h
    obtain ⟨j, hj⟩ : ∃ j, (ws.getD k 0#w &&& vs.getD k 0#w).getLsbD j = true := by
      by_contra hnone
      apply hne
      apply BitVec.eq_of_getLsbD_eq
      intro j _
      rw [BitVec.getLsbD_zero]
      exact Bool.eq_false_iff.mpr fun hj => hnone ⟨j, hj⟩
    have hlt : j < w := BitVec.lt_of_getLsbD hj
    rw [BitVec.getLsbD_and, Bool.and_eq_true, bit_getD ws k hlt, bit_getD vs k hlt] at hj
    exact ⟨k * w + j, place_lt hk hlt, hj⟩
  · obtain ⟨i, hi, hws, hvs⟩ := h
    refine ⟨i / w, (Nat.div_lt_iff_lt_mul hw).mpr hi, fun hzero => ?_⟩
    have hbit := congrArg (fun x => BitVec.getLsbD x (i % w)) hzero
    simp only [BitVec.getLsbD_and, BitVec.getLsbD_zero] at hbit
    change (bit ws i && bit vs i) = false at hbit
    rw [hws, hvs] at hbit
    cases hbit

end Words
