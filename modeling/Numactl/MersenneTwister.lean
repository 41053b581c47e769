import Mathlib.Data.List.Basic
import Numactl.Base.Recurrence

/-! The random numbers of `numademo`: the generator of `mt.c` and `mt.h`. A call that finds the buffer used up computes
the next 624 words in place. The words handed out are those of one recurrence from the start on, and the state before a
refill counts only as far as 19937 of its 19968 bits. `MT_LEN` is 624, `MT_IA` 397 and `MT_IB` 227. -/

namespace Numactl

open Recurrence

def upperMask : BitVec 32 := 0x80000000

def lowerMask : BitVec 32 := 0x7FFFFFFF

def matrixA : BitVec 32 := 0x9908B0DF

/-- `TWIST`: the top bit of one word and the others of the next. -/
def twist (a b : BitVec 32) : BitVec 32 := a &&& upperMask ||| b &&& lowerMask

def magic (s : BitVec 32) : BitVec 32 := (s &&& 1) * matrixA

/-- The globals `mt_buffer` and `mt_index`. The index counts bytes. -/
structure Mt where
  buffer : Vector (BitVec 32) 624
  index : Nat

/-- `mt_init`, with what `rand` returns after `srand(1)`, call by call. -/
def mtInit (rand : Nat → BitVec 32) : Mt where
  buffer := Vector.ofFn fun i => rand i
  index := 0

/-- What all three loops of `mt_refill` do to one word: `j` is the next one, `q` the one `MT_IA` ahead. -/
def refillAt (b : Vector (BitVec 32) 624) (i j q : Nat) (hi : i < 624) (hj : j < 624) (hq : q < 624) :
    Vector (BitVec 32) 624 :=
  let s := twist b[i] b[j]
  b.set i (b[q] ^^^ (s >>> 1) ^^^ magic s)

def refillAhead (b : Vector (BitVec 32) 624) : Vector (BitVec 32) 624 :=
  Fin.foldl 227 (fun b i => refillAt b i (i + 1) (i + 397) (by omega) (by omega) (by omega)) b

/-- The second loop goes on at `MT_IB` and stops before the last word. -/
def refillBehind (b : Vector (BitVec 32) 624) : Vector (BitVec 32) 624 :=
  Fin.foldl (623 - 227) (fun b k => refillAt b (227 + k) (227 + k + 1) (227 + k - 227) (by omega) (by omega)
    (by omega)) b

def mtRefill (s : Mt) : Mt where
  buffer := refillAt (refillBehind (refillAhead s.buffer)) (623) 0 (396) (by omega) (by omega) (by omega)
  index := 0

/-- The word at a byte offset of the buffer, nothing where it is not one of its words. -/
def wordAt (b : Vector (BitVec 32) 624) (idx : Nat) : Option (BitVec 32) := if idx % 4 = 0 then b[idx / 4]? else none

def mtRandom (s : Mt) : Option (BitVec 32 × Mt) :=
  let idx := if s.index = 624 * 4 then 0 else s.index
  let s := if s.index = 624 * 4 then mtRefill s else s
  (wordAt s.buffer idx).map fun word => (word, { s with index := s.index + 4 })

/-- What `n` calls return. -/
def draw : Nat → Mt → Option (List (BitVec 32) × Mt)
  | 0, s => some ([], s)
  | n + 1, s => do
      let (word, s) ← mtRandom s
      let (words, s) ← draw n s
      return (word :: words, s)

/-- The next word of the sequence, from the oldest one, the one after it and the one `MT_IA` on. -/
def mtNext (a b c : BitVec 32) : BitVec 32 := c ^^^ (twist a b >>> 1) ^^^ magic (twist a b)

/-- The sequence of the generator, from its first 624 words. -/
def mtSeq (init : Nat → BitVec 32) : Nat → BitVec 32 := seq mtNext 624 397 init

theorem mtSeq_of_lt (init : Nat → BitVec 32) {i : Nat} (h : i < 624) : mtSeq init i = init i :=
  seq_of_lt mtNext init h

theorem mtSeq_add (init : Nat → BitVec 32) (i : Nat) :
    mtSeq init (i + 624) = mtNext (mtSeq init i) (mtSeq init (i + 1)) (mtSeq init (i + 397)) :=
  seq_add mtNext (by omega) (by omega) init i

section Refill

variable {x : Nat → BitVec 32} {base : Nat} {b : Vector (BitVec 32) 624}

theorem swept_refillAt (hx : ∀ i, x (i + 624) = mtNext (x i) (x (i + 1)) (x (i + 397))) {i j q : Nat}
    (h : Swept x base i b) (hi : i < 624) (hj : j < 624) (hq : q < 624)
    (hnext : j = i + 1 ∨ j + 624 = i + 1) (hahead : q = i + 397 ∨ q + 624 = i + 397) :
    Swept x base (i + 1) (refillAt b i j q hi hj hq) :=
  h.set hx (by omega) (by omega) hi hj hq hnext hahead

theorem swept_refillAhead (hx : ∀ i, x (i + 624) = mtNext (x i) (x (i + 1)) (x (i + 397)))
    (h : Swept x base 0 b) : Swept x base 227 (refillAhead b) := by
  apply foldl_rule (P := Swept x base) h
  intro i b hb
  apply swept_refillAt hx hb
  · exact Or.inl rfl
  · exact Or.inl rfl

theorem swept_refillBehind (hx : ∀ i, x (i + 624) = mtNext (x i) (x (i + 1)) (x (i + 397)))
    (h : Swept x base 227 b) : Swept x base (623) (refillBehind b) := by
  apply foldl_rule (P := fun k => Swept x base (227 + k)) h
  intro k b hb
  apply swept_refillAt hx hb
  · exact Or.inl rfl
  · exact Or.inr (by omega)

/-- A refill moves the window on by its whole length. -/
theorem window_mtRefill {s : Mt} (hx : ∀ i, x (i + 624) = mtNext (x i) (x (i + 1)) (x (i + 397)))
    (h : Window x base s.buffer) : Window x (base + 624) (mtRefill s).buffer := by
  have hbehind := swept_refillBehind hx (swept_refillAhead hx h.swept)
  have hlast := swept_refillAt hx hbehind (j := 0) (q := 396) (by omega) (by omega) (by omega) (Or.inr (by omega))
    (Or.inr (by omega))
  exact hlast.window

end Refill

/-- The state after `n` calls: `j` words of the window at `base` have been handed out. -/
structure Mt.After (x : Nat → BitVec 32) (n : Nat) (s : Mt) : Prop where
  exists_window : ∃ base j, n = base + j ∧ j ≤ 624 ∧ s.index = 4 * j ∧ Window x base s.buffer

theorem wordAt_window {x : Nat → BitVec 32} {base j : Nat} {b : Vector (BitVec 32) 624} (h : Window x base b)
    (hj : j < 624) : wordAt b (4 * j) = some (x (base + j)) := by
  have hword : b[j]? = some b[j] := Vector.getElem?_eq_getElem hj
  rw [wordAt, if_pos (by omega), show 4 * j / 4 = j by omega, hword, h j hj]

/-- One call hands out the next word of the sequence. -/
theorem Mt.After.step {x : Nat → BitVec 32} (hx : ∀ i, x (i + 624) = mtNext (x i) (x (i + 1)) (x (i + 397)))
    {n : Nat} {s : Mt} (h : s.After x n) : ∃ t, mtRandom s = some (x n, t) ∧ t.After x (n + 1) := by
  obtain ⟨base, j, rfl, hle, hindex, hwindow⟩ := h.exists_window
  by_cases hfull : j = 624
  · subst hfull
    have hlast : s.index = 624 * 4 := hindex
    have hnext := window_mtRefill hx hwindow
    refine ⟨{ mtRefill s with index := (mtRefill s).index + 4 }, ?_, ⟨base + 624, 1, rfl, by omega, rfl, hnext⟩⟩
    have hword : wordAt (mtRefill s).buffer 0 = some (x (base + 624)) := wordAt_window hnext (by omega : 0 < 624)
    simp only [mtRandom, if_pos hlast, hword, Option.map_some]
  · have hnot : s.index ≠ 624 * 4 := by omega
    refine ⟨{ s with index := s.index + 4 }, ?_, ⟨base, j + 1, rfl, by omega, ?_, hwindow⟩⟩
    · have hword : wordAt s.buffer s.index = some (x (base + j)) := by
        rw [hindex]
        exact wordAt_window hwindow (by omega)
      simp only [mtRandom, if_neg hnot, hword, Option.map_some]
    · show s.index + 4 = 4 * (j + 1)
      omega

theorem Mt.After.draw {x : Nat → BitVec 32} (hx : ∀ i, x (i + 624) = mtNext (x i) (x (i + 1)) (x (i + 397)))
    (k : Nat) {n : Nat} {s : Mt} (h : s.After x n) :
    ∃ t, draw k s = some ((List.range' n k).map x, t) ∧ t.After x (n + k) := by
  induction k generalizing n s with
  | zero => exact ⟨s, rfl, h⟩
  | succ k ih =>
      obtain ⟨mid, hcall, hmid⟩ := h.step hx
      obtain ⟨t, hrest, ht⟩ := ih hmid
      refine ⟨t, ?_, ?_⟩
      · simp only [Numactl.draw, hcall, hrest, Option.bind_eq_bind, Option.bind_some, List.range'_succ, List.map_cons]
        rfl
      · rw [show n + (k + 1) = n + 1 + k by omega]
        exact ht

theorem after_mtInit (rand : Nat → BitVec 32) : (mtInit rand).After (mtSeq rand) 0 where
  exists_window := by
    refine ⟨0, 0, rfl, by omega, rfl, ?_⟩
    intro j hj
    rw [Nat.zero_add, mtSeq_of_lt rand hj]
    exact Vector.getElem_ofFn hj

/-- Every call after `mt_init` reads a word of the buffer, and the words returned are those of the recurrence from its
first one on. -/
theorem draw_mtInit (rand : Nat → BitVec 32) (n : Nat) :
    (draw n (mtInit rand)).map Prod.fst = some ((List.range n).map (mtSeq rand)) := by
  obtain ⟨t, hdraw, -⟩ := (after_mtInit rand).draw (mtSeq_add rand) n
  rw [hdraw, Option.map_some, List.range_eq_range']

section State

theorem getLsbD_twist (a b : BitVec 32) (i : Nat) :
    (twist a b).getLsbD i = if i = 31 then a.msb else decide (i < 31) && b.getLsbD i := by
  have hmasks : ∀ j : Fin 32, upperMask.getLsbD j = decide (j.val = 31) ∧ lowerMask.getLsbD j = decide (j.val < 31) := by
    decide
  rw [twist, BitVec.getLsbD_or, BitVec.getLsbD_and, BitVec.getLsbD_and]
  by_cases hi : i < 32
  · obtain ⟨hupper, hlower⟩ := hmasks ⟨i, hi⟩
    simp only at hupper hlower
    rw [hupper, hlower]
    by_cases htop : i = 31
    · subst htop
      simp [BitVec.msb_eq_getLsbD_last]
    · simp [htop, Bool.and_comm]
  · rw [BitVec.getLsbD_of_ge a i (by omega), BitVec.getLsbD_of_ge b i (by omega), if_neg (by omega)]
    simp

/-- Two words joined by `TWIST` say the top bit of the one and the others of the next, no more and no less. -/
theorem twist_eq_iff {a b a' b' : BitVec 32} :
    twist a b = twist a' b' ↔ a.msb = a'.msb ∧ ∀ i < 31, b.getLsbD i = b'.getLsbD i := by
  constructor
  · intro h
    have hbit (i : Nat) := congrArg (fun w => BitVec.getLsbD w i) h
    simp only [getLsbD_twist] at hbit
    refine ⟨by simpa using hbit 31, ?_⟩
    intro i hi
    have hthis := hbit i
    rw [if_neg (by omega), if_neg (by omega), decide_eq_true hi, Bool.true_and, Bool.true_and] at hthis
    exact hthis
  · rintro ⟨htop, hlow⟩
    apply BitVec.eq_of_getLsbD_eq
    intro i hi
    rw [getLsbD_twist, getLsbD_twist]
    by_cases h31 : i = 31
    · rw [if_pos h31, if_pos h31, htop]
    · rw [if_neg h31, if_neg h31, hlow i (by omega)]

theorem eq_of_msb_of_low {a b : BitVec 32} (htop : a.msb = b.msb) (hlow : ∀ i < 31, a.getLsbD i = b.getLsbD i) :
    a = b := by
  apply BitVec.eq_of_getLsbD_eq
  intro i hi
  by_cases h31 : i = 31
  · subst h31
    rw [BitVec.msb_eq_getLsbD_last, BitVec.msb_eq_getLsbD_last] at htop
    exact htop
  · exact hlow i (by omega)

/-- The shifted word leaves the top bit free, and the constant has it: what is mixed in determines the word. -/
theorem mixed_injective {s t : BitVec 32} (h : (s >>> 1) ^^^ magic s = (t >>> 1) ^^^ magic t) : s = t := by
  have htop (w : BitVec 32) : ((w >>> 1) ^^^ magic w).getLsbD 31 = w.getLsbD 0 := by
    have hmagic : ∀ bit : BitVec 1, (bit.setWidth 32 * matrixA).getLsbD 31 = bit.getLsbD 0 := by decide
    have hlow : w &&& 1 = (w.setWidth 1).setWidth 32 := by
      apply BitVec.eq_of_toNat_eq
      simp [BitVec.toNat_and, Nat.and_one_is_mod]
      omega
    rw [BitVec.getLsbD_xor, BitVec.getLsbD_ushiftRight, magic, hlow, hmagic, BitVec.getLsbD_of_ge w _ (by omega),
      Bool.false_xor, BitVec.getLsbD_setWidth]
    simp
  have hbit : s.getLsbD 0 = t.getLsbD 0 := by rw [← htop s, ← htop t, h]
  have hmagic : magic s = magic t := by
    have hlow : s &&& 1 = t &&& 1 := by
      apply BitVec.eq_of_getLsbD_eq
      intro i _
      rw [BitVec.getLsbD_and, BitVec.getLsbD_and]
      cases i with
      | zero => rw [hbit]
      | succ i => simp [BitVec.getLsbD_one]
    rw [magic, magic, hlow]
  have hshift : s >>> 1 = t >>> 1 := by
    rw [hmagic] at h
    exact (BitVec.xor_left_inj _).mp h
  apply BitVec.eq_of_getLsbD_eq
  intro i _
  cases i with
  | zero => exact hbit
  | succ i =>
      have hthis := congrArg (fun w => BitVec.getLsbD w i) hshift
      simpa [BitVec.getLsbD_ushiftRight, Nat.add_comm] using hthis

variable {x y : Nat → BitVec 32}

/-- Equal results where the words `MT_IA` ahead are equal: the words themselves agree as far as they count. -/
theorem agree_of_next (hx : ∀ i, x (i + 624) = mtNext (x i) (x (i + 1)) (x (i + 397)))
    (hy : ∀ i, y (i + 624) = mtNext (y i) (y (i + 1)) (y (i + 397))) {i : Nat} (hnext : x (i + 624) = y (i + 624))
    (hahead : x (i + 397) = y (i + 397)) :
    (x i).msb = (y i).msb ∧ ∀ j < 31, (x (i + 1)).getLsbD j = (y (i + 1)).getLsbD j := by
  rw [hx, hy, mtNext, mtNext, hahead, BitVec.xor_assoc, BitVec.xor_assoc] at hnext
  exact twist_eq_iff.mp (mixed_injective ((BitVec.xor_right_inj _).mp hnext))

/-- Two sequences agree on a window from the second one on exactly if the first windows agree, the first word in its top
bit. -/
theorem agree_window_iff (hx : ∀ i, x (i + 624) = mtNext (x i) (x (i + 1)) (x (i + 397)))
    (hy : ∀ i, y (i + 624) = mtNext (y i) (y (i + 1)) (y (i + 397))) {n : Nat} (hn : 624 ≤ n) :
    (∀ i < n, x (624 + i) = y (624 + i)) ↔ (x 0).msb = (y 0).msb ∧ ∀ j < 624, 0 < j → x j = y j := by
  constructor
  · intro h
    have hnext (i : Nat) (hi : i < 624) : x (i + 624) = y (i + 624) := by
      rw [Nat.add_comm]
      exact h i (by omega)
    -- The words from `MT_IB` on meet words of the second window, those before meet the words just found.
    have hbehind (i : Nat) (hle : 227 ≤ i) (hi : i < 624) := by
      apply agree_of_next hx hy (hnext i hi)
      obtain ⟨k, rfl⟩ := Nat.exists_eq_add_of_le hle
      rw [show 227 + k + 397 = k + 624 by omega]
      exact hnext k (by omega)
    have hupper (j : Nat) (hle : 228 ≤ j) (hj : j < 624) : x j = y j := by
      obtain ⟨k, rfl⟩ := Nat.exists_eq_add_of_le' (by omega : 1 ≤ j)
      exact eq_of_msb_of_low (hbehind (k + 1) (by omega) hj).1 (hbehind k (by omega) (by omega)).2
    have hahead (i : Nat) (hi : i < 227) := by
      apply agree_of_next hx hy (hnext i (by omega))
      exact hupper (i + 397) (by omega) (by omega)
    refine ⟨(hahead 0 (by omega)).1, ?_⟩
    intro j hj hpos
    by_cases hle : 228 ≤ j
    · exact hupper j hle hj
    · obtain ⟨k, rfl⟩ := Nat.exists_eq_add_of_le' hpos
      have hlow := (hahead k (by omega)).2
      by_cases hlt : k + 1 < 227
      · exact eq_of_msb_of_low (hahead (k + 1) hlt).1 hlow
      · exact eq_of_msb_of_low (hbehind (k + 1) (by omega) hj).1 hlow
  · rintro ⟨htop, hrest⟩
    have hall (j : Nat) (hpos : 0 < j) : x j = y j := by
      induction j using Nat.strongRecOn with
      | _ j ih =>
          by_cases hj : j < 624
          · exact hrest j hj hpos
          · obtain ⟨k, rfl⟩ := Nat.exists_eq_add_of_le' (by omega : 624 ≤ j)
            have hone := ih (k + 1) (by omega) (by omega)
            have htwist : twist (x k) (x (k + 1)) = twist (y k) (y (k + 1)) := by
              rw [hone]
              cases k with
              | zero => exact twist_eq_iff.mpr ⟨htop, fun _ _ => rfl⟩
              | succ k => rw [ih (k + 1) (by omega) (by omega)]
            rw [hx, hy, mtNext, mtNext, htwist, ih (k + 397) (by omega) (by omega)]
    intro i _
    exact hall (624 + i) (by omega)

/-- The sequence that starts with the words of a buffer. -/
def Mt.words (s : Mt) : Nat → BitVec 32 := mtSeq fun j => s.buffer.toArray.getD j 0

theorem Mt.words_eq (s : Mt) {j : Nat} (hj : j < 624) : s.words j = s.buffer[j] := by
  rw [Mt.words, mtSeq_of_lt _ hj]
  simp [hj]

theorem Mt.after_used {s : Mt} (h : s.index = 624 * 4) : s.After s.words 624 where
  exists_window := by
    refine ⟨0, 624, rfl, by omega, h, ?_⟩
    intro j hj
    rw [Nat.zero_add, s.words_eq hj]

/-- Two generators about to refill hand out the same words exactly if their buffers agree, the first word in its top
bit: the 31 bits below it are never used again, and each of the others shows within the next 624 words. -/
theorem draw_eq_iff {s t : Mt} (hs : s.index = 624 * 4) (ht : t.index = 624 * 4) {n : Nat} (hn : 624 ≤ n) :
    (draw n s).map Prod.fst = (draw n t).map Prod.fst ↔
      s.buffer[0].msb = t.buffer[0].msb ∧ ∀ j (h : j < 624), 0 < j → s.buffer[j] = t.buffer[j] := by
  obtain ⟨s', hdraw, -⟩ := (Mt.after_used hs).draw (mtSeq_add _) n
  obtain ⟨t', hdraw', -⟩ := (Mt.after_used ht).draw (mtSeq_add _) n
  rw [hdraw, hdraw', Option.map_some, Option.map_some, Option.some_inj, ← s.words_eq (by omega : 0 < 624),
    ← t.words_eq (by omega : 0 < 624)]
  calc (List.range' 624 n).map s.words = (List.range' 624 n).map t.words
    _ ↔ ∀ i < n, s.words (624 + i) = t.words (624 + i) := by
      rw [List.map_inj_left]
      constructor
      · intro h i hi
        exact h (624 + i) (List.mem_range'_1.mpr (by omega))
      · intro h m hm
        obtain ⟨hle, hlt⟩ := List.mem_range'_1.mp hm
        obtain ⟨i, rfl⟩ := Nat.exists_eq_add_of_le hle
        exact h i (by omega)
    _ ↔ (s.words 0).msb = (t.words 0).msb ∧ ∀ j < 624, 0 < j → s.words j = t.words j :=
      agree_window_iff (mtSeq_add _) (mtSeq_add _) hn
    _ ↔ _ := by
      apply and_congr_right'
      apply forall₂_congr
      intro j hj
      rw [s.words_eq hj, t.words_eq hj]

theorem draw_eq_first_word :
    (draw 700 ⟨Vector.replicate 624 5, 624 * 4⟩).map Prod.fst =
      (draw 700 ⟨(Vector.replicate 624 5).set 0 7, 624 * 4⟩).map Prod.fst := by
  apply (draw_eq_iff rfl rfl (by omega)).mpr
  constructor
  · rw [Vector.getElem_replicate, Vector.getElem_set_self]
    decide
  · intro j hj hpos
    exact (Vector.getElem_set_ne (by omega) hj (by omega)).symm

end State

end Numactl
