import Numactl.BitmapRoundTrip

/-! Reading the masks of `/proc/self/status` (`read_mask` in `libnuma.c`). Leading groups that are zero are
skipped; the groups from there on are stored as they are read, the highest first, and then packed in pairs
into longs from the last one on. -/

namespace Numactl

open CString (strtoul isDigitOf digitVal ofDigits ulongMax)

/-- `i = strtoul(end, &end, 16)` for an `unsigned int`. -/
def strtoulInt (text : List Char) : BitVec 32 × List Char :=
  (BitVec.ofNat 32 (strtoul 16 text).1, (strtoul 16 text).2)

/-- The loop over leading zeros: `i` and `end`. Every round takes a comma, so `fuel` starts at the length of
the text. -/
def skipZeros : Nat → BitVec 32 × List Char → BitVec 32 × List Char
  | 0, r => r
  | fuel + 1, r =>
      if r.1 = 0 then
        match r.2 with
        | ',' :: text => skipZeros fuel (strtoulInt text)
        | _ => r
      else r

/-- The loop that stores the groups in `start`; `none` where it runs out of room. -/
def readInts (tmplen : Nat) : Nat → List (BitVec 32) → List Char → Option (List (BitVec 32))
  | 0, start, _ => some start
  | fuel + 1, start, text =>
      match text with
      | ',' :: text =>
          if tmplen ≤ start.length then none
          else readInts tmplen fuel (start ++ [(strtoulInt text).1]) (strtoulInt text).2
      | _ => some start

/-- The longs made of the stored groups, which are given from the last one on. -/
def packInts : List (BitVec 32) → List Word
  | [] => []
  | [a] => [a.setWidth 64]
  | a :: b :: start => (a.setWidth 64 ||| (b.setWidth 64) <<< 32) :: packInts start

/-- The words stored over those of the mask. -/
def storeWords (words : List Word) (bmp : Bitmask) : Bitmask where
  size := bmp.size
  maskp := words ++ bmp.maskp.drop words.length
  fits := by
    rw [List.length_append, List.length_drop]
    have := bmp.fits
    omega

/-- `read_mask`: what it returns, and the mask. -/
def readMask (s : List Char) (bmp : Bitmask) : Int × Bitmask :=
  let tmplen := (bmp.size + 31) / 32
  let r := skipZeros s.length (strtoulInt s)
  if r.1 = 0 then (-1, bmp)
  else if tmplen ≤ 0 then (-1, bmp)
  else
    match readInts tmplen r.2.length [r.1] r.2 with
    | none => (-1, bmp)
    | some start =>
        let bmp := storeWords (packInts start.reverse) bmp
        (numaBitmaskWeight bmp, bmp)

/-- A mask that is not read is left as it was. -/
theorem readMask_unchanged {s : List Char} {bmp : Bitmask} (h : (readMask s bmp).1 = -1) :
    (readMask s bmp).2 = bmp := by
  unfold readMask at h ⊢
  dsimp only at h ⊢
  split at h
  · next hzero => rw [if_pos hzero]
  · next hzero =>
    rw [if_neg hzero]
    split at h
    · next hroom => rw [if_pos hroom]
    · next hroom =>
      rw [if_neg hroom]
      split at h
      · rfl
      · simp only at h
        omega

/-! ### The format of the kernel -/

/-- A mask as the kernel writes it: groups of hexadecimal digits, the highest first. The first has up to 8
digits, all others have 8. -/
structure MaskText where
  first : List Char
  rest : List (List Char)
  isGroup : ∀ g ∈ first :: rest, IsGroup g
  full : ∀ g ∈ rest, g.length = 8

/-- Groups with commas before them. -/
def commaGroups (gs : List (List Char)) : List Char := gs.flatMap fun g => ',' :: g

/-- The number the groups stand for. -/
def groupsValue (gs : List (List Char)) : Nat := gs.foldl (fun v g => v * 2 ^ 32 + ofDigits 16 g) 0

namespace MaskText

def text (m : MaskText) : List Char := m.first ++ commaGroups m.rest

def digits (m : MaskText) : Nat := m.first.length + 8 * m.rest.length

def value (m : MaskText) : Nat := groupsValue (m.first :: m.rest)

end MaskText

theorem IsGroup.ofDigits_lt {g : List Char} (hg : IsGroup g) : ofDigits 16 g < 2 ^ 32 :=
  calc ofDigits 16 g < 16 ^ g.length := CString.ofDigits_lt hg.digits
    _ ≤ 16 ^ 8 := Nat.pow_le_pow_right (by decide) hg.length_le
    _ = 2 ^ 32 := by decide

/-- A group is read to its end. -/
theorem strtoulInt_group {g : List Char} (hg : IsGroup g) {t : Char} (ht : digitVal t = none) (tail : List Char) :
    strtoulInt (g ++ t :: tail) = (BitVec.ofNat 32 (ofDigits 16 g), t :: tail) := by
  have hmax : ofDigits 16 g ≤ ulongMax := hg.ofDigits_lt.le.trans (by decide)
  rw [strtoulInt, CString.strtoul_hex hg.ne_nil hg.digits hmax ht]

theorem ofNat_ofDigits_eq_zero_iff {g : List Char} (hg : IsGroup g) :
    BitVec.ofNat 32 (ofDigits 16 g) = 0 ↔ ofDigits 16 g = 0 := by
  rw [← BitVec.toNat_inj, BitVec.toNat_ofNat, Nat.mod_eq_of_lt hg.ofDigits_lt]
  rfl

/-- The text behind the groups begins with a character that neither continues a group nor starts one. -/
theorem exists_cons_commaGroups (gs : List (List Char)) {t : Char} (ht : digitVal t = none) (tail : List Char) :
    ∃ t' tail', commaGroups gs ++ t :: tail = t' :: tail' ∧ digitVal t' = none := by
  cases gs with
  | nil => exact ⟨t, tail, rfl, ht⟩
  | cons g gs => exact ⟨',', g ++ (commaGroups gs ++ t :: tail), by simp [commaGroups], by decide⟩

theorem strtoulInt_groups {g : List Char} (hg : IsGroup g) (gs : List (List Char)) {t : Char}
    (ht : digitVal t = none) (tail : List Char) :
    strtoulInt (g ++ (commaGroups gs ++ t :: tail)) =
      (BitVec.ofNat 32 (ofDigits 16 g), commaGroups gs ++ t :: tail) := by
  obtain ⟨t', tail', heq, ht'⟩ := exists_cons_commaGroups gs ht tail
  rw [heq]
  exact strtoulInt_group hg ht' tail'

theorem commaGroups_cons (g : List Char) (gs : List (List Char)) (tail : List Char) :
    commaGroups (g :: gs) ++ tail = ',' :: (g ++ (commaGroups gs ++ tail)) := by
  simp [commaGroups]

/-! ### The numbers groups and stored ints stand for -/

theorem groupsValue_concat (gs : List (List Char)) (g : List Char) :
    groupsValue (gs ++ [g]) = groupsValue gs * 2 ^ 32 + ofDigits 16 g := by
  rw [groupsValue, List.foldl_append]
  rfl

theorem groupsValue_cons_of_zero {g : List Char} (h : ofDigits 16 g = 0) (gs : List (List Char)) :
    groupsValue (g :: gs) = groupsValue gs := by
  rw [groupsValue, List.foldl_cons, h]
  rfl

/-- After a nonzero group every further one is worth 32 bits. -/
theorem le_groupsValue {g : List Char} (h : ofDigits 16 g ≠ 0) (gs : List (List Char)) :
    2 ^ (32 * gs.length) ≤ groupsValue (g :: gs) := by
  induction gs using List.reverseRecOn with
  | nil => exact Nat.one_le_iff_ne_zero.mpr (by simpa [groupsValue] using h)
  | append_singleton gs b ih =>
      rw [← List.cons_append, groupsValue_concat, List.length_append, List.length_singleton, Nat.mul_add,
        Nat.mul_one, pow_add]
      exact (Nat.mul_le_mul_right _ ih).trans (Nat.le_add_right _ _)

theorem MaskText.value_lt (m : MaskText) : m.value < 2 ^ (4 * m.digits) := by
  obtain ⟨first, rest, hgroup, hfull⟩ := m
  unfold value digits
  dsimp only
  induction rest using List.reverseRecOn with
  | nil =>
      have hfirst := CString.ofDigits_lt (hgroup first List.mem_cons_self).digits
      rw [show 16 = 2 ^ 4 from rfl, ← pow_mul] at hfirst
      simpa [groupsValue] using hfirst
  | append_singleton rest g ih =>
      have hg := (hgroup g (by simp)).ofDigits_lt
      have ih := ih (fun a ha => hgroup a (by
        rcases List.mem_cons.mp ha with rfl | ha
        · exact List.mem_cons_self
        · exact List.mem_cons_of_mem _ (List.mem_append_left _ ha)))
        fun a ha => hfull a (List.mem_append_left _ ha)
      have hexp : 4 * (first.length + 8 * (rest ++ [g]).length) = 4 * (first.length + 8 * rest.length) + 32 := by
        rw [List.length_append, List.length_singleton]
        omega
      rw [← List.cons_append, groupsValue_concat, hexp, pow_add]
      calc groupsValue (first :: rest) * 2 ^ 32 + ofDigits 16 g
          < (groupsValue (first :: rest) + 1) * 2 ^ 32 := by omega
        _ ≤ 2 ^ (4 * (first.length + 8 * rest.length)) * 2 ^ 32 := Nat.mul_le_mul_right _ ih

/-- The number of a list of ints, the lowest first. -/
def intsValue : List (BitVec 32) → Nat
  | [] => 0
  | a :: start => 2 ^ 32 * intsValue start + a.toNat

theorem intsValue_groups {gs : List (List Char)} (hgs : ∀ g ∈ gs, IsGroup g) :
    intsValue (gs.map fun g => BitVec.ofNat 32 (ofDigits 16 g)).reverse = groupsValue gs := by
  induction gs using List.reverseRecOn with
  | nil => rfl
  | append_singleton gs g ih =>
      have hg := (hgs g (by simp)).ofDigits_lt
      rw [groupsValue_concat, List.map_append, List.map_singleton, List.reverse_append, List.reverse_singleton,
        List.singleton_append, intsValue, ih fun a ha => hgs a (List.mem_append_left _ ha), BitVec.toNat_ofNat,
        Nat.mod_eq_of_lt hg, Nat.mul_comm]

/-- The packed longs hold the bits of the number. -/
theorem bit_packInts (start : List (BitVec 32)) (i : Nat) :
    Words.bit (packInts start) i = (intsValue start).testBit i := by
  have hsplit : ∀ (x : Word) (ws : List Word) (i : Nat),
      Words.bit (x :: ws) i = if i < 64 then x.getLsbD i else Words.bit ws (i - 64) := by
    intro x ws i
    rw [show x :: ws = [x] ++ ws from rfl, Words.bit_append, List.length_singleton, Nat.one_mul]
    split
    · next hi =>
      rw [Words.bit, Nat.div_eq_of_lt hi, Nat.mod_eq_of_lt hi]
      rfl
    · rfl
  induction start using packInts.induct generalizing i with
  | case1 => simp [packInts, intsValue, Words.bit]
  | case2 a =>
      rw [packInts, hsplit, BitVec.getLsbD_setWidth, intsValue, intsValue, Nat.mul_zero, Nat.zero_add]
      split
      · next hi => simp [hi, BitVec.getLsbD]
      · next hi =>
        have hlt : a.toNat < 2 ^ i := a.isLt.trans_le (Nat.pow_le_pow_right (by decide) (by omega))
        rw [Nat.testBit_lt_two_pow hlt]
        simp [Words.bit]
  | case3 a b start ih =>
      rw [packInts, hsplit, intsValue, intsValue, Nat.testBit_two_pow_mul_add _ a.isLt]
      by_cases h32 : i < 32
      · rw [if_pos (by omega), if_pos h32, BitVec.getLsbD_or, BitVec.getLsbD_setWidth, BitVec.getLsbD_shiftLeft]
        simp [h32, show i < 64 by omega, BitVec.getLsbD]
      · rw [if_neg h32, Nat.testBit_two_pow_mul_add _ b.isLt]
        by_cases h64 : i < 64
        · rw [if_pos h64, if_pos (by omega), BitVec.getLsbD_or, BitVec.getLsbD_setWidth,
            BitVec.getLsbD_shiftLeft, BitVec.getLsbD_setWidth,
            BitVec.getLsbD_of_ge a i (by omega)]
          simp [h32, h64, show i - 32 < 64 by omega, BitVec.getLsbD]
        · rw [if_neg h64, if_neg (by omega), ih, Nat.sub_sub]

/-- Stored in an empty mask that the number fits. -/
theorem mem_bits_storeWords {start : List (BitVec 32)} {size : Nat} (hfits : intsValue start < 2 ^ size) (i : Nat) :
    i ∈ (storeWords (packInts start) (zeroBitmask size)).bits ↔ (intsValue start).testBit i = true := by
  have hwords : Words.bit (packInts start ++ (zeroBitmask size).maskp.drop (packInts start).length) i =
      (intsValue start).testBit i := by
    rw [Words.bit_append, ← bit_packInts]
    split
    · rfl
    · next hi =>
      rw [Words.bit_eq_false_of_length_le (Nat.le_of_not_lt hi), Words.bit_drop]
      exact Words.bit_replicate_zero _ _
  refine Bitmask.mem_bits.trans ?_
  change i < size ∧ Words.bit (packInts start ++ (zeroBitmask size).maskp.drop (packInts start).length) i = true ↔ _
  rw [hwords]
  refine ⟨fun h => h.2, fun h => ⟨?_, h⟩⟩
  by_contra hle
  rw [Nat.testBit_lt_two_pow (hfits.trans_le (Nat.pow_le_pow_right (by decide) (Nat.le_of_not_lt hle)))] at h
  cases h

theorem length_le_commaGroups (gs : List (List Char)) : gs.length ≤ (commaGroups gs).length := by
  induction gs with
  | nil => exact le_rfl
  | cons g gs ih =>
      simp only [commaGroups, List.flatMap_cons, List.length_append, List.length_cons] at ih ⊢
      omega

/-! ### Reading the groups -/

section

variable {t : Char} (ht : digitVal t = none) (hcomma : t ≠ ',') (tail : List Char)

include ht hcomma

omit ht in
theorem skipZeros_stop (fuel : Nat) (i : BitVec 32) : skipZeros fuel (i, t :: tail) = (i, t :: tail) := by
  cases fuel with
  | zero => rfl
  | succ fuel =>
      rw [skipZeros]
      split
      · split
        · next heq => exact absurd (List.cons.inj heq).1 hcomma
        · rfl
      · rfl

omit ht in
theorem readInts_stop (tmplen fuel : Nat) (start : List (BitVec 32)) :
    readInts tmplen fuel start (t :: tail) = some start := by
  cases fuel with
  | zero => rfl
  | succ fuel =>
      unfold readInts
      split
      · next heq => exact absurd (List.cons.inj heq).1 hcomma
      · rfl

/-- The loop over leading zeros stops at the first group that is not zero, or with 0 at the end. -/
theorem skipZeros_groups {g : List Char} {gs : List (List Char)} (hgs : ∀ a ∈ g :: gs, IsGroup a) {fuel : Nat}
    (hfuel : gs.length ≤ fuel) :
    (groupsValue (g :: gs) = 0 ∧
      (skipZeros fuel (BitVec.ofNat 32 (ofDigits 16 g), commaGroups gs ++ t :: tail)).1 = 0) ∨
    ∃ h hs, (∀ a ∈ h :: hs, IsGroup a) ∧ ofDigits 16 h ≠ 0 ∧ groupsValue (h :: hs) = groupsValue (g :: gs) ∧
      skipZeros fuel (BitVec.ofNat 32 (ofDigits 16 g), commaGroups gs ++ t :: tail) =
        (BitVec.ofNat 32 (ofDigits 16 h), commaGroups hs ++ t :: tail) := by
  induction gs generalizing g fuel with
  | nil =>
      by_cases hzero : ofDigits 16 g = 0
      · refine Or.inl ⟨groupsValue_cons_of_zero hzero [], ?_⟩
        rw [hzero]
        exact congrArg Prod.fst (skipZeros_stop hcomma tail fuel 0#32)
      · exact Or.inr ⟨g, [], hgs, hzero, rfl, skipZeros_stop hcomma tail fuel _⟩
  | cons b gs ih =>
      obtain ⟨fuel, rfl⟩ := Nat.exists_eq_add_of_lt (Nat.lt_of_lt_of_le (Nat.succ_pos gs.length) hfuel)
      rw [Nat.zero_add] at hfuel ⊢
      by_cases hzero : ofDigits 16 g = 0
      · have hnext := ih (fun a ha => hgs a (List.mem_cons_of_mem g ha)) (Nat.le_of_succ_le_succ hfuel)
        have hstep : skipZeros (fuel + 1) (BitVec.ofNat 32 (ofDigits 16 g), commaGroups (b :: gs) ++ t :: tail) =
            skipZeros fuel (BitVec.ofNat 32 (ofDigits 16 b), commaGroups gs ++ t :: tail) := by
          rw [skipZeros, if_pos (by rw [hzero]; rfl), commaGroups_cons]
          exact congrArg (skipZeros fuel) (strtoulInt_groups (hgs b (by simp)) gs ht tail)
        rw [hstep, groupsValue_cons_of_zero hzero]
        exact hnext
      · refine Or.inr ⟨g, b :: gs, hgs, hzero, rfl, ?_⟩
        exact if_neg fun h => hzero ((ofNat_ofDigits_eq_zero_iff (hgs g List.mem_cons_self)).mp h)

/-- With room for all of them the groups are stored in their order. -/
theorem readInts_groups {tmplen : Nat} {gs : List (List Char)} (hgs : ∀ g ∈ gs, IsGroup g) {fuel : Nat}
    (hfuel : gs.length ≤ fuel) (start : List (BitVec 32)) (hroom : start.length + gs.length ≤ tmplen) :
    readInts tmplen fuel start (commaGroups gs ++ t :: tail) =
      some (start ++ gs.map fun g => BitVec.ofNat 32 (ofDigits 16 g)) := by
  induction gs generalizing fuel start with
  | nil =>
      rw [List.map_nil, List.append_nil]
      exact readInts_stop hcomma tail tmplen fuel start
  | cons g gs ih =>
      rw [List.length_cons] at hroom hfuel
      obtain ⟨fuel, rfl⟩ := Nat.exists_eq_add_of_lt (Nat.lt_of_lt_of_le (Nat.succ_pos gs.length) hfuel)
      rw [Nat.zero_add] at hfuel ⊢
      have hstep : ∀ text, readInts tmplen (fuel + 1) start (',' :: text) =
          if tmplen ≤ start.length then none
          else readInts tmplen fuel (start ++ [(strtoulInt text).1]) (strtoulInt text).2 := fun _ => rfl
      rw [commaGroups_cons, hstep, if_neg (by omega), strtoulInt_groups (hgs g List.mem_cons_self) gs ht tail,
        ih (fun a ha => hgs a (List.mem_cons_of_mem g ha)) (Nat.le_of_succ_le_succ hfuel) _
          (by rw [List.length_append, List.length_singleton]; omega), List.append_assoc]
      rfl

/-- A mask that fits is read into an empty one: afterwards it holds the bits of the number the text stands
for, and they are counted; 0 is answered with -1. -/
theorem readMask_text (m : MaskText) {size : Nat} (hfits : m.value < 2 ^ size) :
    ∃ bmp, readMask (m.text ++ t :: tail) (zeroBitmask size) =
        (if m.value = 0 then -1 else (bmp.bits.card : Int), bmp) ∧
      bmp.size = size ∧ ∀ i, i ∈ bmp.bits ↔ m.value.testBit i = true := by
  have htext : m.text ++ t :: tail = m.first ++ (commaGroups m.rest ++ t :: tail) := List.append_assoc _ _ _
  have hfirst := strtoulInt_groups (m.isGroup m.first List.mem_cons_self) m.rest ht tail
  have hfuel : m.rest.length ≤ (m.first ++ (commaGroups m.rest ++ t :: tail)).length := by
    have := length_le_commaGroups m.rest
    simp only [List.length_append, List.length_cons]
    omega
  unfold readMask
  dsimp only
  rw [htext, hfirst, size_zeroBitmask]
  rcases skipZeros_groups ht hcomma tail m.isGroup hfuel with ⟨hvalue, hskip⟩ | ⟨g, gs, hgs, hne, hvalue, hskip⟩
  · have hzero : m.value = 0 := hvalue
    refine ⟨zeroBitmask size, ?_, rfl, fun i => ?_⟩
    · rw [if_pos hskip, if_pos hzero]
    · simp [hzero]
  · change groupsValue (g :: gs) = m.value at hvalue
    have hbound := le_groupsValue hne gs
    rw [hvalue] at hbound
    have hpos : m.value ≠ 0 := (Nat.lt_of_lt_of_le (Nat.two_pow_pos _) hbound).ne'
    have hlt : 32 * gs.length < size := (Nat.pow_lt_pow_iff_right (by decide)).mp (hbound.trans_lt hfits)
    have hint : ¬BitVec.ofNat 32 (ofDigits 16 g) = 0 :=
      fun h => hne ((ofNat_ofDigits_eq_zero_iff (hgs g List.mem_cons_self)).mp h)
    have hroom : 1 + gs.length ≤ (size + 31) / 32 := by omega
    have hread : readInts ((size + 31) / 32) (commaGroups gs ++ t :: tail).length [BitVec.ofNat 32 (ofDigits 16 g)]
        (commaGroups gs ++ t :: tail) = some ((g :: gs).map fun g => BitVec.ofNat 32 (ofDigits 16 g)) := by
      refine readInts_groups ht hcomma tail (fun a ha => hgs a (List.mem_cons_of_mem g ha)) ?_ _ hroom
      rw [List.length_append]
      exact (length_le_commaGroups gs).trans (Nat.le_add_right _ _)
    have hints := (intsValue_groups hgs).trans hvalue
    rw [hskip]
    dsimp only
    rw [if_neg hint, if_neg (by omega), hread]
    dsimp only
    refine ⟨storeWords (packInts ((g :: gs).map fun g => BitVec.ofNat 32 (ofDigits 16 g)).reverse)
      (zeroBitmask size), ?_, rfl, fun i => ?_⟩
    · rw [if_neg hpos, numaBitmaskWeight_eq]
    · rw [mem_bits_storeWords (hints ▸ hfits), hints]

end

end Numactl
