import Numactl.ParseBitmap

/-! Writing a mask in the format of the kernel's cpumap files and parsing it back. A line is its groups
of hexadecimal digits joined by commas, the highest first. The parser takes the groups two at a time
from the low end, each time leaving a line of the same shape with two groups fewer, so one round of the
loop is described by what it does to the list of groups. -/

namespace Numactl

open CString (isDigitOf digitVal ofDigits hexPad)

/-- Groups given lowest first, written highest first with commas between them. -/
def joined : List (List Char) → List Char
  | [] => []
  | [g] => g
  | g :: gs => joined gs ++ ',' :: g

/-- A group of a cpumap line: at most 32 bits in hexadecimal. -/
structure IsGroup (g : List Char) : Prop where
  ne_nil : g ≠ []
  length_le : g.length ≤ 8
  digits : ∀ c ∈ g, isDigitOf 16 c = true

/-! ### One round of the loop -/

theorem scanBack_eq {text : List Char} {k p : Nat} (hle : k ≤ p) (hstop : k = 0 ∨ text[k]? = some ',')
    (hfree : ∀ j, k < j → j ≤ p → text[j]? ≠ some ',') : scanBack text p = k := by
  induction p with
  | zero => rw [scanBack]; omega
  | succ p ih =>
      obtain rfl | hlt := Nat.eq_or_lt_of_le hle
      · obtain h | h := hstop
        · omega
        · rw [scanBack, if_pos h]
      · rw [scanBack, if_neg (hfree _ hlt le_rfl)]
        exact ih (by omega) fun j hj hjp => hfree j hj (by omega)

theorem IsGroup.ne_comma {g : List Char} (hg : IsGroup g) {rest : List Char} {j : Nat}
    (hj : j < g.length) : (g ++ rest)[j]? ≠ some ',' := by
  rw [List.getElem?_append_left hj]
  intro h
  have hdigit := hg.digits _ (List.mem_of_getElem? h)
  exact absurd hdigit (by decide)

/-- The first walk back over a group, from the character that ends it. -/
theorem scanBack_group (pre tail : List Char) (t : Char) {g : List Char} (hg : IsGroup g) (hpre : pre = [] ∨
    ∃ hi, pre = hi ++ [',']) :
    scanBack (pre ++ g ++ t :: tail)
      (if (pre ++ g ++ t :: tail)[(pre ++ g).length]? = some ',' then (pre ++ g).length - 1
        else (pre ++ g).length) = pre.length - 1 := by
  have hpos := List.length_pos_of_ne_nil hg.ne_nil
  have hlen : (pre ++ g).length = pre.length + g.length := List.length_append
  have hin : ∀ j, pre.length - 1 < j → j < pre.length + g.length →
      (pre ++ g ++ t :: tail)[j]? ≠ some ',' := by
    intro j hj hjlt
    have hlt : pre.length ≤ j := by omega
    rw [List.append_assoc, List.getElem?_append_right hlt]
    exact hg.ne_comma (by omega)
  have hstop : pre.length - 1 = 0 ∨ (pre ++ g ++ t :: tail)[pre.length - 1]? = some ',' := by
    obtain rfl | ⟨hi, rfl⟩ := hpre
    · exact Or.inl rfl
    · refine Or.inr ?_
      simp
  rw [hlen]
  split
  · exact scanBack_eq (by omega) hstop fun j hj hjp => hin j hj (by omega)
  · next hcomma =>
    refine scanBack_eq (by omega) hstop fun j hj hjp => ?_
    obtain rfl | hlt := Nat.eq_or_lt_of_le hjp
    · exact hcomma
    · exact hin j hj hlt

/-- Moving a text and the character behind it over the character in front. -/
theorem memmoveDown_append (x y z : List Char) (c t : Char) :
    memmoveDown (x ++ c :: (y ++ t :: z)) x.length (y.length + 1) = x ++ y ++ t :: t :: z := by
  have htake : (y ++ t :: z).take (y.length + 1) = y ++ [t] := by
    rw [List.append_cons]
    exact List.take_left' (by simp)
  rw [memmoveDown, List.take_left, ← List.drop_drop, List.drop_left, List.drop_succ_cons, List.drop_zero,
    htake, ← List.drop_drop, List.drop_left, List.drop_succ_cons, List.drop_left]
  simp

/-- The last group of the line. -/
theorem cutField_single {g tail : List Char} {t : Char} (hg : IsGroup g) :
    cutField (g ++ t :: tail) g.length = (g ++ t :: tail, 0, g.length) := by
  have hpos := List.length_pos_of_ne_nil hg.ne_nil
  have hback := scanBack_group [] tail t hg (Or.inl rfl)
  rw [List.nil_append, List.length_nil] at hback
  unfold cutField
  dsimp only
  rw [hback]
  simp only [Nat.lt_irrefl, if_false, Nat.zero_sub]
  rw [if_neg (hg.ne_comma hpos)]

/-- Two groups: the comma between them is gone, and the character that ended the line stands once more
behind them. -/
theorem cutField_pair {pre b a : List Char} (tail : List Char) (t : Char) (hb : IsGroup b) (ha : IsGroup a)
    (hpre : pre = [] ∨ ∃ hi, pre = hi ++ [',']) :
    cutField (pre ++ b ++ ',' :: a ++ t :: tail) (pre ++ b ++ ',' :: a).length =
      (pre ++ b ++ a ++ t :: t :: tail, pre.length, (pre ++ b ++ a).length) := by
  have hbpos := List.length_pos_of_ne_nil hb.ne_nil
  have hback := scanBack_group (pre ++ b ++ [',']) tail t ha
    (Or.inr ⟨pre ++ b, rfl⟩)
  rw [show pre ++ b ++ [','] ++ a = pre ++ b ++ ',' :: a by simp,
    show (pre ++ b ++ [',']).length - 1 = (pre ++ b).length by simp] at hback
  have hpos : 0 < (pre ++ b).length := by rw [List.length_append]; omega
  have hmove : memmoveDown (pre ++ b ++ ',' :: a ++ t :: tail) (pre ++ b).length
      ((pre ++ b ++ ',' :: a).length - 1 - (pre ++ b).length + 1) = pre ++ b ++ a ++ t :: t :: tail := by
    have hn : (pre ++ b ++ ',' :: a).length - 1 - (pre ++ b).length + 1 = a.length + 1 := by
      simp only [List.length_append, List.length_cons]
      omega
    rw [hn, show pre ++ b ++ ',' :: a ++ t :: tail = pre ++ b ++ ',' :: (a ++ t :: tail) by simp,
      memmoveDown_append]
  have hagain : scanBack (pre ++ b ++ a ++ t :: t :: tail) (pre ++ b).length = pre.length - 1 := by
    obtain ⟨c, a', rfl⟩ := List.exists_cons_of_ne_nil ha.ne_nil
    have h := scanBack_group pre (a' ++ t :: t :: tail) c hb hpre
    have hc : (pre ++ b ++ c :: (a' ++ t :: t :: tail))[(pre ++ b).length]? ≠ some ',' := by
      rw [List.getElem?_append_right le_rfl, Nat.sub_self]
      intro hcomma
      have hdigit := ha.digits c List.mem_cons_self
      rw [Option.some.inj hcomma] at hdigit
      exact absurd hdigit (by decide)
    rw [if_neg hc] at h
    simpa using h
  unfold cutField
  dsimp only
  rw [hback, if_pos hpos, if_pos hpos, if_pos hpos, hmove, hagain]
  have hend : (pre ++ b ++ ',' :: a).length - 1 = (pre ++ b ++ a).length := by
    simp only [List.length_append, List.length_cons]
    omega
  rw [hend]
  obtain rfl | ⟨hi, rfl⟩ := hpre
  · have hfirst : ([] ++ b ++ a ++ t :: t :: tail)[0]? ≠ some ',' := by
      rw [List.nil_append, List.append_assoc]
      exact hb.ne_comma hbpos
    rw [List.length_nil, Nat.zero_sub, if_neg hfirst]
  · have hcomma : (hi ++ [','] ++ b ++ a ++ t :: t :: tail)[(hi ++ [',']).length - 1]? = some ',' := by
      simp
    rw [if_pos hcomma, Nat.sub_add_cancel (by simp)]

/-- A round whose field is the digits `ds` behind `pre`. -/
theorem parseFields_step {ncpus : BitVec 32} (pre : List Char) {text ds tail : List Char} {t : Char} {p : Nat}
    (hp : 0 < p) (hcut : cutField text p = (pre ++ ds ++ t :: tail, pre.length, (pre ++ ds).length))
    (hne : ds ≠ []) (hlen : ds.length ≤ 16) (hds : ∀ c ∈ ds, isDigitOf 16 c = true)
    (ht : digitVal t = none) (i : Nat) (mask : List Word) :
    parseFields ncpus p text p i mask =
      if cpuLongsInt ncpus ≤ i then (-1, mask)
      else parseFields ncpus (pre.length - 1) (pre ++ ds ++ t :: tail) (pre.length - 1) (i + 1)
        (mask.set i (BitVec.ofNat 64 (ofDigits 16 ds))) := by
  have hlt : ofDigits 16 ds ≤ CString.ulongMax := by
    have hpow := (CString.ofDigits_lt hds).trans_le (Nat.pow_le_pow_right (by decide : 0 < 16) hlen)
    rw [CString.ulongMax]
    omega
  have hnumber : CString.strtoul 16 ((pre ++ ds ++ t :: tail).drop pre.length) =
      (ofDigits 16 ds, t :: tail) := by
    rw [List.append_assoc, List.drop_left]
    exact CString.strtoul_hex hne hds hlt ht tail
  have hend : (pre ++ ds ++ t :: tail).length - (t :: tail).length = (pre ++ ds).length := by
    rw [List.length_append, Nat.add_sub_cancel]
  have hfall := cutField_lt text hp
  rw [hcut] at hfall
  obtain ⟨q, rfl⟩ := Nat.exists_eq_succ_of_ne_zero hp.ne'
  rw [parseFields, if_neg hp.ne', hcut]
  dsimp only
  rw [hnumber]
  dsimp only
  rw [if_neg (not_not_intro hend), parseFields_fuel ncpus (by dsimp only at hfall; omega)]

/-- The digits the parser takes as its next word: the lowest group, with the one above it in front. -/
def lowDigits (gs : List (List Char)) : List Char := gs.getD 1 [] ++ gs.getD 0 []

/-- One round on a line of groups leaves a line of the groups above the two lowest. -/
theorem parseFields_joined (ncpus : BitVec 32) {gs : List (List Char)} (hgs : ∀ g ∈ gs, IsGroup g)
    (hne : gs ≠ []) {t : Char} (ht : digitVal t = none) (tail : List Char) (i : Nat) (mask : List Word) :
    ∃ t' tail', digitVal t' = none ∧
      parseFields ncpus (joined gs).length (joined gs ++ t :: tail) (joined gs).length i mask =
        if cpuLongsInt ncpus ≤ i then (-1, mask)
        else parseFields ncpus (joined (gs.drop 2)).length (joined (gs.drop 2) ++ t' :: tail')
          (joined (gs.drop 2)).length (i + 1)
          (mask.set i (BitVec.ofNat 64 (ofDigits 16 (lowDigits gs)))) := by
  match gs, hne with
  | [a], _ =>
      have ha := hgs a (by simp)
      refine ⟨t, tail, ht, ?_⟩
      exact parseFields_step [] (List.length_pos_of_ne_nil ha.ne_nil) (cutField_single ha)
        ha.ne_nil (ha.length_le.trans (by decide)) ha.digits ht i mask
  | a :: b :: gs, _ =>
      have ha := hgs a (by simp)
      have hb := hgs b (by simp)
      have hpair : ∀ pre, (pre = [] ∨ ∃ hi, pre = hi ++ [',']) →
          joined (a :: b :: gs) = pre ++ b ++ ',' :: a →
          parseFields ncpus (joined (a :: b :: gs)).length (joined (a :: b :: gs) ++ t :: tail)
            (joined (a :: b :: gs)).length i mask =
          if cpuLongsInt ncpus ≤ i then (-1, mask)
          else parseFields ncpus (pre.length - 1) (pre ++ (b ++ a) ++ t :: t :: tail) (pre.length - 1)
            (i + 1) (mask.set i (BitVec.ofNat 64 (ofDigits 16 (b ++ a)))) := by
        intro pre hpre hjoined
        have hlen : (b ++ a).length ≤ 16 := by
          have := ha.length_le
          have := hb.length_le
          rw [List.length_append]
          omega
        have hdigits : ∀ c ∈ b ++ a, isDigitOf 16 c = true := fun c hc =>
          (List.mem_append.mp hc).elim (hb.digits c) (ha.digits c)
        have hcut := cutField_pair tail t hb ha hpre
        rw [List.append_assoc pre b a] at hcut
        rw [hjoined]
        exact parseFields_step pre (by simp) hcut (by simp [ha.ne_nil]) hlen hdigits ht i mask
      cases gs with
      | nil => exact ⟨t, tail, ht, hpair [] (Or.inl rfl) rfl⟩
      | cons c gs =>
          refine ⟨',', b ++ a ++ t :: t :: tail, by decide, ?_⟩
          rw [hpair (joined (c :: gs) ++ [',']) (Or.inr ⟨_, rfl⟩) (by simp [joined])]
          simp [lowDigits]

/-- The words the parser makes of a list of groups. -/
def groupWords : List (List Char) → List Word
  | [] => []
  | [a] => [BitVec.ofNat 64 (ofDigits 16 a)]
  | a :: b :: gs => BitVec.ofNat 64 (ofDigits 16 (b ++ a)) :: groupWords gs

theorem groupWords_eq_cons {gs : List (List Char)} (hne : gs ≠ []) :
    groupWords gs = BitVec.ofNat 64 (ofDigits 16 (lowDigits gs)) :: groupWords (gs.drop 2) := by
  match gs, hne with
  | [a], _ => rfl
  | a :: b :: gs, _ => rfl

/-- With room for all words the line is read to its start, else the loop stops at the first word there
is no room for. -/
theorem parseFields_line (ncpus : BitVec 32) (n : Nat) {gs : List (List Char)} (hn : gs.length ≤ n)
    (hgs : ∀ g ∈ gs, IsGroup g) {t : Char} (ht : digitVal t = none) (tail : List Char)
    (done old : List Word) (hold : old.length = (groupWords gs).length)
    (hroom : done.length ≤ cpuLongsInt ncpus) :
    (done.length + (groupWords gs).length ≤ cpuLongsInt ncpus →
      parseFields ncpus (joined gs).length (joined gs ++ t :: tail) (joined gs).length done.length
        (done ++ old) = (0, done ++ groupWords gs)) ∧
    (cpuLongsInt ncpus < done.length + (groupWords gs).length →
      (parseFields ncpus (joined gs).length (joined gs ++ t :: tail) (joined gs).length done.length
        (done ++ old)).1 = -1) := by
  induction n generalizing gs t tail done old with
  | zero =>
      have hnil : gs = [] := List.length_eq_zero_iff.mp (Nat.le_zero.mp hn)
      subst hnil
      rw [groupWords, List.length_nil, List.length_eq_zero_iff] at hold
      subst hold
      exact ⟨fun _ => rfl, fun h => absurd h (by simpa [groupWords] using hroom)⟩
  | succ n ih =>
      by_cases hne : gs = []
      · subst hne
        rw [groupWords, List.length_nil, List.length_eq_zero_iff] at hold
        subst hold
        exact ⟨fun _ => rfl, fun h => absurd h (by simpa [groupWords] using hroom)⟩
      obtain ⟨t', tail', ht', hround⟩ := parseFields_joined ncpus hgs hne ht tail done.length
        (done ++ old)
      rw [groupWords_eq_cons hne, List.length_cons] at hold ⊢
      obtain ⟨w, old, rfl⟩ := List.exists_cons_of_length_eq_add_one hold
      have hset : ∀ v, (done ++ w :: old).set done.length v = (done ++ [v]) ++ old := by simp
      rw [hround, hset]
      by_cases hfull : cpuLongsInt ncpus ≤ done.length
      · rw [if_pos hfull]
        exact ⟨fun h => by omega, fun _ => rfl⟩
      · rw [if_neg hfull]
        have hrest : (gs.drop 2).length ≤ n := by rw [List.length_drop]; omega
        have hrec := ih hrest (fun g hg => hgs g (List.mem_of_mem_drop hg)) ht' tail'
          (done ++ [BitVec.ofNat 64 (ofDigits 16 (lowDigits gs))]) old (by simpa using hold)
          (by rw [List.length_append, List.length_singleton]; omega)
        rw [List.length_append, List.length_singleton] at hrec
        refine ⟨fun h => ?_, fun h => hrec.2 (by omega)⟩
        rw [hrec.1 (by omega), List.append_assoc]
        rfl

/-! ### The written line -/

def chunksOf (size : Nat) : Nat := (size + 31) / 32

/-- The bits of a group: 32, but for the highest when the size is no multiple of 32. -/
def chunksz (size g : Nat) : Nat :=
  if g + 1 = chunksOf size ∧ size % 32 ≠ 0 then size % 32 else 32

/-- The bits of group `g` as a number. -/
def chunkVal (mask : Bitmask) (g : Nat) : Nat :=
  (mask.maskp.getD (32 * g / 64) 0 >>> (32 * g % 64)).toNat % 2 ^ chunksz mask.size g

/-- `%0*lx` with the digits the group's bits need. -/
def chunkText (mask : Bitmask) (g : Nat) : List Char :=
  hexPad ((chunksz mask.size g + 3) / 4) (chunkVal mask g)

def chunkTexts (mask : Bitmask) : List (List Char) :=
  (List.range (chunksOf mask.size)).map (chunkText mask)

/-- `bitmap_scnprintf`, the writer of the kernel's cpumap format. -/
def bitmapScnprintf (mask : Bitmask) : List Char := joined (chunkTexts mask)

/-- A cpumap file holding the mask. -/
def cpumapLine (mask : Bitmask) : List Char := bitmapScnprintf mask ++ ['\n']

theorem chunksz_pos (size g : Nat) : 0 < chunksz size g := by
  unfold chunksz
  split <;> omega

theorem chunksz_le (size g : Nat) : chunksz size g ≤ 32 := by
  unfold chunksz
  split <;> omega

/-- A group below the number of groups holds the bits from its own place on, up to the size. -/
theorem lt_chunksz {size g j : Nat} (hg : g < chunksOf size) :
    j < chunksz size g ↔ j < 32 ∧ 32 * g + j < size := by
  unfold chunksz
  rw [chunksOf] at *
  split <;> omega

theorem testBit_chunkVal {mask : Bitmask} {g : Nat} (hg : g < chunksOf mask.size) (j : Nat) :
    (chunkVal mask g).testBit j =
      (decide (j < 32) && decide (32 * g + j < mask.size) && Words.bit mask.maskp (32 * g + j)) := by
  rw [chunkVal, Nat.testBit_mod_two_pow]
  simp only [lt_chunksz hg]
  by_cases hj : j < 32
  · have hsplit : 32 * g / 64 * 64 + (32 * g % 64 + j) = 32 * g + j := by omega
    have hbit : (mask.maskp.getD (32 * g / 64) 0 >>> (32 * g % 64)).toNat.testBit j =
        Words.bit mask.maskp (32 * g + j) := by
      have hword := Words.bit_getD mask.maskp (32 * g / 64) (show 32 * g % 64 + j < 64 by omega)
      rw [hsplit] at hword
      rw [BitVec.testBit_toNat, BitVec.getLsbD_ushiftRight]
      exact hword
    rw [hbit]
    simp [hj]
  · simp [hj]

theorem chunkVal_lt (mask : Bitmask) (g : Nat) : chunkVal mask g < 16 ^ ((chunksz mask.size g + 3) / 4) := by
  calc chunkVal mask g < 2 ^ chunksz mask.size g := Nat.mod_lt _ (Nat.two_pow_pos _)
    _ ≤ 2 ^ (4 * ((chunksz mask.size g + 3) / 4)) := Nat.pow_le_pow_right (by decide) (by omega)
    _ = 16 ^ ((chunksz mask.size g + 3) / 4) := by rw [Nat.pow_mul]

theorem ofDigits_chunkText (mask : Bitmask) (g : Nat) :
    ofDigits 16 (chunkText mask g) = chunkVal mask g := by
  rw [chunkText, CString.ofDigits_hexPad, Nat.mod_eq_of_lt (chunkVal_lt mask g)]

theorem isGroup_chunkText (mask : Bitmask) (g : Nat) : IsGroup (chunkText mask g) where
  ne_nil h := by
    have hlen := congrArg List.length h
    have := chunksz_pos mask.size g
    rw [chunkText, CString.length_hexPad, List.length_nil] at hlen
    omega
  length_le := by
    have := chunksz_le mask.size g
    rw [chunkText, CString.length_hexPad]
    omega
  digits _ hc := CString.isDigitOf_of_mem_hexPad hc

theorem isGroup_of_mem_chunkTexts {mask : Bitmask} {g : List Char} (h : g ∈ chunkTexts mask) :
    IsGroup g := by
  obtain ⟨k, -, rfl⟩ := List.mem_map.mp h
  exact isGroup_chunkText mask k

/-- The first newline of the line is its last character. -/
theorem newline_notMem_joined {gs : List (List Char)} (hgs : ∀ g ∈ gs, IsGroup g) :
    '\n' ∉ joined gs := by
  have hgroup : ∀ g, IsGroup g → '\n' ∉ g := fun g hg h => absurd (hg.digits _ h) (by decide)
  induction gs with
  | nil => exact List.not_mem_nil
  | cons g gs ih =>
      have hg := hgroup g (hgs g List.mem_cons_self)
      cases gs with
      | nil => exact hg
      | cons g' gs =>
          have hrest := ih fun a ha => hgs a (List.mem_cons_of_mem g ha)
          simp [joined, hrest, hg]

theorem length_groupWords (gs : List (List Char)) : (groupWords gs).length = (gs.length + 1) / 2 := by
  induction gs using groupWords.induct with
  | case1 => rfl
  | case2 a => simp [groupWords]
  | case3 a b gs ih =>
      rw [groupWords, List.length_cons, ih, List.length_cons, List.length_cons]
      omega

theorem getD_groupWords (gs : List (List Char)) (k : Nat) :
    (groupWords gs).getD k 0 =
      BitVec.ofNat 64 (ofDigits 16 (gs.getD (2 * k + 1) [] ++ gs.getD (2 * k) [])) := by
  induction gs using groupWords.induct generalizing k with
  | case1 => simp [groupWords, ofDigits]
  | case2 a =>
      cases k with
      | zero => rfl
      | succ k => simp [groupWords, ofDigits, Nat.mul_add]
  | case3 a b gs ih =>
      cases k with
      | zero => rfl
      | succ k =>
          rw [groupWords, List.getD_cons_succ, ih, Nat.mul_add]
          rfl

/-- The digits of group `g` are the mask's bits from `32 * g` on; past the last group both are empty. -/
theorem testBit_ofDigits_chunkTexts (mask : Bitmask) (g j : Nat) :
    (ofDigits 16 ((chunkTexts mask).getD g [])).testBit j =
      (decide (j < 32) && decide (32 * g + j < mask.size) && Words.bit mask.maskp (32 * g + j)) := by
  by_cases hg : g < chunksOf mask.size
  · rw [chunkTexts, List.getD_eq_getElem _ _ (by simpa using hg), List.getElem_map, List.getElem_range,
      ofDigits_chunkText, testBit_chunkVal hg]
  · have hpast : ¬32 * g + j < mask.size := by rw [chunksOf] at hg; omega
    rw [List.getD_eq_default _ _ (by simpa [chunkTexts] using hg)]
    simp [ofDigits, hpast]

theorem ofDigits_pair (mask : Bitmask) (k : Nat) :
    ofDigits 16 ((chunkTexts mask).getD (2 * k + 1) [] ++ (chunkTexts mask).getD (2 * k) []) =
      2 ^ 32 * ofDigits 16 ((chunkTexts mask).getD (2 * k + 1) []) +
        ofDigits 16 ((chunkTexts mask).getD (2 * k) []) := by
  rw [CString.ofDigits_append, Nat.mul_comm]
  by_cases hk : 2 * k + 1 < chunksOf mask.size
  · have hlen : ((chunkTexts mask).getD (2 * k) []).length = 8 := by
      have hfull : chunksz mask.size (2 * k) = 32 := if_neg (by omega)
      rw [chunkTexts, List.getD_eq_getElem _ _ (by simp; omega), List.getElem_map, List.getElem_range,
        chunkText, CString.length_hexPad, hfull]
    rw [hlen, show 16 ^ 8 = 2 ^ 32 by decide]
  · have hnil : (chunkTexts mask).getD (2 * k + 1) [] = [] :=
      List.getD_eq_default _ _ (by simpa [chunkTexts] using hk)
    rw [hnil]
    simp [ofDigits]

/-- The words the parser makes of a written line hold the mask's bits below its size and no others. -/
theorem bit_groupWords_chunkTexts (mask : Bitmask) (i : Nat) :
    Words.bit (groupWords (chunkTexts mask)) i =
      (decide (i < mask.size) && Words.bit mask.maskp i) := by
  have hmod : i % 64 < 64 := Nat.mod_lt i (by decide)
  have hlow : ofDigits 16 ((chunkTexts mask).getD (2 * (i / 64)) []) < 2 ^ 32 := by
    apply Nat.lt_pow_two_of_testBit
    intro j hj
    rw [testBit_ofDigits_chunkTexts]
    simp [Nat.not_lt.mpr hj]
  rw [Words.bit, show (0#64 : Word) = 0 from rfl, getD_groupWords, BitVec.getLsbD_ofNat, ofDigits_pair,
    Nat.testBit_two_pow_mul_add _ hlow]
  simp only [hmod, decide_true, Bool.true_and]
  split
  · next hj =>
    have hi : 32 * (2 * (i / 64)) + i % 64 = i := by omega
    rw [testBit_ofDigits_chunkTexts, hi]
    simp [hj]
  · next hj =>
    have hi : 32 * (2 * (i / 64) + 1) + (i % 64 - 32) = i := by omega
    have hj' : i % 64 - 32 < 32 := by omega
    rw [testBit_ofDigits_chunkTexts, hi]
    simp [hj']

theorem length_groupWords_chunkTexts (mask : Bitmask) :
    (groupWords (chunkTexts mask)).length = longsperbits mask.size := by
  rw [length_groupWords, chunkTexts, List.length_map, List.length_range, chunksOf, longsperbits,
    bitsperlong]
  omega

/-- Parsing a written line into as many words as the mask has. -/
theorem numaParseBitmapV1_cpumapLine (mask : Bitmask) (ncpus : BitVec 32) (old : List Word)
    (hold : old.length = longsperbits mask.size) :
    (longsperbits mask.size ≤ cpuLongsInt ncpus →
      numaParseBitmapV1 (cpumapLine mask) old ncpus = (0, groupWords (chunkTexts mask))) ∧
    (cpuLongsInt ncpus < longsperbits mask.size →
      (numaParseBitmapV1 (cpumapLine mask) old ncpus).1 = -1) := by
  have hgs : ∀ g ∈ chunkTexts mask, IsGroup g := fun g hg => isGroup_of_mem_chunkTexts hg
  have hnewline : (cpumapLine mask).idxOf '\n' = (joined (chunkTexts mask)).length := by
    rw [cpumapLine, bitmapScnprintf, List.idxOf_append_of_notMem (newline_notMem_joined hgs)]
    rfl
  have hline := parseFields_line ncpus _ le_rfl hgs (by decide : digitVal '\n' = none) [] []
    old (by rw [hold, length_groupWords_chunkTexts]) (Nat.zero_le _)
  rw [length_groupWords_chunkTexts, List.length_nil, Nat.zero_add, List.nil_append,
    List.nil_append] at hline
  rw [numaParseBitmapV1, if_pos (by simp [cpumapLine]), hnewline]
  exact hline

/-- The written line is parsed back by both versions: the mask's bits by version 2, the same words by
version 1. -/
structure RoundTrips (mask : Bitmask) : Prop where
  v2 : (numaParseBitmapV2 (cpumapLine mask) (zeroBitmask mask.size)).1 = 0
  bits : (numaParseBitmapV2 (cpumapLine mask) (zeroBitmask mask.size)).2.bits = mask.bits
  v1 : numaParseBitmapV1 (cpumapLine mask) (List.replicate (longsperbits mask.size) 0)
    (BitVec.ofNat 32 mask.size) =
      (0, (numaParseBitmapV2 (cpumapLine mask) (zeroBitmask mask.size)).2.maskp)

/-- The round trip succeeds exactly when the size, stored in an `int`, still asks for all the words. -/
theorem roundTrips_iff (mask : Bitmask) :
    RoundTrips mask ↔ longsperbits mask.size ≤ cpuLongsInt (BitVec.ofNat 32 mask.size) := by
  have hparse := numaParseBitmapV1_cpumapLine mask (BitVec.ofNat 32 mask.size)
    (List.replicate (longsperbits mask.size) 0) List.length_replicate
  refine ⟨fun h => ?_, fun h => ?_⟩
  · by_contra hshort
    have hfail := hparse.2 (Nat.lt_of_not_le hshort)
    rw [h.v1] at hfail
    exact absurd hfail (by simp)
  · have hok := hparse.1 h
    have hv2 : (numaParseBitmapV2 (cpumapLine mask) (zeroBitmask mask.size)).2.maskp =
        groupWords (chunkTexts mask) := congrArg Prod.snd hok
    refine ⟨congrArg Prod.fst hok, ?_, ?_⟩
    · apply Finset.ext
      intro i
      rw [Bitmask.mem_bits, hv2, bit_groupWords_chunkTexts, Bitmask.mem_bits, size_numaParseBitmapV2,
        size_zeroBitmask]
      by_cases hi : i < mask.size <;> simp [hi]
    · rw [hv2, hok]

theorem cpuLongsInt_eq (ncpus : BitVec 32) :
    cpuLongsInt ncpus = (ncpus.signExtend 64 + 63#64).toNat / 64 := by
  have hmask : (~~~63#64).toNat >>> 6 = 2 ^ 58 - 1 := by decide
  have hlt : (ncpus.signExtend 64 + 63#64).toNat < 2 ^ 64 := BitVec.isLt _
  rw [cpuLongsInt, Nat.div_div_eq_div_mul, BitVec.toNat_and, show 8 * 8 = 2 ^ 6 by decide,
    ← Nat.shiftRight_eq_div_pow, Nat.shiftRight_and_distrib, hmask, Nat.and_two_pow_sub_one_eq_mod,
    Nat.shiftRight_eq_div_pow, Nat.mod_eq_of_lt (by omega)]

/-- Below 2 ^ 31 the `int` is the size. From there on it is negative and asks, as an `unsigned long`, for
far more words than the mask has, until rounding it up wraps around to 0. -/
theorem longsperbits_le_cpuLongsInt_iff {n : Nat} (hn : n < 2 ^ 32) :
    longsperbits n ≤ cpuLongsInt (BitVec.ofNat 32 n) ↔ n ≤ 2 ^ 32 - 64 := by
  have hval : (BitVec.ofNat 32 n).toNat = n := Nat.mod_eq_of_lt hn
  rw [cpuLongsInt_eq, BitVec.toNat_add, BitVec.toNat_signExtend, BitVec.toNat_setWidth, hval,
    BitVec.msb_eq_decide, hval, longsperbits, bitsperlong, BitVec.toNat_ofNat]
  simp only [decide_eq_true_eq]
  by_cases hneg : 2 ^ (32 - 1) ≤ n
  · rw [if_pos hneg]
    omega
  · rw [if_neg hneg]
    omega

/-- Masks as `numa_bitmask_alloc` makes them, whose argument is an `unsigned int`. -/
theorem roundTrips_iff_size_le (mask : Bitmask) (halloc : mask.size < 2 ^ 32) :
    RoundTrips mask ↔ mask.size ≤ 2 ^ 32 - 64 := by
  rw [roundTrips_iff, longsperbits_le_cpuLongsInt_iff halloc]

theorem roundTrips_iff_size_le_300 :
    RoundTrips (numaBitmaskSetbit (zeroBitmask 300) 17) ↔ 300 ≤ 2 ^ 32 - 64 :=
  roundTrips_iff_size_le (numaBitmaskSetbit (zeroBitmask 300) 17) (by decide)

/-- A mask of the largest size: its line is refused at the first word. -/
theorem not_roundTrips_max : ¬RoundTrips (zeroBitmask (2 ^ 32 - 1)) := by
  intro h
  have hlongs := (roundTrips_iff _).mp h
  rw [size_zeroBitmask, longsperbits_le_cpuLongsInt_iff (by decide)] at hlongs
  exact absurd hlongs (by decide)

end Numactl
