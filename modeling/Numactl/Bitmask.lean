import Numactl.Base.Words

/-! The bitmasks of libnuma (`libnuma.c`, `numa.h`), on a machine with 64-bit longs. A `struct bitmask`
is a bit count with a pointer to words; a version 1 `nodemask_t` is a fixed array of words. Source names
keep their words: `_getbit` is `getbit`, `numa_bitmask_setbit` is `numaBitmaskSetbit`. Loops over bit
numbers are folds over `List.range`, and a `memcpy` or `memset` of `CPU_BYTES` bytes moves whole words.
After each operation comes the lemma that says which numbers the mask holds. -/

namespace Numactl

/-- `unsigned long`. -/
abbrev Word := BitVec 64

def bitsperlong : Nat := 64

def longsperbits (n : Nat) : Nat := (n + (bitsperlong - 1)) / bitsperlong

def roundUp (x y : Nat) : Nat := (x + (y - 1)) / y * y

def cpuBytes (x : Nat) : Nat := roundUp x bitsperlong / 8

def cpuLongs (x : Nat) : Nat := cpuBytes x / 8

theorem cpuLongs_eq (x : Nat) : cpuLongs x = longsperbits x := by
  simp only [cpuLongs, cpuBytes, roundUp, longsperbits, bitsperlong]
  omega

theorem le_longsperbits (n : Nat) : n ≤ longsperbits n * 64 := by
  simp only [longsperbits, bitsperlong]
  omega

theorem longsperbits_mono {m n : Nat} (h : m ≤ n) : longsperbits m ≤ longsperbits n := by
  simp only [longsperbits, bitsperlong]
  omega

/-- `struct bitmask`. The storage holds every word the bit count needs; it may hold more, as where a
caller points a small bitmask at a larger array. -/
@[ext] structure Bitmask where
  size : Nat
  maskp : List Word
  fits : longsperbits size ≤ maskp.length
  deriving DecidableEq

namespace Bitmask

/-- The numbers a mask holds: the set bits below its size. -/
def bits (bmp : Bitmask) : Finset Nat := Words.bitsBelow bmp.maskp bmp.size

theorem mem_bits {bmp : Bitmask} {i : Nat} :
    i ∈ bmp.bits ↔ i < bmp.size ∧ Words.bit bmp.maskp i = true :=
  Words.mem_bitsBelow

theorem size_le_storage (bmp : Bitmask) : bmp.size ≤ bmp.maskp.length * 64 :=
  (le_longsperbits bmp.size).trans (Nat.mul_le_mul_right 64 bmp.fits)

end Bitmask

def getbit (bmp : Bitmask) (n : Nat) : Bool :=
  if n < bmp.size then (bmp.maskp.getD (n / bitsperlong) 0).getLsbD (n % bitsperlong) else false

def setbit (bmp : Bitmask) (n : Nat) (v : Bool) : Bitmask :=
  if n < bmp.size then
    { bmp with
      maskp := Words.setBit bmp.maskp n v
      fits := by rw [Words.length_setBit]; exact bmp.fits }
  else bmp

def numaBitmaskIsbitset (bmp : Bitmask) (i : Nat) : Bool := getbit bmp i

def numaBitmaskSetall (bmp : Bitmask) : Bitmask :=
  (List.range bmp.size).foldl (fun b i => setbit b i true) bmp

def numaBitmaskClearall (bmp : Bitmask) : Bitmask :=
  (List.range bmp.size).foldl (fun b i => setbit b i false) bmp

def numaBitmaskSetbit (bmp : Bitmask) (i : Nat) : Bitmask := setbit bmp i true

def numaBitmaskClearbit (bmp : Bitmask) (i : Nat) : Bitmask := setbit bmp i false

def numaBitmaskNbytes (bmp : Bitmask) : Nat := longsperbits bmp.size * 8

/-- The mask `numa_bitmask_alloc` returns for a positive bit count: all words zero. -/
def zeroBitmask (n : Nat) : Bitmask where
  size := n
  maskp := List.replicate (longsperbits n) 0
  fits := by rw [List.length_replicate]

/-- Values of `errno`. -/
abbrev Errno := Nat

def ENOENT : Errno := 2

def EINVAL : Errno := 22

def ERANGE : Errno := 34

/-- `none` stands for the null pointer. Running out of memory, which exits, is not modelled. -/
def numaBitmaskAlloc (n : Nat) : Option Bitmask :=
  if n < 1 then none else some (zeroBitmask n)

def numaBitmaskEqual (bmp1 bmp2 : Bitmask) : Bool :=
  (List.range (max bmp1.size bmp2.size)).all fun i => getbit bmp1 i == getbit bmp2 i

def numaBitmaskWeight (bmp : Bitmask) : Nat :=
  (List.range bmp.size).countP fun i => getbit bmp i

/-- `numa_find_first`, and `find_first` of `util.c`: the lowest set bit, -1 when there is none. -/
def numaFindFirst (mask : Bitmask) : Int :=
  match (List.range mask.size).find? fun i => numaBitmaskIsbitset mask i with
  | some i => i
  | none => -1

/-- Copies whole words: `memcpy` of `CPU_BYTES` of the smaller size, then `memset` of what is left of a
larger destination. -/
def copyBitmaskToBitmask (bmpfrom bmpto : Bitmask) : Bitmask :=
  if hle : bmpto.size ≤ bmpfrom.size then
    { size := bmpto.size
      maskp := Words.copy (cpuLongs bmpto.size) bmpfrom.maskp bmpto.maskp
      fits := by
        rw [cpuLongs_eq, Words.length_copy ((longsperbits_mono hle).trans bmpfrom.fits) bmpto.fits]
        exact bmpto.fits }
  else
    { size := bmpto.size
      maskp := Words.clear (cpuLongs bmpfrom.size) (cpuLongs bmpto.size)
        (Words.copy (cpuLongs bmpfrom.size) bmpfrom.maskp bmpto.maskp)
      fits := by
        have hlt : longsperbits bmpfrom.size ≤ longsperbits bmpto.size := longsperbits_mono (by omega)
        have hcopy := Words.length_copy bmpfrom.fits (hlt.trans bmpto.fits)
        rw [cpuLongs_eq, cpuLongs_eq, Words.length_clear hlt (by rw [hcopy]; exact bmpto.fits), hcopy]
        exact bmpto.fits }

/-! ### The version 1 `nodemask_t` -/

/-- The two cases of the preprocessor conditional around `NUMA_NUM_NODES`. -/
inductive Arch where
  | x86
  | other
  deriving DecidableEq

def numaNumNodes : Arch → Nat
  | .x86 => 128
  | .other => 2048

/-- `nodemask_t`. -/
@[ext] structure Nodemask (arch : Arch) where
  n : List Word
  len : n.length = numaNumNodes arch / bitsperlong
  deriving DecidableEq

/-- `sizeof(nodemask_t)`, in bytes. -/
def sizeofNodemask (arch : Arch) : Nat := numaNumNodes arch / bitsperlong * 8

variable {arch : Arch}

def zeroNodemask (arch : Arch) : Nodemask arch where
  n := List.replicate (numaNumNodes arch / bitsperlong) 0
  len := List.length_replicate

/-- No range check: a node past the array is written outside it in C, and not at all here. -/
def nodemaskSetCompat (mask : Nodemask arch) (node : Nat) : Nodemask arch where
  n := Words.setBit mask.n node true
  len := by rw [Words.length_setBit]; exact mask.len

def nodemaskIssetCompat (mask : Nodemask arch) (node : Nat) : Bool :=
  if numaNumNodes arch ≤ node then false
  else (mask.n.getD (node / bitsperlong) 0).getLsbD (node % bitsperlong)

def copyBitmaskToNodemask (bmp : Bitmask) (arch : Arch) : Nodemask arch :=
  (List.range (min bmp.size (sizeofNodemask arch * 8))).foldl
    (fun nmp i => if numaBitmaskIsbitset bmp i then nodemaskSetCompat nmp i else nmp)
    (zeroNodemask arch)

def copyNodemaskToBitmask (nmp : Nodemask arch) (bmp : Bitmask) : Bitmask :=
  (List.range (min (sizeofNodemask arch * 8) bmp.size)).foldl
    (fun b i => if nodemaskIssetCompat nmp i then numaBitmaskSetbit b i else b)
    (numaBitmaskClearall bmp)

/-- The nodes a version 1 mask holds. -/
def Nodemask.bits (mask : Nodemask arch) : Finset Nat := Words.bitsBelow mask.n (numaNumNodes arch)

theorem sizeofNodemask_mul : sizeofNodemask arch * 8 = numaNumNodes arch := by
  cases arch <;> rfl

theorem Nodemask.length_mul (mask : Nodemask arch) : mask.n.length * 64 = numaNumNodes arch := by
  rw [mask.len]
  cases arch <;> rfl

theorem Nodemask.mem_bits {mask : Nodemask arch} {i : Nat} :
    i ∈ mask.bits ↔ i < numaNumNodes arch ∧ Words.bit mask.n i = true :=
  Words.mem_bitsBelow

theorem nodemaskIssetCompat_eq_true (mask : Nodemask arch) (node : Nat) :
    nodemaskIssetCompat mask node = true ↔ node ∈ mask.bits := by
  by_cases h : numaNumNodes arch ≤ node
  · simp [nodemaskIssetCompat, h, Nodemask.mem_bits]
  · simp [nodemaskIssetCompat, h, Nodemask.mem_bits, Words.bit, bitsperlong, Nat.lt_of_not_le h]

theorem bits_zeroNodemask : (zeroNodemask arch).bits = ∅ := by
  ext i
  simp [Nodemask.mem_bits, zeroNodemask]

theorem bits_nodemaskSetCompat {mask : Nodemask arch} {node : Nat} (h : node < numaNumNodes arch) :
    (nodemaskSetCompat mask node).bits = insert node mask.bits := by
  ext i
  rw [Nodemask.mem_bits, Finset.mem_insert, Nodemask.mem_bits, nodemaskSetCompat,
    Words.bit_setBit true (by rw [mask.length_mul]; exact h)]
  by_cases hi : i = node
  · simp [hi, h]
  · simp [hi]

/-! ### Sets of bits -/

section Lemmas

variable (bmp : Bitmask) (i n : Nat)

theorem getbit_eq_decide : getbit bmp i = decide (i ∈ bmp.bits) := by
  by_cases h : i < bmp.size
  · simp [getbit, h, Bitmask.mem_bits, Words.bit, bitsperlong]
  · simp [getbit, h, Bitmask.mem_bits]

@[simp] theorem getbit_eq_true : getbit bmp i = true ↔ i ∈ bmp.bits := by
  rw [getbit_eq_decide, decide_eq_true_eq]

@[simp] theorem numaBitmaskIsbitset_eq_true : numaBitmaskIsbitset bmp i = true ↔ i ∈ bmp.bits :=
  getbit_eq_true bmp i

@[simp] theorem size_setbit (v : Bool) : (setbit bmp n v).size = bmp.size := by
  unfold setbit
  split <;> rfl

@[simp] theorem length_setbit (v : Bool) : (setbit bmp n v).maskp.length = bmp.maskp.length := by
  unfold setbit
  split
  · exact Words.length_setBit _ _ _
  · rfl

/-- `_setbit` writes the bit it names, if it is below the size, and no other bit of the storage. -/
theorem bit_setbit (v : Bool) :
    Words.bit (setbit bmp n v).maskp i = if i = n ∧ n < bmp.size then v else Words.bit bmp.maskp i := by
  unfold setbit
  by_cases h : n < bmp.size
  · rw [if_pos h]
    simp only [h, and_true]
    exact Words.bit_setBit v (h.trans_le bmp.size_le_storage) i
  · rw [if_neg h]
    simp [h]

theorem bits_setbit_true :
    (setbit bmp n true).bits = if n < bmp.size then insert n bmp.bits else bmp.bits := by
  ext j
  rw [Bitmask.mem_bits, size_setbit, bit_setbit]
  by_cases h : n < bmp.size
  · rw [if_pos h, Finset.mem_insert, Bitmask.mem_bits]
    by_cases hj : j = n
    · simp [hj, h]
    · simp [hj]
  · simp [h, Bitmask.mem_bits]

theorem bits_setbit_false : (setbit bmp n false).bits = bmp.bits.erase n := by
  ext j
  rw [Bitmask.mem_bits, size_setbit, bit_setbit, Finset.mem_erase, Bitmask.mem_bits]
  by_cases hj : j = n
  · by_cases h : n < bmp.size
    · simp [hj, h]
    · simp [hj, h]
  · simp [hj]

/-- A loop over bit numbers that sets each to `v`. -/
theorem bit_foldl_setbit (v : Bool) (ns : List Nat) :
    Words.bit (ns.foldl (fun b k => setbit b k v) bmp).maskp i =
      if i ∈ ns ∧ i < bmp.size then v else Words.bit bmp.maskp i := by
  induction ns generalizing bmp with
  | nil => simp
  | cons k ns ih =>
      rw [List.foldl_cons, ih, size_setbit, bit_setbit]
      simp only [List.mem_cons]
      by_cases hns : i ∈ ns ∧ i < bmp.size
      · rw [if_pos hns, if_pos ⟨Or.inr hns.1, hns.2⟩]
      · rw [if_neg hns]
        by_cases hk : i = k
        · subst hk
          simp
        · simp [hk, hns]

@[simp] theorem size_foldl_setbit (v : Bool) (ns : List Nat) :
    (ns.foldl (fun b k => setbit b k v) bmp).size = bmp.size := by
  induction ns generalizing bmp with
  | nil => rfl
  | cons k ns ih => rw [List.foldl_cons, ih, size_setbit]

theorem bits_foldl_setbit (ns : List Nat) :
    (ns.foldl (fun b k => setbit b k true) bmp).bits = bmp.bits ∪ ns.toFinset.filter (· < bmp.size) := by
  apply Finset.ext
  intro j
  rw [Bitmask.mem_bits, size_foldl_setbit, bit_foldl_setbit, Finset.mem_union, Bitmask.mem_bits,
    Finset.mem_filter, List.mem_toFinset]
  by_cases hj : j < bmp.size <;> by_cases hmem : j ∈ ns <;> simp [hj, hmem]

@[simp] theorem length_foldl_setbit (v : Bool) (ns : List Nat) :
    (ns.foldl (fun b k => setbit b k v) bmp).maskp.length = bmp.maskp.length := by
  induction ns generalizing bmp with
  | nil => rfl
  | cons k ns ih => rw [List.foldl_cons, ih, length_setbit]

@[simp] theorem size_setall : (numaBitmaskSetall bmp).size = bmp.size := size_foldl_setbit bmp true _

@[simp] theorem size_clearall : (numaBitmaskClearall bmp).size = bmp.size :=
  size_foldl_setbit bmp false _

@[simp] theorem size_numaBitmaskSetbit : (numaBitmaskSetbit bmp n).size = bmp.size :=
  size_setbit bmp n true

@[simp] theorem size_numaBitmaskClearbit : (numaBitmaskClearbit bmp n).size = bmp.size :=
  size_setbit bmp n false

theorem bits_numaBitmaskSetbit :
    (numaBitmaskSetbit bmp i).bits = bmp.bits ∪ ({i} : Finset Nat).filter (· < bmp.size) := by
  rw [numaBitmaskSetbit, bits_setbit_true, Finset.filter_singleton]
  split
  · rw [Finset.union_comm]
    rfl
  · rw [Finset.union_empty]

@[simp] theorem size_zeroBitmask : (zeroBitmask n).size = n := rfl

@[simp] theorem bits_setall : (numaBitmaskSetall bmp).bits = Finset.range bmp.size := by
  ext j
  rw [Bitmask.mem_bits, size_setall, numaBitmaskSetall, bit_foldl_setbit]
  by_cases h : j < bmp.size <;> simp [h]

@[simp] theorem bits_clearall : (numaBitmaskClearall bmp).bits = ∅ := by
  ext j
  rw [Bitmask.mem_bits, size_clearall, numaBitmaskClearall, bit_foldl_setbit]
  by_cases h : j < bmp.size <;> simp [h]

@[simp] theorem bits_zeroBitmask : (zeroBitmask n).bits = ∅ := by
  ext j
  simp [Bitmask.mem_bits, zeroBitmask]

theorem numaBitmaskEqual_iff (bmp1 bmp2 : Bitmask) :
    numaBitmaskEqual bmp1 bmp2 = true ↔ bmp1.bits = bmp2.bits := by
  simp only [numaBitmaskEqual, List.all_eq_true, List.mem_range, beq_iff_eq, getbit_eq_decide,
    decide_eq_decide]
  constructor
  · intro h
    ext j
    by_cases hj : j < max bmp1.size bmp2.size
    · exact h j hj
    · have h1 : j ∉ bmp1.bits := fun hmem => hj (by have := (Bitmask.mem_bits.mp hmem).1; omega)
      have h2 : j ∉ bmp2.bits := fun hmem => hj (by have := (Bitmask.mem_bits.mp hmem).1; omega)
      exact iff_of_false h1 h2
  · intro h j _
    rw [h]

theorem numaBitmaskWeight_eq : numaBitmaskWeight bmp = bmp.bits.card := by
  have hbits : bmp.bits = ((List.range bmp.size).filter fun j => getbit bmp j).toFinset := by
    ext j
    rw [List.mem_toFinset, List.mem_filter, List.mem_range, getbit_eq_true]
    exact ⟨fun h => ⟨(Bitmask.mem_bits.mp h).1, h⟩, fun h => h.2⟩
  rw [numaBitmaskWeight, List.countP_eq_length_filter, hbits,
    List.toFinset_card_of_nodup (List.nodup_range.filter _)]

@[simp] theorem size_copyBitmaskToBitmask (bmpfrom bmpto : Bitmask) :
    (copyBitmaskToBitmask bmpfrom bmpto).size = bmpto.size := by
  unfold copyBitmaskToBitmask
  split <;> rfl

@[simp] theorem length_copyBitmaskToBitmask (bmpfrom bmpto : Bitmask) :
    (copyBitmaskToBitmask bmpfrom bmpto).maskp.length = bmpto.maskp.length := by
  unfold copyBitmaskToBitmask
  split
  · next hle =>
    dsimp only
    rw [cpuLongs_eq, Words.length_copy ((longsperbits_mono hle).trans bmpfrom.fits) bmpto.fits]
  · next hlt =>
    have hlongs : longsperbits bmpfrom.size ≤ longsperbits bmpto.size := longsperbits_mono (by omega)
    have hcopy := Words.length_copy bmpfrom.fits (hlongs.trans bmpto.fits)
    dsimp only
    rw [cpuLongs_eq, cpuLongs_eq, Words.length_clear hlongs (by rw [hcopy]; exact bmpto.fits), hcopy]

/-- Every bit of the words the copy writes: the source's words, and zeros past them. -/
theorem bit_copyBitmaskToBitmask (bmpfrom bmpto : Bitmask) :
    Words.bit (copyBitmaskToBitmask bmpfrom bmpto).maskp i =
      if i < longsperbits bmpto.size * 64 then
        decide (i < longsperbits bmpfrom.size * 64) && Words.bit bmpfrom.maskp i
      else Words.bit bmpto.maskp i := by
  unfold copyBitmaskToBitmask
  split
  · next hle =>
    have hlongs := longsperbits_mono hle
    dsimp only
    rw [cpuLongs_eq, Words.bit_copy (hlongs.trans bmpfrom.fits)]
    by_cases h : i < longsperbits bmpto.size * 64
    · simp [h, show i < longsperbits bmpfrom.size * 64 by omega]
    · simp [h]
  · next hlt =>
    have hlongs : longsperbits bmpfrom.size ≤ longsperbits bmpto.size := longsperbits_mono (by omega)
    dsimp only
    rw [cpuLongs_eq, cpuLongs_eq, Words.bit_clear hlongs
      (by rw [Words.length_copy bmpfrom.fits (hlongs.trans bmpto.fits)]; exact bmpto.fits),
      Words.bit_copy bmpfrom.fits]
    by_cases h1 : i < longsperbits bmpfrom.size * 64
    · simp [h1, show i < longsperbits bmpto.size * 64 by omega]
    · by_cases h2 : i < longsperbits bmpto.size * 64
      · simp [h1, h2, show longsperbits bmpfrom.size * 64 ≤ i by omega]
      · simp [h1, h2]

/-- The copy holds the source's stored bits below the destination's size, those past the source's own
size included. -/
theorem mem_bits_copyBitmaskToBitmask {bmpfrom bmpto : Bitmask} :
    i ∈ (copyBitmaskToBitmask bmpfrom bmpto).bits ↔
      i < bmpto.size ∧ i < longsperbits bmpfrom.size * 64 ∧ Words.bit bmpfrom.maskp i = true := by
  rw [Bitmask.mem_bits, size_copyBitmaskToBitmask, bit_copyBitmaskToBitmask]
  constructor
  · rintro ⟨hi, h⟩
    rw [if_pos (hi.trans_le (le_longsperbits _))] at h
    simpa [hi] using h
  · rintro ⟨hi, hfrom, h⟩
    rw [if_pos (hi.trans_le (le_longsperbits _))]
    simp [hi, hfrom, h]

/-- A mask copied into one of the same size has the same nodes. -/
theorem bits_copyBitmaskToBitmask_of_size_eq {bmpfrom bmpto : Bitmask} (hsize : bmpfrom.size = bmpto.size) :
    (copyBitmaskToBitmask bmpfrom bmpto).bits = bmpfrom.bits := by
  apply Finset.ext
  intro i
  rw [mem_bits_copyBitmaskToBitmask, Bitmask.mem_bits, hsize]
  refine and_congr_right fun hi => and_iff_right_of_imp fun _ => ?_
  exact hi.trans_le (hsize ▸ le_longsperbits _)

/-- A loop that sets nodes of a version 1 mask. -/
theorem bits_foldl_nodemaskSetCompat (mask : Nodemask arch) (ns : List Nat)
    (hns : ∀ k ∈ ns, k < numaNumNodes arch) :
    (ns.foldl nodemaskSetCompat mask).bits = mask.bits ∪ ns.toFinset := by
  induction ns generalizing mask with
  | nil => simp
  | cons k ns ih =>
      rw [List.foldl_cons, ih _ (fun m hm => hns m (List.mem_cons_of_mem k hm)),
        bits_nodemaskSetCompat (hns k List.mem_cons_self), List.toFinset_cons, Finset.insert_union,
        Finset.union_insert]

theorem bits_copyBitmaskToNodemask :
    (copyBitmaskToNodemask bmp arch).bits = bmp.bits.filter (· < numaNumNodes arch) := by
  have hloop : copyBitmaskToNodemask bmp arch =
      ((List.range (min bmp.size (numaNumNodes arch))).filter fun k =>
        numaBitmaskIsbitset bmp k).foldl nodemaskSetCompat (zeroNodemask arch) := by
    rw [List.foldl_filter, copyBitmaskToNodemask, sizeofNodemask_mul]
  rw [hloop, bits_foldl_nodemaskSetCompat, bits_zeroNodemask, Finset.empty_union]
  · ext j
    simp only [List.mem_toFinset, List.mem_filter, List.mem_range, lt_min_iff,
      numaBitmaskIsbitset_eq_true, Finset.mem_filter]
    exact ⟨fun h => ⟨h.2, h.1.2⟩, fun h => ⟨⟨(Bitmask.mem_bits.mp h.1).1, h.2⟩, h.1⟩⟩
  · intro k hk
    simp only [List.mem_filter, List.mem_range, lt_min_iff] at hk
    exact hk.1.2

theorem copyNodemaskToBitmask_eq_foldl (nmp : Nodemask arch) :
    copyNodemaskToBitmask nmp bmp =
      ((List.range (min (numaNumNodes arch) bmp.size)).filter fun k =>
        nodemaskIssetCompat nmp k).foldl (fun b k => setbit b k true) (numaBitmaskClearall bmp) := by
  rw [List.foldl_filter, copyNodemaskToBitmask, sizeofNodemask_mul]
  rfl

@[simp] theorem size_copyNodemaskToBitmask (nmp : Nodemask arch) :
    (copyNodemaskToBitmask nmp bmp).size = bmp.size := by
  rw [copyNodemaskToBitmask_eq_foldl, size_foldl_setbit, size_clearall]

theorem bits_copyNodemaskToBitmask (nmp : Nodemask arch) :
    (copyNodemaskToBitmask nmp bmp).bits = nmp.bits.filter (· < bmp.size) := by
  have hclear : ∀ j, j < bmp.size → Words.bit (numaBitmaskClearall bmp).maskp j = false := by
    intro j hj
    have hnot : j ∉ (numaBitmaskClearall bmp).bits := by simp
    rw [Bitmask.mem_bits, size_clearall] at hnot
    simpa [hj] using hnot
  ext j
  rw [Bitmask.mem_bits, size_copyNodemaskToBitmask, copyNodemaskToBitmask_eq_foldl,
    bit_foldl_setbit, size_clearall, Finset.mem_filter]
  simp only [List.mem_filter, List.mem_range, lt_min_iff, nodemaskIssetCompat_eq_true]
  constructor
  · rintro ⟨hsize, h⟩
    split_ifs at h with hset
    · exact ⟨hset.1.2, hsize⟩
    · rw [hclear j hsize] at h
      cases h
  · rintro ⟨hmem, hsize⟩
    exact ⟨hsize, if_pos ⟨⟨⟨(Nodemask.mem_bits.mp hmem).1, hsize⟩, hmem⟩, hsize⟩⟩

theorem numaFindFirst_eq_neg_one : numaFindFirst bmp = -1 ↔ bmp.bits = ∅ := by
  unfold numaFindFirst
  cases hfind : (List.range bmp.size).find? fun i => numaBitmaskIsbitset bmp i with
  | none =>
      rw [List.find?_eq_none] at hfind
      simp only [true_iff]
      ext j
      simp only [Finset.notMem_empty, iff_false]
      intro hj
      have hlt := (Bitmask.mem_bits.mp hj).1
      exact hfind j (List.mem_range.mpr hlt) ((numaBitmaskIsbitset_eq_true bmp j).mpr hj)
  | some k =>
      have hk := List.find?_some hfind
      rw [numaBitmaskIsbitset_eq_true] at hk
      constructor
      · intro h
        have hneg : (k : Int) = -1 := h
        omega
      · intro h
        rw [h] at hk
        exact absurd hk (Finset.notMem_empty k)

/-- A nonnegative answer is the least number in the mask. -/
theorem numaFindFirst_eq_natCast {k : Nat} :
    numaFindFirst bmp = k ↔ k ∈ bmp.bits ∧ ∀ j ∈ bmp.bits, k ≤ j := by
  unfold numaFindFirst
  cases hfind : (List.range bmp.size).find? fun i => numaBitmaskIsbitset bmp i with
  | none =>
      rw [List.find?_eq_none] at hfind
      constructor
      · intro h
        exact absurd h (by simp)
      · rintro ⟨hk, -⟩
        have hlt := (Bitmask.mem_bits.mp hk).1
        exact absurd ((numaBitmaskIsbitset_eq_true bmp k).mpr hk)
          (hfind k (List.mem_range.mpr hlt))
  | some m =>
      have hm := List.find?_some hfind
      rw [numaBitmaskIsbitset_eq_true] at hm
      have hleast : ∀ j ∈ bmp.bits, m ≤ j := by
        intro j hj
        by_contra hlt
        rw [List.find?_range_eq_some] at hfind
        have hnot := hfind.2.2 j (by omega)
        simp only [Bool.not_eq_true', ← Bool.not_eq_true] at hnot
        exact hnot ((numaBitmaskIsbitset_eq_true bmp j).mpr hj)
      constructor
      · intro h
        have heq : m = k := Int.ofNat.inj h
        subst heq
        exact ⟨hm, hleast⟩
      · rintro ⟨hk, hmin⟩
        have heq : m = k := le_antisymm (hleast k hk) (hmin m hm)
        rw [heq]

end Lemmas

end Numactl
