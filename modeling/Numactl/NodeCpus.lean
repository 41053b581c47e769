import Numactl.Base.FlagCache
import Numactl.ParseBitmap

/-! The CPUs of a node (`numa_node_to_cpus_v1`, `numa_node_to_cpus_v2`, `numa_node_to_cpu_update` in
`libnuma.c`). Each version keeps a mask per node and one flag, set by the update call, that tells the next
query to read the node's cpumap file again. Warnings, running out of memory and the length of the array
`node_cpu_mask_v1` are not modelled, and buffers of version 1 are whole words. -/

namespace Numactl

/-- What `numa_init` has found out: the size of the kernel's cpumasks, and the highest node. -/
structure CpuConfig where
  cpumaskSz : Nat
  pos : 0 < cpumaskSz
  maxconfigurednode : Nat

/-- The file `/sys/devices/system/node/nodeN/cpumap`: it cannot be opened, which `fopen` says in `errno`, it is
empty, or it has characters. When nothing can be read, `getdelim` leaves an unspecified line behind. -/
inductive CpumapFile where
  | missing (errno : Errno) (ne_zero : errno ≠ 0)
  | empty (leftover : List Char)
  | text (first : Char) (rest : List Char)

/-- The pointer `line` after `fopen` and `getdelim`, and whether a line has been read. -/
def CpumapFile.getdelim : CpumapFile → Option (List Char) × Bool
  | .missing _ _ => (none, false)
  | .empty leftover => (some leftover, false)
  | .text first rest => (some ((first :: rest).take ((first :: rest).idxOf '\n' + 1)), true)

/-- No such file. -/
def CpumapFile.absent : CpumapFile := .missing ENOENT (Nat.succ_ne_zero 1)

/-- What the reading of a cpumap file sets `errno` to, if it does. Warnings put it back. -/
def CpumapFile.errno (ncpus : Nat) : CpumapFile → Option Errno
  | .missing e _ => some e
  | file => file.getdelim.1.bind fun line => numaParseBitmapErrno line (BitVec.ofNat 32 ncpus)

theorem CpumapFile.errno_ne_zero {ncpus : Nat} {file : CpumapFile} {e : Errno} (h : file.errno ncpus = some e) :
    e ≠ 0 := by
  have hparse : ∀ line, numaParseBitmapErrno line (BitVec.ofNat 32 ncpus) = some e → e ≠ 0 := by
    intro line hline
    rw [numaParseBitmapErrno, Option.ite_none_right_eq_some] at hline
    obtain ⟨-, heq⟩ := hline
    rw [← Option.some.inj heq]
    exact Nat.succ_ne_zero 33
  cases file with
  | missing errno ne_zero => exact Option.some.inj h ▸ ne_zero
  | empty leftover => exact hparse leftover h
  | text first rest => exact hparse _ h

/-- The reading of a cpumap file into the mask `mask`, common to both versions: the value of `err` and
the mask afterwards. -/
def readCpumap {μ : Type} (parse : List Char → μ → Int × μ) (setall : μ → μ) (file : CpumapFile)
    (mask : μ) : Int × μ :=
  let r := file.getdelim
  let q := if r.2 then (0, mask) else (-1, setall mask)
  match r.1 with
  | none => q
  | some line => if (parse line q.2).1 < 0 then (-1, setall (parse line q.2).2) else (q.1, (parse line q.2).2)

/-- The file can be read, its first line is parsed from `mask`, and `result` is what the line says. -/
def Parses {μ : Type} (parse : List Char → μ → Int × μ) (file : CpumapFile) (mask result : μ) : Prop :=
  ∃ line, file.getdelim = (some line, true) ∧ 0 ≤ (parse line mask).1 ∧ (parse line mask).2 = result

/-- A reading returns 0 exactly with what a readable and parsable file says. -/
theorem readCpumap_eq_zero_iff {μ : Type} (parse : List Char → μ → Int × μ) (setall : μ → μ)
    (file : CpumapFile) (mask result : μ) :
    readCpumap parse setall file mask = (0, result) ↔ Parses parse file mask result := by
  cases file with
  | missing errno ne_zero => simp [readCpumap, Parses, CpumapFile.getdelim]
  | empty leftover =>
      simp only [readCpumap, Parses, CpumapFile.getdelim, Bool.false_eq_true, if_false]
      split <;> simp
  | text first rest =>
      simp only [readCpumap, Parses, CpumapFile.getdelim, if_true, Prod.mk.injEq, Option.some.injEq,
        and_true, exists_eq_left']
      generalize (first :: rest).take ((first :: rest).idxOf '\n' + 1) = line
      split
      · next h => simp [Int.not_le.mpr h]
      · next h => simp [Int.not_lt.mp h]

theorem readCpumap_ret {μ : Type} (parse : List Char → μ → Int × μ) (setall : μ → μ)
    (file : CpumapFile) (mask : μ) :
    (readCpumap parse setall file mask).1 = 0 ∨ (readCpumap parse setall file mask).1 = -1 := by
  cases file with
  | missing errno ne_zero => exact Or.inr rfl
  | empty leftover =>
      simp only [readCpumap, CpumapFile.getdelim, Bool.false_eq_true, if_false]
      split <;> exact Or.inr rfl
  | text first rest =>
      simp only [readCpumap, CpumapFile.getdelim, if_true]
      split
      · exact Or.inr rfl
      · exact Or.inl rfl

/-- The masks kept for the nodes, and the flag. -/
structure NodeCpuMask (μ : Type) where
  slot : Nat → Option μ
  stale : Bool

/-- What a call returns, and what it sets: `errno`, if at all, and the buffer. -/
structure CpusReply (β : Type) where
  ret : Int
  errno : Option Errno
  buffer : β
  deriving DecidableEq

/-! ### Version 1 -/

/-- The words of `malloc(CPU_BYTES(n))`. -/
@[ext] structure CpuWords (n : Nat) where
  words : List Word
  length_eq : words.length = cpuLongs n
  deriving DecidableEq

namespace CpuWords

variable {n : Nat}

theorem longsperbits_le (mask : CpuWords n) : longsperbits (cpuBytes n * 8) ≤ mask.words.length := by
  rw [mask.length_eq, cpuLongs, longsperbits, bitsperlong, cpuBytes, roundUp, bitsperlong]
  omega

/-- The local `bitmask` of the function, pointing at the words. -/
def bitmask (mask : CpuWords n) : Bitmask where
  size := cpuBytes n * 8
  maskp := mask.words
  fits := mask.longsperbits_le

def setall (mask : CpuWords n) : CpuWords n where
  words := (numaBitmaskSetall mask.bitmask).maskp
  length_eq := (length_foldl_setbit _ _ _).trans mask.length_eq

def parse (line : List Char) (mask : CpuWords n) : Int × CpuWords n :=
  ((numaParseBitmapV1 line mask.words (BitVec.ofNat 32 n)).1,
    { words := (numaParseBitmapV1 line mask.words (BitVec.ofNat 32 n)).2
      length_eq := (length_numaParseBitmapV1 _ _ _).trans mask.length_eq })

def zero (n : Nat) : CpuWords n where
  words := List.replicate (cpuLongs n) 0
  length_eq := List.length_replicate

end CpuWords

def readCpumapV1 (cfg : CpuConfig) (file : CpumapFile) : Int × CpuWords cfg.cpumaskSz :=
  readCpumap CpuWords.parse CpuWords.setall file (CpuWords.zero cfg.cpumaskSz)

/-- What a call leaves in a buffer of at least the mask's length: the mask, and zeros behind it. -/
def copyWords {n : Nat} (mask : CpuWords n) (buffer : List Word) : List Word :=
  Words.copy (cpuLongs n) mask.words
    (if cpuLongs n < buffer.length then List.replicate buffer.length 0 else buffer)

def numaNodeToCpusV1 (cfg : CpuConfig) (cpumap : Nat → CpumapFile)
    (st : NodeCpuMask (CpuWords cfg.cpumaskSz)) (node : Int) (buffer : List Word) :
    CpusReply (List Word) × NodeCpuMask (CpuWords cfg.cpumaskSz) :=
  if node < 0 ∨ (cfg.maxconfigurednode : Int) < node ∨ buffer.length < cpuLongs cfg.cpumaskSz then
    ({ ret := -1, errno := some ERANGE, buffer := buffer }, st)
  else
    match st.slot node.toNat, st.stale with
    | some mask, false =>
        ({ ret := 0, errno := none, buffer := copyWords mask buffer }, { st with stale := false })
    | some _, true =>
        let r := readCpumapV1 cfg (cpumap node.toNat)
        ({ ret := r.1, errno := (cpumap node.toNat).errno cfg.cpumaskSz, buffer := copyWords r.2 buffer },
          { slot := Function.update st.slot node.toNat (some r.2), stale := false })
    | none, _ =>
        let r := readCpumapV1 cfg (cpumap node.toNat)
        ({ ret := r.1, errno := (cpumap node.toNat).errno cfg.cpumaskSz, buffer := copyWords r.2 buffer },
          { slot := Function.update st.slot node.toNat (some r.2), stale := false })

/-! ### Version 2 -/

/-- A bitmask as `numa_allocate_cpumask` makes it. -/
@[ext] structure Cpumask (n : Nat) extends Bitmask where
  size_eq : size = n
  length_eq : maskp.length = longsperbits n
  deriving DecidableEq

namespace Cpumask

variable {n : Nat}

def setall (mask : Cpumask n) : Cpumask n where
  toBitmask := numaBitmaskSetall mask.toBitmask
  size_eq := (size_setall _).trans mask.size_eq
  length_eq := (length_foldl_setbit _ _ _).trans mask.length_eq

def parse (line : List Char) (mask : Cpumask n) : Int × Cpumask n :=
  ((numaParseBitmapV2 line mask.toBitmask).1,
    { toBitmask := (numaParseBitmapV2 line mask.toBitmask).2
      size_eq := mask.size_eq
      length_eq := (length_numaParseBitmapV1 _ _ _).trans mask.length_eq })

/-- `copy_bitmask_to_bitmask` between two of these masks. -/
def copyTo (bmpfrom bmpto : Cpumask n) : Cpumask n where
  toBitmask := copyBitmaskToBitmask bmpfrom.toBitmask bmpto.toBitmask
  size_eq := (size_copyBitmaskToBitmask _ _).trans bmpto.size_eq
  length_eq := (length_copyBitmaskToBitmask _ _).trans bmpto.length_eq

/-- Masks of one size: the copy is the source, word for word. -/
theorem copyTo_eq (bmpfrom bmpto : Cpumask n) : bmpfrom.copyTo bmpto = bmpfrom := by
  have hfrom := bmpfrom.length_eq
  have hto := bmpto.length_eq
  apply Cpumask.ext
  · exact (bmpfrom.copyTo bmpto).size_eq.trans bmpfrom.size_eq.symm
  · apply Words.ext_bit
    · rw [(bmpfrom.copyTo bmpto).length_eq, hfrom]
    · intro i hi
      rw [(bmpfrom.copyTo bmpto).length_eq] at hi
      simp only [copyTo, bit_copyBitmaskToBitmask, bmpto.size_eq, bmpfrom.size_eq, hi, if_true,
        decide_true, Bool.true_and]

end Cpumask

def numaAllocateCpumask (cfg : CpuConfig) : Cpumask cfg.cpumaskSz where
  toBitmask := zeroBitmask cfg.cpumaskSz
  size_eq := rfl
  length_eq := List.length_replicate

def readCpumapV2 (cfg : CpuConfig) (file : CpumapFile) : Int × Cpumask cfg.cpumaskSz :=
  readCpumap Cpumask.parse Cpumask.setall file (numaAllocateCpumask cfg)

def numaNodeToCpusV2 (cfg : CpuConfig) (cpumap : Nat → CpumapFile)
    (st : NodeCpuMask (Cpumask cfg.cpumaskSz)) (node : Int) (buffer : Bitmask) :
    CpusReply Bitmask × NodeCpuMask (Cpumask cfg.cpumaskSz) :=
  if node < 0 ∨ (cfg.maxconfigurednode : Int) < node then
    ({ ret := -1, errno := some ERANGE, buffer := buffer }, st)
  else
    let buffer := numaBitmaskClearall buffer
    match st.slot node.toNat, st.stale with
    | some mask, false =>
        if buffer.size < mask.size then
          ({ ret := -1, errno := some EINVAL, buffer := buffer }, { st with stale := false })
        else
          ({ ret := 0, errno := none, buffer := copyBitmaskToBitmask mask.toBitmask buffer },
            { st with stale := false })
    | some cached, true =>
        let r := readCpumapV2 cfg (cpumap node.toNat)
        ({ ret := r.1, errno := (cpumap node.toNat).errno cfg.cpumaskSz,
           buffer := copyBitmaskToBitmask r.2.toBitmask buffer },
          { slot := Function.update st.slot node.toNat (some (r.2.copyTo cached)), stale := false })
    | none, _ =>
        let r := readCpumapV2 cfg (cpumap node.toNat)
        -- a failed reading is not kept here, unlike in version 1
        ({ ret := r.1, errno := (cpumap node.toNat).errno cfg.cpumaskSz,
           buffer := copyBitmaskToBitmask r.2.toBitmask buffer },
          { slot := Function.update st.slot node.toNat (if r.1 = 0 then some r.2 else none), stale := false })

end Numactl
