import Numactl.Base.Doubling
import Numactl.NodeString
import Numactl.NodesInit
import Numactl.TaskConstraints

/-! What the constructor of the library sets up (`set_sizes` in `libnuma.c`, with `set_numa_max_cpu` and
`set_configured_cpus`), as a whole: from the files and answers of a system to the globals all other functions read.
Running out of memory and sizes that do not fit an `int` are not modelled. -/

namespace Numactl

open CString (isDigitOf)

/-- The bytes of a `cpu_set_t`. -/
def sizeofCpuSet : Nat := 128

/-- The loop of `set_numa_max_cpu`: `n` behind it, for the answers of `sched_getaffinity` to buffers of a number of
bits. `none` stands for a loop that is not at its end. -/
def maxCpuLoop (getaffinity : Nat → Except Errno Nat) : Nat → Nat → Option Int
  | 0, _ => none
  | fuel + 1, len =>
      match getaffinity len with
      | .ok n => some n
      | .error e =>
          if e = EINVAL then if 1024 * 1024 ≤ len then some (-1) else maxCpuLoop getaffinity fuel (2 * len)
          else some sizeofCpuSet

/-- `set_numa_max_cpu`: `cpumask_sz`. -/
def setNumaMaxCpu (getaffinity : Nat → Except Errno Nat) : Option Int := (maxCpuLoop getaffinity 9 4096).map (· * 8)

/-- `set_configured_cpus`: `maxconfiguredcpu`, from the answer of `sysconf`. -/
def setConfiguredCpus (nprocessorsConf : Int) : Int := nprocessorsConf - 1

/-- What the constructor asks the system: the sizes that `get_mempolicy` refuses, the lines of `/proc/self/status`, the
names in the directory of the nodes, the answers of `sched_getaffinity`, and the number of processors. -/
structure InitSystem where
  einval : Nat → Bool
  status : Option (List (List Char))
  names : Option (List (List Char))
  getaffinity : Nat → Except Errno Nat
  nprocessorsConf : Int

/-- The globals it sets. -/
structure Sizes where
  nodemaskSz : Nat
  nodes : ConfiguredNodes
  cpumaskSz : Int
  maxconfiguredcpu : Int
  constraints : TaskConstraints

/-- `set_sizes`, where the sizes are not negative. -/
def setSizes (sys : InitSystem) : Option Sizes := do
  let nodemaskSz := setNodemaskSize sys.einval sys.status
  let nodes := setConfiguredNodes nodemaskSz sys.names
  let cpumaskSz ← setNumaMaxCpu sys.getaffinity
  let maxconfiguredcpu := setConfiguredCpus sys.nprocessorsConf
  if cpumaskSz < 0 ∨ maxconfiguredcpu < 0 ∨ nodes.maxconfigurednode < 0 then none
  else
    return {
      nodemaskSz := nodemaskSz
      nodes := nodes
      cpumaskSz := cpumaskSz
      maxconfiguredcpu := maxconfiguredcpu
      constraints := setTaskConstraints ⟨nodemaskSz, cpumaskSz.toNat, maxconfiguredcpu.toNat,
        nodes.maxconfigurednode.toNat⟩ sys.status }

/-! ### The size of the CPU masks -/

/-- A kernel with `nrCpuIds` possible CPUs and masks of `cpumaskBytes`: a buffer without a bit for every possible CPU is
refused, and no more than its masks is copied. -/
structure AffinityKernel where
  nrCpuIds : Nat
  cpumaskBytes : Nat
  room : nrCpuIds ≤ 8 * cpumaskBytes
  pos : 0 < nrCpuIds

def AffinityKernel.getaffinity (a : AffinityKernel) (len : Nat) : Except Errno Nat :=
  if len < a.nrCpuIds then .error EINVAL else .ok (min (len / 8) a.cpumaskBytes)

theorem maxCpuLoop_eq (a : AffinityKernel) (fuel len : Nat) :
    maxCpuLoop a.getaffinity fuel len =
      (Doubling.search (fun len => decide (len < a.nrCpuIds)) (1024 * 1024) fuel len).map fun len =>
        if len < a.nrCpuIds then -1 else ((min (len / 8) a.cpumaskBytes : Nat) : Int) := by
  induction fuel generalizing len with
  | zero => rfl
  | succ fuel ih =>
      rw [maxCpuLoop, Doubling.search, AffinityKernel.getaffinity]
      by_cases hsmall : len < a.nrCpuIds
      · rw [if_pos hsmall]
        dsimp only
        rw [if_pos rfl]
        by_cases hlimit : 1024 * 1024 ≤ len
        · rw [if_pos hlimit, if_neg (fun hgoes => absurd hgoes.2 (Nat.not_lt.mpr hlimit)), Option.map_some,
            if_pos hsmall]
        · rw [if_neg hlimit, if_pos ⟨decide_eq_true hsmall, Nat.lt_of_not_le hlimit⟩]
          exact ih (2 * len)
      · have hstops : ¬(decide (len < a.nrCpuIds) = true ∧ len < 1024 * 1024) := fun hgoes =>
          hsmall (of_decide_eq_true hgoes.1)
        rw [if_neg hsmall, if_neg hstops, Option.map_some, if_neg hsmall]

/-- The CPU masks get a bit for every possible CPU, no more than the kernel's and than twice as many as have to be
looked for; with more possible CPUs than the search goes for, their size is negative. -/
theorem setNumaMaxCpu_eq (a : AffinityKernel) :
    ∃ n : Int, setNumaMaxCpu a.getaffinity = some n ∧
      (a.nrCpuIds ≤ 1024 * 1024 → (a.nrCpuIds : Int) ≤ n ∧ n ≤ 8 * a.cpumaskBytes ∧ n ≤ max 4096 (2 * a.nrCpuIds)) ∧
      (1024 * 1024 < a.nrCpuIds → n = -8) := by
  obtain ⟨len, hlen⟩ : ∃ len, Doubling.search (fun len => decide (len < a.nrCpuIds)) (1024 * 1024) 9 4096 = some len :=
    Doubling.exists_search (by decide)
  obtain ⟨j, -, hdoubled, hstops⟩ := Doubling.search_eq_some hlen
  have hneed := hstops.need_le_iff (i := 8) (by decide)
  have hsmall : len < 2 * a.nrCpuIds ∨ len = 4096 := by
    rcases hstops.threshold.2 with rfl | ⟨hneeded, -⟩
    · exact Or.inr hdoubled
    · exact Or.inl (hdoubled.trans_lt hneeded)
  obtain ⟨b, hb⟩ : 8 ∣ len := by
    rw [hdoubled]
    exact Dvd.dvd.mul_left (by decide) _
  have hroom := a.room
  rw [← hdoubled] at hneed
  refine ⟨_, by rw [setNumaMaxCpu, maxCpuLoop_eq, hlen]; rfl, fun hfew => ?_, fun hmany => ?_⟩
  · have henough := hneed.mpr hfew
    dsimp only
    rw [if_neg (Nat.not_lt.mpr henough), hb, Nat.mul_div_cancel_left b (by decide)]
    omega
  · dsimp only
    rw [if_pos (Nat.lt_of_not_le (mt hneed.mp (Nat.not_le.mpr hmany)))]
    rfl

/-! ### Clean masks of nodes -/

/-- More room does not change what is read. -/
theorem readInts_mono {tmplen tmplen' : Nat} (h : tmplen ≤ tmplen') {fuel : Nat} {start result : List (BitVec 32)}
    {text : List Char} (hread : readInts tmplen fuel start text = some result) :
    readInts tmplen' fuel start text = some result := by
  induction fuel generalizing start text with
  | zero => exact hread
  | succ fuel ih =>
      unfold readInts at hread ⊢
      split at hread
      · by_cases hfull : tmplen ≤ start.length
        · rw [if_pos hfull] at hread
          cases hread
        · rw [if_neg hfull] at hread
          by_cases hfull' : tmplen' ≤ start.length
          · exact absurd (h.trans hfull') hfull
          · rw [if_neg hfull']
            exact ih hread
      · exact hread

/-- A mask read from the kernel's text has no bit past its size, in the last word either. -/
theorem readMask_clear (m : MaskText) {size : Nat} (hfits : m.value < 2 ^ size) {i : Nat} (hi : size ≤ i) :
    Words.bit (readMask (m.text ++ ['\n']) (zeroBitmask size)).2.maskp i = false := by
  have hbits : ∀ {size}, m.value < 2 ^ size → ∀ j,
      j ∈ (readMask (m.text ++ ['\n']) (zeroBitmask size)).2.bits ↔ m.value.testBit j = true := by
    intro size hfits
    obtain ⟨bmp, hread, -, hbits⟩ := readMask_text (t := '\n') (by decide) (by decide) [] m hfits
    rw [hread]
    exact hbits
  -- a larger mask gets the same words, and there the bit is within the size
  have hlarge : m.value < 2 ^ (i + 1) := hfits.trans_le (Nat.pow_le_pow_right (by decide) (by omega))
  have hclear : ¬m.value.testBit i = true := by
    rw [Nat.testBit_lt_two_pow (hfits.trans_le (Nat.pow_le_pow_right (by decide) hi))]
    exact Bool.false_ne_true
  have hnot : Words.bit (readMask (m.text ++ ['\n']) (zeroBitmask (i + 1))).2.maskp i = false := by
    rw [Bool.eq_false_iff]
    intro hbit
    refine hclear ((hbits hlarge i).mp (Bitmask.mem_bits.mpr ⟨?_, hbit⟩))
    obtain ⟨bmp, hread, hsize, -⟩ := readMask_text (t := '\n') (by decide) (by decide) [] m hlarge
    rw [hread, hsize]
    exact Nat.lt_succ_self i
  have hstored : ∀ (words : List Word) n,
      Words.bit (storeWords words (zeroBitmask n)).maskp i = Words.bit words i := by
    intro words n
    change Words.bit (words ++ (zeroBitmask n).maskp.drop words.length) i = _
    rw [Words.bit_append]
    split
    · rfl
    · next hpast =>
      rw [Words.bit_eq_false_of_length_le (Nat.le_of_not_lt hpast), Words.bit_drop]
      exact Words.bit_replicate_zero _ _
  have hzero : ∀ n, Words.bit (zeroBitmask n).maskp i = false := fun n => Words.bit_replicate_zero _ _
  unfold readMask at hnot ⊢
  dsimp only at hnot ⊢
  split
  · exact hzero size
  · next hvalue =>
    rw [if_neg hvalue] at hnot
    split
    · exact hzero size
    · next hroom =>
      rw [if_neg (by rw [size_zeroBitmask] at hroom ⊢; omega)] at hnot
      cases hread : readInts (((zeroBitmask size).size + 31) / 32) (skipZeros (m.text ++ ['\n']).length
          (strtoulInt (m.text ++ ['\n']))).2.length [(skipZeros (m.text ++ ['\n']).length
          (strtoulInt (m.text ++ ['\n']))).1] (skipZeros (m.text ++ ['\n']).length
          (strtoulInt (m.text ++ ['\n']))).2 with
      | none => exact hzero size
      | some start =>
          have hle : ((zeroBitmask size).size + 31) / 32 ≤ ((zeroBitmask (i + 1)).size + 31) / 32 := by
            rw [size_zeroBitmask, size_zeroBitmask]
            omega
          have hmore := readInts_mono hle hread
          rw [hmore] at hnot
          dsimp only at hnot ⊢
          rw [hstored] at hnot ⊢
          exact hnot

/-! ### What the passes keep -/

theorem size_readMask (s : List Char) (bmp : Bitmask) : (readMask s bmp).2.size = bmp.size := by
  unfold readMask
  dsimp only
  split
  · rfl
  · split
    · rfl
    · split
      · rfl
      · rfl

namespace TaskConstraints

variable {sizes : MachineSizes} {c : TaskConstraints}

/-- What no line and no pass over the counts changes. -/
structure SameShape (c c' : TaskConstraints) : Prop where
  allCpus_size : c'.numaAllCpusPtr.size = c.numaAllCpusPtr.size
  allNodes_size : c'.numaAllNodesPtr.size = c.numaAllNodesPtr.size
  possibleCpus_eq : c'.numaPossibleCpusPtr = c.numaPossibleCpusPtr
  possibleNodes_eq : c'.numaPossibleNodesPtr = c.numaPossibleNodesPtr
  noNodes_eq : c'.numaNoNodesPtr = c.numaNoNodesPtr

theorem SameShape.refl (c : TaskConstraints) : SameShape c c := ⟨rfl, rfl, rfl, rfl, rfl⟩

theorem SameShape.trans {c c' c'' : TaskConstraints} (h : SameShape c c') (h' : SameShape c' c'') : SameShape c c'' where
  allCpus_size := h'.allCpus_size.trans h.allCpus_size
  allNodes_size := h'.allNodes_size.trans h.allNodes_size
  possibleCpus_eq := h'.possibleCpus_eq.trans h.possibleCpus_eq
  possibleNodes_eq := h'.possibleNodes_eq.trans h.possibleNodes_eq
  noNodes_eq := h'.noNodes_eq.trans h.noNodes_eq

theorem sameShape_readLine (buffer : List Char) (c : TaskConstraints) : SameShape c (readLine c buffer) := by
  have hcpus : ∀ mask, SameShape c (readCpus buffer mask c) := by
    intro mask
    unfold readCpus
    split
    · exact ⟨size_readMask _ _, rfl, rfl, rfl, rfl⟩
    · exact .refl c
  have hmems : ∀ mask (c : TaskConstraints), SameShape c (readMems buffer mask c) := by
    intro mask c
    unfold readMems
    split
    · exact ⟨rfl, size_readMask _ _, rfl, rfl, rfl⟩
    · exact .refl c
  unfold readLine
  split
  · exact .refl c
  · exact (hcpus _).trans (hmems _ _)

theorem sameShape_foldl (lines : List (List Char)) (c : TaskConstraints) : SameShape c (lines.foldl readLine c) := by
  induction lines generalizing c with
  | nil => exact .refl c
  | cons buffer lines ih => exact (sameShape_readLine buffer c).trans (ih _)

theorem sameShape_defaultCpus (sizes : MachineSizes) (c : TaskConstraints) : SameShape c (defaultCpus sizes c) := by
  unfold defaultCpus
  split
  · exact ⟨size_foldl_setbit _ true _, rfl, rfl, rfl, rfl⟩
  · exact .refl c

theorem sameShape_reduceCpus (sizes : MachineSizes) (c : TaskConstraints) : SameShape c (reduceCpus sizes c) := by
  unfold reduceCpus
  split
  · exact ⟨size_foldl_setbit _ false _, rfl, rfl, rfl, rfl⟩
  · exact .refl c

theorem sameShape_defaultNodes (sizes : MachineSizes) (c : TaskConstraints) : SameShape c (defaultNodes sizes c) := by
  unfold defaultNodes
  split
  · exact ⟨rfl, size_foldl_setbit _ true _, rfl, rfl, rfl⟩
  · exact .refl c

/-- The masks of a readable file have the sizes of the machine, and the possible CPUs and nodes are those configured. -/
theorem sameShape_setTaskConstraints (sizes : MachineSizes) (lines : List (List Char)) :
    SameShape (setPossible sizes (initial sizes)) (setTaskConstraints sizes (some lines)) := by
  have hread := sameShape_foldl lines (initial sizes)
  have hpossible : SameShape (setPossible sizes (initial sizes))
      (setPossible sizes (lines.foldl readLine (initial sizes))) :=
    ⟨hread.allCpus_size, hread.allNodes_size,
      congrArg ((List.range (sizes.maxconfiguredcpu + 1)).foldl numaBitmaskSetbit) hread.possibleCpus_eq,
      congrArg ((List.range (sizes.maxconfigurednode + 1)).foldl numaBitmaskSetbit) hread.possibleNodes_eq,
      hread.noNodes_eq⟩
  exact ((hpossible.trans (sameShape_defaultCpus sizes _)).trans (sameShape_reduceCpus sizes _)).trans
    (sameShape_defaultNodes sizes _)

/-- The allowed nodes of a file with one mask of nodes: those of the mask, or all up to the highest for an empty one.
They are counted, and the words have nothing past their size. -/
theorem allNodes_of_line (m : MaskText) {pre post : List (List Char)}
    (hother : ∀ buf ∈ pre ++ post, strprefix buf memsPrefix = false) (hfits : m.value < 2 ^ sizes.nodemaskSz)
    (hmax : sizes.maxconfigurednode < sizes.nodemaskSz) :
    (∀ i, i ∈ (setTaskConstraints sizes (some (pre ++ m.line memsPrefix :: post))).numaAllNodesPtr.bits ↔
        if m.value = 0 then i ≤ sizes.maxconfigurednode else m.value.testBit i = true) ∧
      (setTaskConstraints sizes (some (pre ++ m.line memsPrefix :: post))).numprocnode =
        (setTaskConstraints sizes (some (pre ++ m.line memsPrefix :: post))).numaAllNodesPtr.bits.card ∧
      ∀ i, sizes.nodemaskSz ≤ i →
        Words.bit (setTaskConstraints sizes (some (pre ++ m.line memsPrefix :: post))).numaAllNodesPtr.maskp i =
          false := by
  obtain ⟨bmp, hread, hsize, hbits⟩ := readMask_text (t := '\n') (by decide) (by decide) [] m hfits
  have hclear : ∀ i, sizes.nodemaskSz ≤ i → Words.bit bmp.maskp i = false := by
    intro i hi
    have h := readMask_clear m hfits hi
    rwa [hread] at h
  obtain ⟨hnodes, hnum⟩ := @foldl_readLine_mems sizes pre post m hother
  rw [hread] at hnodes hnum
  obtain ⟨hnodes', hnum'⟩ := cpuPasses_nodes sizes ((pre ++ m.line memsPrefix :: post).foldl readLine (initial sizes))
  rw [hnodes] at hnodes'
  rw [hnum] at hnum'
  dsimp only at hnodes' hnum'
  have hset : setTaskConstraints sizes (some (pre ++ m.line memsPrefix :: post)) =
      defaultNodes sizes (reduceCpus sizes (defaultCpus sizes (setPossible sizes
        ((pre ++ m.line memsPrefix :: post).foldl readLine (initial sizes))))) := rfl
  rw [hset]
  generalize reduceCpus sizes (defaultCpus sizes (setPossible sizes
    ((pre ++ m.line memsPrefix :: post).foldl readLine (initial sizes)))) = c at hnodes' hnum'
  by_cases hzero : m.value = 0
  · rw [if_pos hzero] at hnum'
    have hempty : bmp.bits = ∅ := by
      apply Finset.eq_empty_of_forall_notMem
      intro i hi
      have h := (hbits i).mp hi
      rw [hzero, Nat.zero_testBit] at h
      cases h
    rw [defaultNodes, if_pos (by rw [hnum']; decide)]
    dsimp only
    have hall : ((List.range (sizes.maxconfigurednode + 1)).foldl numaBitmaskSetbit c.numaAllNodesPtr).bits =
        Finset.range (sizes.maxconfigurednode + 1) := by
      rw [bits_foldl_numaBitmaskSetbit, hnodes', hempty, Finset.empty_union, hsize]
      exact Finset.filter_true_of_mem fun i hi => by
        rw [Finset.mem_range] at hi
        omega
    refine ⟨fun i => ?_, ?_, fun i hi => ?_⟩
    · rw [hall, Finset.mem_range, if_pos hzero, Nat.lt_succ_iff]
    · rw [hall, Finset.card_range]
      rfl
    · have hbit := bit_foldl_setbit c.numaAllNodesPtr i true (List.range (sizes.maxconfigurednode + 1))
      refine Eq.trans hbit ?_
      rw [if_neg (by rw [List.mem_range]; omega), hnodes']
      exact hclear i hi
  · rw [if_neg hzero] at hnum'
    have hpos : 0 < bmp.bits.card := by
      obtain ⟨i, hi⟩ := Nat.exists_testBit_of_ne_zero hzero
      exact Finset.card_pos.mpr ⟨i, (hbits i).mpr hi⟩
    rw [defaultNodes, if_neg (by omega), hnodes']
    refine ⟨fun i => ?_, hnum', hclear⟩
    rw [hbits, if_neg hzero]

end TaskConstraints

/-! ### The globals -/

/-- The globals of the sizes that have been set. -/
structure Sizes.IsGlobals (s : Sizes) (g : Globals) : Prop where
  nodemaskSz_eq : s.nodemaskSz = g.nodemaskSz
  cpumaskSz_eq : s.cpumaskSz = g.cpumaskSz
  maxconfigurednode_eq : s.nodes.maxconfigurednode = g.maxconfigurednode
  numConfiguredCpus_eq : s.maxconfiguredcpu + 1 = g.numConfiguredCpus
  numprocnode_eq : s.constraints.numprocnode = g.numprocnode
  memnode_eq : s.nodes.numaMemnodePtr = g.numaMemnodePtr
  allNodes_eq : s.constraints.numaAllNodesPtr = g.numaAllNodesPtr
  allCpus_eq : s.constraints.numaAllCpusPtr = g.numaAllCpusPtr
  possibleNodes_eq : s.constraints.numaPossibleNodesPtr = g.numaPossibleNodesPtr
  possibleCpus_eq : s.constraints.numaPossibleCpusPtr = g.numaPossibleCpusPtr
  noNodes_eq : s.constraints.numaNoNodesPtr = g.numaNoNodesPtr

/-- A system with the nodes `nodes`, whose status file has one mask of nodes, with room for them, and whose CPUs can be
counted. -/
structure InitSystem.Consistent (sys : InitSystem) (mems : MaskText) (nodes : Finset Nat) (a : AffinityKernel) :
    Prop where
  status_eq : ∃ pre post, sys.status = some (pre ++ mems.line TaskConstraints.memsPrefix :: post) ∧
    ∀ buf ∈ pre ++ post, strprefix buf TaskConstraints.memsPrefix = false
  dirs : ∃ names, sys.names = some names ∧ NodeDirs names nodes
  nonempty : nodes.Nonempty
  nodes_lt : ∀ n ∈ nodes, n < 4 * mems.digits
  digits_lt : 4 * mems.digits < 2 ^ 31
  getaffinity_eq : sys.getaffinity = a.getaffinity
  few : a.nrCpuIds ≤ 1024 * 1024
  processors : 1 ≤ sys.nprocessorsConf

theorem size_numaMemnodePtr_setConfiguredNodes (nodemaskSz : Nat) (names : List (List Char)) :
    (setConfiguredNodes nodemaskSz (some names)).numaMemnodePtr.size = nodemaskSz := by
  apply Runs.invariant_rule (I := fun c : ConfiguredNodes => c.numaMemnodePtr.size = nodemaskSz)
  · rfl
  · intro c nd h
    exact (size_numaBitmaskSetbit _ nd).trans h

/-- The highest node is the largest of those found. -/
theorem NodeDirs.maxconfigurednode_eq {names : List (List Char)} {S : Finset Nat} (h : NodeDirs names S)
    (hne : S.Nonempty) (nodemaskSz : Nat) :
    (setConfiguredNodes nodemaskSz (some names)).maxconfigurednode = S.max' hne := by
  have hle : ((S.max' hne : Nat) : Int) ≤ (setConfiguredNodes nodemaskSz (some names)).maxconfigurednode :=
    h.le_numaMaxNode (S.max'_mem hne)
  obtain ⟨-, -, hnone | ⟨n, hn, heq⟩⟩ := ConfiguredNodes.maxconfigurednode_foldl_addNode
    (c := ⟨zeroBitmask nodemaskSz, zeroBitmask nodemaskSz, -1⟩) (names.filterMap ConfiguredNodes.nodeEntry)
  · rw [setConfiguredNodes, hnone] at hle
    exact absurd hle (by dsimp only; omega)
  · have hmax := S.le_max' n (h.mem_entries.mp hn)
    rw [setConfiguredNodes, heq] at hle ⊢
    omega

/-- On a consistent system the constructor leaves globals on which the rest of the library can rely: node masks with
room for the highest node and CPU masks with room for every possible CPU, the nodes found, and the allowed nodes with
their number and nothing past their size. -/
theorem exists_globals {sys : InitSystem} {mems : MaskText} {nodes : Finset Nat} {a : AffinityKernel}
    (h : sys.Consistent mems nodes a) :
    ∃ s g, setSizes sys = some s ∧ s.IsGlobals g ∧ g.nodemaskSz = 4 * mems.digits ∧
      (∀ hne, g.maxconfigurednode = nodes.max' hne) ∧ g.numaMemnodePtr.bits = nodes ∧
      (∀ i, i ∈ g.numaAllNodesPtr.bits ↔
        if mems.value = 0 then i ≤ g.maxconfigurednode else mems.value.testBit i = true) ∧
      g.numprocnode = g.numaAllNodesPtr.bits.card ∧ a.nrCpuIds ≤ g.cpumaskSz ∧ g.cpumaskSz ≤ 8 * a.cpumaskBytes := by
  obtain ⟨pre, post, hstatus, hother⟩ := h.status_eq
  obtain ⟨names, hnames, hdirs⟩ := h.dirs
  obtain ⟨n, hn, hfew, -⟩ := setNumaMaxCpu_eq a
  obtain ⟨hroom, hkernel, hsmall⟩ := hfew h.few
  obtain ⟨cpumaskSz, rfl⟩ := Int.eq_ofNat_of_zero_le ((Int.natCast_nonneg a.nrCpuIds).trans hroom)
  obtain ⟨numCpus, hcpus⟩ := Int.eq_ofNat_of_zero_le (Int.sub_nonneg_of_le h.processors)
  have hnodemask : setNodemaskSize sys.einval sys.status = 4 * mems.digits := by
    rw [hstatus]
    exact setNodemaskSize_eq mems hother sys.einval
  have hmax := hdirs.maxconfigurednode_eq h.nonempty (4 * mems.digits)
  have hlt : nodes.max' h.nonempty < 4 * mems.digits := h.nodes_lt _ (nodes.max'_mem h.nonempty)
  have hcpumask : cpumaskSz < 2 ^ 31 := by
    have hfew := h.few
    omega
  have hcpupos : 0 < cpumaskSz := by
    have hpos := a.pos
    omega
  obtain ⟨sizes, hsizes⟩ : ∃ sizes : MachineSizes,
      sizes = ⟨4 * mems.digits, cpumaskSz, numCpus, nodes.max' h.nonempty⟩ := ⟨_, rfl⟩
  have hset : setSizes sys = some
      { nodemaskSz := 4 * mems.digits
        nodes := setConfiguredNodes (4 * mems.digits) (some names)
        cpumaskSz := cpumaskSz
        maxconfiguredcpu := numCpus
        constraints := setTaskConstraints sizes
          (some (pre ++ mems.line TaskConstraints.memsPrefix :: post)) } := by
    have hnonneg : ¬((cpumaskSz : Int) < 0 ∨ (numCpus : Int) < 0 ∨ ((nodes.max' h.nonempty : Nat) : Int) < 0) := by
      omega
    rw [setSizes, hnodemask, hnames, h.getaffinity_eq, hn]
    change (if (cpumaskSz : Int) < 0 ∨ sys.nprocessorsConf - 1 < 0 ∨
      (setConfiguredNodes (4 * mems.digits) (some names)).maxconfigurednode < 0 then none else some _) = _
    rw [hcpus, hmax, if_neg hnonneg, hsizes, hstatus, setConfiguredCpus, hcpus]
    rfl
  have hshape := TaskConstraints.sameShape_setTaskConstraints sizes (pre ++ mems.line TaskConstraints.memsPrefix :: post)
  obtain ⟨hall, hnum, hclear⟩ := @TaskConstraints.allNodes_of_line sizes mems pre post hother
    (by rw [hsizes]; exact mems.value_lt) (by rw [hsizes]; exact hlt)
  obtain ⟨c, hc⟩ : ∃ c, setTaskConstraints sizes (some (pre ++ mems.line TaskConstraints.memsPrefix :: post)) = c :=
    ⟨_, rfl⟩
  rw [hc] at hset hshape hall hnum hclear
  rw [hsizes] at hshape hall hclear
  have hmemnode : (setConfiguredNodes (4 * mems.digits) (some names)).numaMemnodePtr.bits = nodes := by
    rw [numaMemnodePtr_setConfiguredNodes]
    exact hdirs.bits_setConfiguredNodes h.nodes_lt
  refine ⟨_, {
    nodemaskSz := 4 * mems.digits
    cpumaskSz := cpumaskSz
    maxconfigurednode := nodes.max' h.nonempty
    numConfiguredCpus := numCpus + 1
    numprocnode := c.numaAllNodesPtr.bits.card
    numaMemnodePtr := (setConfiguredNodes (4 * mems.digits) (some names)).numaMemnodePtr
    numaAllNodesPtr := c.numaAllNodesPtr
    numaAllCpusPtr := c.numaAllCpusPtr
    nodemask_lt := h.digits_lt
    cpumask_lt := hcpumask
    cpumask_pos := hcpupos
    maxnode_lt := hlt
    memnode_size := size_numaMemnodePtr_setConfiguredNodes _ _
    all_nodes_size := hshape.allNodes_size
    all_cpus_size := hshape.allCpus_size
    all_nodes_clear := hclear }, hset, ?_, rfl, fun _ => rfl, hmemnode, hall, rfl, Int.ofNat_le.mp hroom, ?_⟩
  · exact ⟨rfl, rfl, hmax, rfl, hnum, rfl, rfl, rfl, hshape.possibleNodes_eq, hshape.possibleCpus_eq,
      hshape.noNodes_eq⟩
  · exact Int.ofNat_le.mp hkernel

theorem isGroup_26 : ['2', '6'] ≠ [] ∧ ['2', '6'].length ≤ 8 ∧ ['2', '6'].all (isDigitOf 16) = true := by decide

/-- Four CPUs, the nodes 1, 2 and 5, all allowed, and node masks of eight bits. -/
def gappedSystem : InitSystem where
  einval _ := false
  status := some [(oneGroup ['2', '6'] isGroup_26).line TaskConstraints.memsPrefix]
  names := some gappedNames
  getaffinity := AffinityKernel.getaffinity ⟨4, 8, by decide, by decide⟩
  nprocessorsConf := 4

theorem exists_globals_gapped : ∃ s g, setSizes gappedSystem = some s ∧ s.IsGlobals g ∧ g.nodemaskSz = 8 ∧
    g.numaMemnodePtr.bits = gappedNodes ∧ g.numprocnode = g.numaAllNodesPtr.bits.card := by
  have hconsistent : gappedSystem.Consistent (oneGroup ['2', '6'] isGroup_26) gappedNodes
      ⟨4, 8, by decide, by decide⟩ :=
    ⟨⟨[], [], rfl, by simp⟩, ⟨_, rfl, nodeDirs_gapped⟩, by decide, by decide, by decide, rfl, by decide, by decide⟩
  obtain ⟨s, g, hset, hglobals, hsize, -, hmemnode, -, hnum, -⟩ := exists_globals hconsistent
  exact ⟨s, g, hset, hglobals, hsize, hmemnode, hnum⟩

end Numactl
