import Numactl.NodeCpusHistory

/-! What is built on `numa_node_to_cpus` in `libnuma.c`: the test for nodes without CPUs
(`numa_is_cpuless_node`), the search for the node of a CPU (`numa_node_of_cpu`), and the agreement of a
query answered from a kept mask with the query that has read it. Running out of memory is not modelled. -/

namespace Numactl
namespace NodeCpus

variable {cfg : CpuConfig}

/-- A query with a mask of `numa_allocate_cpumask`. -/
def numaNodeToCpus (s : NodeCpus cfg) (node : Int) : CpusReply Bitmask :=
  s.replyV2 node (numaAllocateCpumask cfg).toBitmask

/-- A query of a node in range: the answer of the cache, unless it is kept and the buffer too small. -/
theorem replyV2_eq (s : NodeCpus cfg) {node : Int} (buffer : Bitmask) (hmin : 0 ≤ node)
    (hmax : node ≤ cfg.maxconfigurednode) :
    s.replyV2 node buffer =
      if s.cacheV2.reads node.toNat = false ∧ buffer.size < cfg.cpumaskSz then
        { ret := -1, errno := some EINVAL, buffer := numaBitmaskClearall buffer }
      else
        { ret := retOf (s.cacheV2.reply node.toNat).1,
          errno := errnoOf cfg (s.cacheV2.reads node.toNat) (s.cpumap node.toNat),
          buffer := copyBitmaskToBitmask (s.cacheV2.reply node.toNat).2.toBitmask
            (numaBitmaskClearall buffer) } := by
  rw [replyV2, numaNodeToCpusV2_eq s ⟨hmin, hmax⟩]

/-- With a buffer of the kernel's size nothing is refused. -/
theorem replyV2_of_size (s : NodeCpus cfg) {node : Int} {buffer : Bitmask} (hmin : 0 ≤ node)
    (hmax : node ≤ cfg.maxconfigurednode) (hbuffer : buffer.size = cfg.cpumaskSz) :
    (s.replyV2 node buffer).ret = retOf (s.cacheV2.reply node.toNat).1 ∧
      (s.replyV2 node buffer).buffer.bits = (s.cacheV2.reply node.toNat).2.bits := by
  rw [replyV2_eq s buffer hmin hmax, if_neg fun h => absurd h.2 (by omega)]
  exact ⟨rfl, bits_copy_cpumask _ hbuffer⟩

theorem replyV2_ret (s : NodeCpus cfg) (node : Int) (buffer : Bitmask) :
    (s.replyV2 node buffer).ret = 0 ∨ (s.replyV2 node buffer).ret = -1 := by
  by_cases hrange : 0 ≤ node ∧ node ≤ cfg.maxconfigurednode
  · rw [replyV2_eq s buffer hrange.1 hrange.2]
    split
    · exact Or.inr rfl
    · cases (s.cacheV2.reply node.toNat).1
      · exact Or.inr rfl
      · exact Or.inl rfl
  · rw [replyV2, numaNodeToCpusV2, if_pos (by omega)]
    exact Or.inr rfl

theorem retOf_eq_neg_one {ok : Bool} : retOf ok = -1 ↔ ok = false := by
  cases ok <;> simp [retOf]

/-! ### Nodes without CPUs -/

/-- What a call that only answers with a number returns and sets. -/
structure IntReply where
  ret : Int
  errno : Option Errno
  deriving DecidableEq

def numaIsCpulessNode (cfg : CpuConfig) (cpumap : Nat → CpumapFile)
    (st : NodeCpuMask (Cpumask cfg.cpumaskSz)) (nodeId : Int) :
    IntReply × NodeCpuMask (Cpumask cfg.cpumaskSz) :=
  if nodeId < 0 ∨ (cfg.maxconfigurednode : Int) < nodeId then
    ({ ret := -1, errno := some ERANGE }, st)
  else
    -- the return value of the query is not looked at
    let r := numaNodeToCpusV2 cfg cpumap st nodeId (numaAllocateCpumask cfg).toBitmask
    ({ ret := if numaBitmaskWeight r.1.buffer = 0 then 1 else 0, errno := r.1.errno }, r.2)

/-- 1, 0 and -1 stand for the three answers of `numa_node_to_cpus`: no CPU, some CPUs, and failure. -/
structure ReportsCpus (s : NodeCpus cfg) (node : Int) : Prop where
  cpuless : (numaIsCpulessNode cfg s.cpumap s.v2 node).1.ret = 1 ↔
    (s.numaNodeToCpus node).ret = 0 ∧ (s.numaNodeToCpus node).buffer.bits = ∅
  hasCpus : (numaIsCpulessNode cfg s.cpumap s.v2 node).1.ret = 0 ↔
    (s.numaNodeToCpus node).ret = 0 ∧ (s.numaNodeToCpus node).buffer.bits ≠ ∅
  failed : (numaIsCpulessNode cfg s.cpumap s.v2 node).1.ret = -1 ↔ (s.numaNodeToCpus node).ret = -1

/-- The mask of the node is kept and the flag is clear, or the cpumap file can be read and parsed. -/
def MaskAvailable (s : NodeCpus cfg) (n : Nat) : Prop :=
  (∃ mask, s.v2.slot n = some mask ∧ s.v2.stale = false) ∨ ∃ mask, CpumapV2 cfg (s.cpumap n) mask

theorem reply_fst_eq_true_iff (s : NodeCpus cfg) (n : Nat) :
    (s.cacheV2.reply n).1 = true ↔ s.MaskAvailable n := by
  have hsource : (∃ mask, CpumapV2 cfg (s.cpumap n) mask) ↔ (s.cacheV2.source n).1 = true := by
    constructor
    · rintro ⟨mask, h⟩
      rw [(sourceV2_eq_iff s n mask).mpr h]
    · intro h
      exact ⟨(s.cacheV2.source n).2, (sourceV2_eq_iff s n _).mp (Prod.ext h rfl)⟩
  rw [MaskAvailable, hsource]
  cases hreads : s.cacheV2.reads n with
  | true =>
      rw [FlagCache.reply_of_reads hreads]
      refine ⟨Or.inr, fun h => h.resolve_left ?_⟩
      rintro ⟨mask, hslot, hstale⟩
      simp [FlagCache.Cache.reads, cacheV2, hslot, hstale] at hreads
  | false =>
      obtain ⟨mask, hslot, hreply⟩ := FlagCache.reply_of_not_reads hreads
      have hstale : s.v2.stale = false := by
        simp only [FlagCache.Cache.reads, Bool.or_eq_false_iff] at hreads
        exact hreads.1
      rw [hreply]
      exact iff_of_true rfl (Or.inl ⟨mask, hslot, hstale⟩)

theorem numaIsCpulessNode_ret (s : NodeCpus cfg) {node : Int} (hmin : 0 ≤ node)
    (hmax : node ≤ cfg.maxconfigurednode) :
    (numaIsCpulessNode cfg s.cpumap s.v2 node).1.ret =
      if (s.numaNodeToCpus node).buffer.bits = ∅ then 1 else 0 := by
  rw [numaIsCpulessNode, if_neg (by omega)]
  simp only [numaBitmaskWeight_eq, Finset.card_eq_zero]
  rfl

/-- In every state, `numa_is_cpuless_node` tells the three answers of a node in range apart exactly when
the answer is no failure. -/
theorem reportsCpus_iff (s : NodeCpus cfg) {node : Int} (hmin : 0 ≤ node)
    (hmax : node ≤ cfg.maxconfigurednode) : ReportsCpus s node ↔ s.MaskAvailable node.toNat := by
  have hret := numaIsCpulessNode_ret s hmin hmax
  have hcpus : (s.numaNodeToCpus node).ret = retOf (s.cacheV2.reply node.toNat).1 :=
    (replyV2_of_size s hmin hmax rfl).1
  rw [← reply_fst_eq_true_iff]
  constructor
  · intro h
    by_contra hfail
    have hneg : (s.numaNodeToCpus node).ret = -1 :=
      hcpus.trans (retOf_eq_neg_one.mpr (Bool.eq_false_of_not_eq_true hfail))
    have hcpuless := h.failed.mpr hneg
    rw [hret] at hcpuless
    split at hcpuless <;> simp at hcpuless
  · intro hok
    have hzero : (s.numaNodeToCpus node).ret = 0 := by rw [hcpus, hok]; rfl
    by_cases hbits : (s.numaNodeToCpus node).buffer.bits = ∅
    · rw [if_pos hbits] at hret
      refine ⟨?_, ?_, ?_⟩ <;> rw [hret, hzero] <;> simp [hbits]
    · rw [if_neg hbits] at hret
      refine ⟨?_, ?_, ?_⟩ <;> rw [hret, hzero] <;> simp [hbits]

theorem reportsCpus_cpu0 : ReportsCpus (initial twoNodes cpu0) 1 :=
  (reportsCpus_iff (initial twoNodes cpu0) (by decide) (by decide)).mpr
    (Or.inr ⟨_, _, rfl, by decide, rfl⟩)

/-- Node 1 is missing: its query fails, and the node is said to have CPUs. -/
theorem not_reportsCpus_missing : ¬ReportsCpus (initial twoNodes fun _ => .absent) 1 := by
  intro h
  have hneg := h.failed.mpr (by decide +kernel)
  revert hneg
  decide +kernel

/-! ### Kept masks against readings -/

/-- The same return value, and the same bits in the buffer. -/
def SameAnswer (r r' : CpusReply Bitmask) : Prop := r.ret = r'.ret ∧ r.buffer.bits = r'.buffer.bits

theorem opV2_eq_change {e : CpuEvent} {source : Nat → Bool × Cpumask cfg.cpumaskSz}
    (h : opV2 cfg e = .change source) :
    ∃ cpumap, e = .sysfs cpumap ∧ source = fun n => sourceOf (readCpumapV2 cfg (cpumap n)) := by
  cases e with
  | queryV1 node buffer => cases h
  | queryV2 node buffer =>
      rw [opV2] at h
      split at h <;> cases h
  | update => cases h
  | sysfs cpumap => exact ⟨cpumap, rfl, (FlagCache.Op.change.inj h).symm⟩

/-- A slot that agrees with the node's file goes on doing so while the file does not change. -/
theorem consistent_after {s : NodeCpus cfg} {n : Nat} (h : s.cacheV2.Consistent n) {ops : List CpuEvent}
    (hfiles : ∀ cpumap, .sysfs cpumap ∈ ops → cpumap n = s.cpumap n) :
    (Runs.after step s ops).cacheV2.Consistent n ∧
      (Runs.after step s ops).cacheV2.source n = s.cacheV2.source n := by
  rw [cacheV2_after]
  refine FlagCache.consistent_after h fun source hsource => ?_
  obtain ⟨e, he, hop⟩ := List.mem_map.mp hsource
  obtain ⟨cpumap, rfl, rfl⟩ := opV2_eq_change hop
  simp only [cacheV2, hfiles cpumap he]

/-- The bits copied to a buffer depend on the buffer's size only. -/
theorem bits_copy_congr (mask : Bitmask) {buffer buffer' : Bitmask} (h : buffer.size = buffer'.size) :
    (copyBitmaskToBitmask mask (numaBitmaskClearall buffer)).bits =
      (copyBitmaskToBitmask mask (numaBitmaskClearall buffer')).bits := by
  apply Finset.ext
  intro i
  simp only [mem_bits_copyBitmaskToBitmask, size_clearall, h]

/-- A query of an existing node reads its cpumap. Later, whatever has been asked and updated since, a
query with a buffer of the same size is answered from the kept mask. The answers are the same exactly when
the buffer is as long as the kernel's cpumask. -/
theorem sameAnswer_iff {s : NodeCpus cfg} {n : Nat} (hmax : n ≤ cfg.maxconfigurednode)
    {mask : Cpumask cfg.cpumaskSz} (hmask : CpumapV2 cfg (s.cpumap n) mask)
    (hread : s.cacheV2.reads n = true) {buffer buffer' : Bitmask} (hsize : buffer'.size = buffer.size)
    {ops : List CpuEvent} (hfiles : ∀ cpumap, .sysfs cpumap ∈ ops → cpumap n = s.cpumap n)
    (hkept : (Runs.after step (s.step (.queryV2 n buffer)) ops).cacheV2.reads n = false) :
    SameAnswer ((Runs.after step (s.step (.queryV2 n buffer)) ops).replyV2 n buffer')
      (s.replyV2 n buffer) ↔ cfg.cpumaskSz ≤ buffer.size := by
  have hsource := (sourceV2_eq_iff s n mask).mpr hmask
  have hop : opV2 cfg (.queryV2 n buffer) = .query n := by
    rw [opV2, if_pos ⟨by omega, by omega⟩, Int.toNat_natCast]
  have hstep : (s.step (.queryV2 n buffer)).cacheV2.Consistent n := by
    rw [cacheV2_step, hop]
    exact FlagCache.consistent_of_reads hread (congrArg Prod.fst hsource)
  obtain ⟨hcons, hsame⟩ := consistent_after hstep hfiles
  have hlater := (FlagCache.reply_of_consistent hcons).trans (hsame.trans hsource)
  have hfirst := (FlagCache.reply_of_reads hread).trans hsource
  have hreply : s.replyV2 n buffer =
      { ret := 0, errno := errnoOf cfg true (s.cpumap n),
        buffer := copyBitmaskToBitmask mask.toBitmask (numaBitmaskClearall buffer) } := by
    rw [replyV2_eq s buffer (by omega) (by omega), Int.toNat_natCast, hread, hfirst]
    exact if_neg fun h => absurd h.1 (by simp)
  rw [hreply, replyV2_eq _ buffer' (by omega) (by omega), Int.toNat_natCast, hkept, hlater, hsize]
  by_cases hbuffer : cfg.cpumaskSz ≤ buffer.size
  · rw [if_neg fun h => absurd h.2 (by omega)]
    exact iff_of_true ⟨rfl, bits_copy_congr mask.toBitmask hsize⟩ hbuffer
  · rw [if_pos ⟨rfl, by omega⟩]
    exact iff_of_false (fun h => absurd h.1 (by simp)) hbuffer

theorem sameAnswer_cpu0 :
    SameAnswer ((Runs.after step ((initial twoNodes cpu0).step (.queryV2 0 (zeroBitmask 64)))
        []).replyV2 0 (zeroBitmask 64))
      ((initial twoNodes cpu0).replyV2 0 (zeroBitmask 64)) :=
  (sameAnswer_iff (s := initial twoNodes cpu0) (n := 0) (by decide) ⟨_, rfl, by decide, rfl⟩ rfl rfl
    (fun f hf => absurd hf List.not_mem_nil) (by decide +kernel)).mpr (by decide)

/-- A buffer of one bit gets the low bit of the cpumap when the file is read, and is refused when the same
query is made again. -/
theorem not_sameAnswer_short :
    ¬SameAnswer ((Runs.after step ((initial twoNodes cpu0).step (.queryV2 0 (zeroBitmask 1)))
        []).replyV2 0 (zeroBitmask 1))
      ((initial twoNodes cpu0).replyV2 0 (zeroBitmask 1)) := by
  intro h
  have hret := h.1
  revert hret
  decide +kernel

/-! ### The node of a CPU -/

/-- The loop of `numa_node_of_cpu` over the nodes, with the buffer they share and what `errno` is set to. -/
def scanNodes (cfg : CpuConfig) (cpumap : Nat → CpumapFile) (cpu : Nat) :
    List Nat → Bitmask → Option Errno → NodeCpuMask (Cpumask cfg.cpumaskSz) →
      (Option Nat × Option Errno) × NodeCpuMask (Cpumask cfg.cpumaskSz)
  | [], _, errno, st => ((none, errno), st)
  | node :: nodes, bmp, errno, st =>
      let r := numaNodeToCpusV2 cfg cpumap st node bmp
      let errno := r.1.errno.or errno
      -- a node that does not exist is passed over, and leaves its ones in the buffer
      if r.1.ret < 0 then scanNodes cfg cpumap cpu nodes r.1.buffer errno r.2
      else if numaBitmaskIsbitset r.1.buffer cpu then ((some node, errno), r.2)
      else scanNodes cfg cpumap cpu nodes r.1.buffer errno r.2

/-- The `int` CPU number is compared as it is, and looked up as an `unsigned int`. -/
def numaNodeOfCpu (cfg : CpuConfig) (cpumap : Nat → CpumapFile)
    (st : NodeCpuMask (Cpumask cfg.cpumaskSz)) (cpu : BitVec 32) :
    IntReply × NodeCpuMask (Cpumask cfg.cpumaskSz) :=
  if (cfg.cpumaskSz : Int) < cpu.toInt then ({ ret := -1, errno := some EINVAL }, st)
  else
    match scanNodes cfg cpumap cpu.toNat (List.range (cfg.maxconfigurednode + 1))
        (zeroBitmask cfg.cpumaskSz) none st with
    | ((some node, errno), st') => ({ ret := node, errno := errno }, st')
    | ((none, _), st') => ({ ret := -1, errno := some EINVAL }, st')

/-- Asked with a buffer of the kernel's size, the node reports the CPU as its own. -/
def ContainsCpu (s : NodeCpus cfg) (cpu : BitVec 32) (n : Nat) : Prop :=
  (s.numaNodeToCpus n).ret = 0 ∧ ∃ c ∈ (s.numaNodeToCpus n).buffer.bits, cpu.toInt = c

/-- The existing nodes of a system: their cpumap files can be read and parsed, and no other node has one. -/
structure HasNodes (cfg : CpuConfig) (cpumap : Nat → CpumapFile) (nodes : Set Nat) : Prop where
  le_max : ∀ n ∈ nodes, n ≤ cfg.maxconfigurednode
  readable : ∀ n ∈ nodes, ∃ mask, CpumapV2 cfg (cpumap n) mask
  absent : ∀ n, n ∉ nodes → ∃ e he, cpumap n = .missing e he

/-- The node's file can be read, and has the CPU. -/
def sourceHas (s : NodeCpus cfg) (cpu n : Nat) : Bool :=
  (s.cacheV2.source n).1 && decide (cpu ∈ (s.cacheV2.source n).2.bits)

/-- One query of the loop, in a state whose slots agree with the files. -/
theorem queryV2_of_consistent {s : NodeCpus cfg} (hcons : ∀ n, s.cacheV2.Consistent n) {n : Nat}
    (hmax : n ≤ cfg.maxconfigurednode) {bmp : Bitmask} (hsize : bmp.size = cfg.cpumaskSz) :
    (s.replyV2 n bmp).ret = retOf (s.cacheV2.source n).1 ∧
      (s.replyV2 n bmp).buffer.bits = (s.cacheV2.source n).2.bits ∧
      (s.replyV2 n bmp).buffer.size = cfg.cpumaskSz := by
  obtain ⟨hret, hbits⟩ := replyV2_of_size s (Int.natCast_nonneg n) (by omega) hsize
  rw [Int.toNat_natCast, FlagCache.reply_of_consistent (hcons n)] at hret hbits
  refine ⟨hret, hbits, ?_⟩
  rw [replyV2_eq s bmp (by omega) (by omega), if_neg fun h => absurd h.2 (by omega)]
  simp [hsize]

/-- One turn of the loop, as a step of the state. -/
theorem scanNodes_cons (s : NodeCpus cfg) (cpu n : Nat) (nodes : List Nat) (bmp : Bitmask) (errno : Option Errno) :
    scanNodes cfg s.cpumap cpu (n :: nodes) bmp errno s.v2 =
      if (s.replyV2 n bmp).ret = 0 ∧ cpu ∈ (s.replyV2 n bmp).buffer.bits then
        ((some n, (s.replyV2 n bmp).errno.or errno), (s.step (.queryV2 n bmp)).v2)
      else
        scanNodes cfg (s.step (.queryV2 n bmp)).cpumap cpu nodes (s.replyV2 n bmp).buffer
          ((s.replyV2 n bmp).errno.or errno) (s.step (.queryV2 n bmp)).v2 := by
  have hret := replyV2_ret s n bmp
  rw [scanNodes]
  change (if (s.replyV2 n bmp).ret < 0 then _ else if numaBitmaskIsbitset (s.replyV2 n bmp).buffer cpu then _
    else _) = _
  by_cases hfail : (s.replyV2 n bmp).ret < 0
  · rw [if_pos hfail, if_neg (by omega)]
    rfl
  · have hok : (s.replyV2 n bmp).ret = 0 := by omega
    rw [if_neg hfail]
    by_cases hbit : cpu ∈ (s.replyV2 n bmp).buffer.bits
    · rw [if_pos ((numaBitmaskIsbitset_eq_true _ _).mpr hbit), if_pos ⟨hok, hbit⟩]
      rfl
    · rw [if_neg (mt (numaBitmaskIsbitset_eq_true _ _).mp hbit), if_neg fun h => hbit h.2]
      rfl

/-- The loop finds the first node whose file has the CPU. -/
theorem scanNodes_eq_find (cpu : Nat) (nodes : List Nat) {s : NodeCpus cfg}
    (hcons : ∀ n, s.cacheV2.Consistent n) (hmax : ∀ n ∈ nodes, n ≤ cfg.maxconfigurednode) {bmp : Bitmask}
    (hsize : bmp.size = cfg.cpumaskSz) (errno : Option Errno) :
    (scanNodes cfg s.cpumap cpu nodes bmp errno s.v2).1.1 = nodes.find? (s.sourceHas cpu) := by
  induction nodes generalizing s bmp errno with
  | nil => rfl
  | cons n nodes ih =>
      obtain ⟨hret, hbits, hsize'⟩ := queryV2_of_consistent hcons (hmax n List.mem_cons_self) hsize
      have hnext : ∀ i, (s.step (.queryV2 n bmp)).cacheV2.Consistent i ∧
          (s.step (.queryV2 n bmp)).cacheV2.source i = s.cacheV2.source i :=
        fun i => @consistent_after cfg s i (hcons i) [.queryV2 n bmp] (by simp)
      have htail := ih (fun i => (hnext i).1) (fun i hi => hmax i (List.mem_cons_of_mem n hi)) hsize'
        ((s.replyV2 n bmp).errno.or errno)
      have hhas : (s.step (.queryV2 n bmp)).sourceHas cpu = s.sourceHas cpu := by
        funext i
        rw [sourceHas, sourceHas, (hnext i).2]
      rw [hhas] at htail
      rw [scanNodes_cons, hret, hbits, List.find?_cons]
      cases hsrc : s.sourceHas cpu n with
      | true =>
          have hsrc' := Bool.and_eq_true_iff.mp hsrc
          rw [hsrc'.1, if_pos ⟨rfl, of_decide_eq_true hsrc'.2⟩]
      | false =>
          rw [if_neg ?_]
          · exact htail
          · rintro ⟨hok, hbit⟩
            have hsource := retOf_eq_zero hok
            rw [sourceHas, hsource, decide_eq_true hbit] at hsrc
            cases hsrc

theorem consistent_initial (cpumap : Nat → CpumapFile) (n : Nat) :
    (initial cfg cpumap).cacheV2.Consistent n := by
  intro mask h
  cases h

/-- An `int` that is a small number is that number as an `unsigned int` too. -/
theorem toInt_eq_natCast_iff (cpu : BitVec 32) {c : Nat} (hc : c < 2 ^ 31) : cpu.toInt = c ↔ cpu.toNat = c := by
  have hlt := cpu.isLt
  rw [BitVec.toInt_eq_toNat_cond]
  split <;> omega

theorem sourceHas_iff (s : NodeCpus cfg) (c n : Nat) :
    s.sourceHas c n = true ↔ (s.cacheV2.source n).1 = true ∧ c ∈ (s.cacheV2.source n).2.bits := by
  rw [sourceHas, Bool.and_eq_true_iff, decide_eq_true_eq]

theorem containsCpu_iff {s : NodeCpus cfg} (hcons : ∀ n, s.cacheV2.Consistent n)
    (hint : cfg.cpumaskSz < 2 ^ 31) (cpu : BitVec 32) {n : Nat} (hmax : n ≤ cfg.maxconfigurednode) :
    s.ContainsCpu cpu n ↔ s.sourceHas cpu.toNat n = true := by
  have hret : (s.numaNodeToCpus n).ret = retOf (s.cacheV2.source n).1 :=
    (queryV2_of_consistent hcons hmax rfl).1
  have hbits : (s.numaNodeToCpus n).buffer.bits = (s.cacheV2.source n).2.bits :=
    (queryV2_of_consistent hcons hmax rfl).2.1
  have hbelow : ∀ c ∈ (s.cacheV2.source n).2.bits, c < 2 ^ 31 := by
    intro c hc
    have := (Bitmask.mem_bits.mp hc).1
    rw [(s.cacheV2.source n).2.size_eq] at this
    omega
  rw [ContainsCpu, hret, hbits, sourceHas_iff]
  refine and_congr ⟨retOf_eq_zero, fun h => by rw [h]; rfl⟩ ⟨?_, fun h => ?_⟩
  · rintro ⟨c, hc, hcpu⟩
    rwa [(toInt_eq_natCast_iff cpu (hbelow c hc)).mp hcpu]
  · exact ⟨_, h, (toInt_eq_natCast_iff cpu (hbelow _ h)).mpr rfl⟩

/-- `numa_node_of_cpu` as a search: its first check refuses no CPU of a node. -/
theorem numaNodeOfCpu_eq_find {s : NodeCpus cfg} (hcons : ∀ n, s.cacheV2.Consistent n) (cpu : BitVec 32) :
    ∃ errno, (numaNodeOfCpu cfg s.cpumap s.v2 cpu).1 =
      match (List.range (cfg.maxconfigurednode + 1)).find? (s.sourceHas cpu.toNat) with
      | some n => { ret := n, errno := errno }
      | none => { ret := -1, errno := some EINVAL } := by
  have hscan := scanNodes_eq_find cpu.toNat (List.range (cfg.maxconfigurednode + 1)) hcons
    (fun n hn => Nat.lt_succ_iff.mp (List.mem_range.mp hn))
    (show (zeroBitmask cfg.cpumaskSz).size = cfg.cpumaskSz from rfl) none
  refine ⟨(scanNodes cfg s.cpumap cpu.toNat (List.range (cfg.maxconfigurednode + 1))
    (zeroBitmask cfg.cpumaskSz) none s.v2).1.2, ?_⟩
  rw [← hscan, numaNodeOfCpu]
  split
  · next hbig =>
    have hnone : (scanNodes cfg s.cpumap cpu.toNat (List.range (cfg.maxconfigurednode + 1))
        (zeroBitmask cfg.cpumaskSz) none s.v2).1.1 = none := by
      rw [hscan, List.find?_eq_none]
      intro n _ hhas
      have hlt := (Bitmask.mem_bits.mp ((sourceHas_iff s _ n).mp hhas).2).1
      rw [(s.cacheV2.source n).2.size_eq] at hlt
      rw [BitVec.toInt_eq_toNat_cond] at hbig
      split at hbig <;> omega
    rw [hnone]
  · split
    · next heq => rw [heq]
    · next heq => rw [heq]

/-- After any queries and updates on unchanged files, `numa_node_of_cpu` returns the lowest existing node
that reports the CPU as its own, and refuses exactly the CPUs of no existing node. -/
theorem numaNodeOfCpu_eq_least {cpumap : Nat → CpumapFile} {nodes : Set Nat}
    (hnodes : HasNodes cfg cpumap nodes) (hint : cfg.cpumaskSz < 2 ^ 31) {ops : List CpuEvent}
    (hops : ∀ f, .sysfs f ∉ ops) (cpu : BitVec 32) :
    (∀ n : Nat, (numaNodeOfCpu cfg cpumap (Runs.after step (initial cfg cpumap) ops).v2 cpu).1.ret = n ↔
      IsLeast {n | n ∈ nodes ∧ (Runs.after step (initial cfg cpumap) ops).ContainsCpu cpu n} n) ∧
    ((numaNodeOfCpu cfg cpumap (Runs.after step (initial cfg cpumap) ops).v2 cpu).1 =
        { ret := -1, errno := some EINVAL } ↔
      ∀ n ∈ nodes, ¬(Runs.after step (initial cfg cpumap) ops).ContainsCpu cpu n) := by
  have hcons : ∀ n, (Runs.after step (initial cfg cpumap) ops).cacheV2.Consistent n :=
    fun n => (consistent_after (consistent_initial cpumap n) fun f hf => absurd hf (hops f)).1
  have hfiles := cpumap_after (initial cfg cpumap) hops
  generalize Runs.after step (initial cfg cpumap) ops = s at hcons hfiles ⊢
  -- the existing nodes with the CPU are the nodes the loop accepts
  have hset : ∀ n, n ∈ nodes ∧ s.ContainsCpu cpu n ↔
      n < cfg.maxconfigurednode + 1 ∧ s.sourceHas cpu.toNat n = true := by
    intro n
    constructor
    · rintro ⟨hn, hcpu⟩
      have hmax := hnodes.le_max n hn
      exact ⟨by omega, (containsCpu_iff hcons hint cpu hmax).mp hcpu⟩
    · rintro ⟨hmax, hhas⟩
      refine ⟨by_contra fun hn => ?_, (containsCpu_iff hcons hint cpu (by omega)).mpr hhas⟩
      have hsource := ((sourceHas_iff s _ n).mp hhas).1
      obtain ⟨e, he, hmissing⟩ := hnodes.absent n hn
      simp only [cacheV2, hfiles, initial, hmissing] at hsource
      cases hsource
  obtain ⟨errno, hfind⟩ := numaNodeOfCpu_eq_find hcons cpu
  rw [hfiles] at hfind
  change (numaNodeOfCpu cfg cpumap s.v2 cpu).1 = _ at hfind
  rw [hfind]
  cases hfound : (List.range (cfg.maxconfigurednode + 1)).find? (s.sourceHas cpu.toNat) with
  | none =>
      have hnot : ∀ n, ¬(n ∈ nodes ∧ s.ContainsCpu cpu n) := by
        intro n hn
        obtain ⟨hmax, hhas⟩ := (hset n).mp hn
        exact List.find?_eq_none.mp hfound n (List.mem_range.mpr hmax) hhas
      refine ⟨fun n => iff_of_false (by simp) fun h => hnot n h.1, iff_of_true rfl fun n hn hcpu => ?_⟩
      exact hnot n ⟨hn, hcpu⟩
  | some m =>
      obtain ⟨hhas, hmax, hbefore⟩ := List.find?_range_eq_some.mp hfound
      have hm := (hset m).mpr ⟨List.mem_range.mp hmax, hhas⟩
      have hleast : IsLeast {n | n ∈ nodes ∧ s.ContainsCpu cpu n} m := by
        refine ⟨hm, fun n hn => not_lt.mp fun hlt => ?_⟩
        have hno := hbefore n hlt
        rw [((hset n).mp hn).2] at hno
        cases hno
      refine ⟨fun n => ⟨fun h => ?_, fun h => ?_⟩, iff_of_false (fun h => ?_) fun h => h m hm.1 hm.2⟩
      · rwa [← Int.natCast_inj.mp h]
      · exact congrArg Nat.cast (hleast.unique h)
      · have hret := congrArg IntReply.ret h
        simp at hret

/-- Node 0 has CPU 0, node 2 has CPUs 0 and 1, and node 1 is a gap. -/
def gapFiles : Nat → CpumapFile
  | 0 => .text '1' ['\n']
  | 2 => .text '3' ['\n']
  | _ => .absent

def gapConfig : CpuConfig := { twoNodes with maxconfigurednode := 2 }

theorem hasNodes_gapFiles : HasNodes gapConfig gapFiles {0, 2} := by
  refine ⟨?_, ?_, fun n hn => ?_⟩
  · rintro n (rfl | rfl) <;> decide
  · rintro n (rfl | rfl)
    · exact ⟨_, _, rfl, by decide, rfl⟩
    · exact ⟨_, _, rfl, by decide, rfl⟩
  · rcases n with _ | _ | _ | n
    · exact absurd (Or.inl rfl) hn
    · exact ⟨_, _, rfl⟩
    · exact absurd (Or.inr rfl) hn
    · exact ⟨_, _, rfl⟩

theorem numaNodeOfCpu_gap :
    (numaNodeOfCpu gapConfig gapFiles
        (Runs.after step (initial gapConfig gapFiles) [.queryV2 1 (zeroBitmask 64)]).v2 1).1.ret = (2 : Nat) ↔
      IsLeast {n | n ∈ ({0, 2} : Set Nat) ∧
        (Runs.after step (initial gapConfig gapFiles) [.queryV2 1 (zeroBitmask 64)]).ContainsCpu 1 n} 2 :=
  (numaNodeOfCpu_eq_least hasNodes_gapFiles (by decide) (by simp) 1).1 2

end NodeCpus
end Numactl
