import Numactl.NodeCpusHistory
import Numactl.Requests

/-! The nodes a task runs on (`numa_run_on_node_mask_v2`, `numa_get_run_node_mask_v2` in `libnuma.c`). The
setter gathers the CPUs of nodes and hands them to the kernel; the getter asks the kernel for them and
looks for the nodes that have some. What `sched_getaffinity` answers is a parameter of the getter. -/

namespace Numactl

/-- `numa_sched_getaffinity_v2_int`, when the kernel reports the given CPUs or an error: what it returns,
and the mask. -/
def schedGetaffinity (reported : Except Errno (Finset Nat)) (mask : Bitmask) : Int × Bitmask :=
  match reported with
  | .error _ => (-1, mask)
  | .ok cpus => (numaBitmaskNbytes mask, Kernel.fill mask cpus)

/-- The requests so far, and the CPUs of the last granted `sched_setaffinity` among them. -/
def affinityStep (k : Kernel) (s : List Request × Option (Finset Nat)) (req : Request) :
    List Request × Option (Finset Nat) :=
  (s.1 ++ [req],
    match req with
    | .schedSetaffinity _ len mask =>
        if (k.refusal (s.1 ++ [req])).isNone then some (Words.bitsBelow mask (len * 8)) else s.2
    | _ => s.2)

/-- The CPU set last given to `sched_setaffinity`, if one has been granted. -/
def lastAffinity (k : Kernel) (requests : List Request) : Option (Finset Nat) :=
  (requests.foldl (affinityStep k) ([], none)).2

theorem lastAffinity_concat (k : Kernel) (requests : List Request) (pid len : Nat) (mask : List Word)
    (h : k.refusal (requests ++ [.schedSetaffinity pid len mask]) = none) :
    lastAffinity k (requests ++ [.schedSetaffinity pid len mask]) = some (Words.bitsBelow mask (len * 8)) := by
  have hfst : ∀ reqs : List Request, (reqs.foldl (affinityStep k) ([], none)).1 = reqs := by
    intro reqs
    induction reqs using List.reverseRecOn with
    | nil => rfl
    | append_singleton reqs req ih =>
        rw [List.foldl_append, List.foldl_cons, List.foldl_nil]
        exact congrArg (· ++ [req]) ih
  rw [lastAffinity, List.foldl_append, List.foldl_cons, List.foldl_nil, affinityStep, hfst]
  exact if_pos (by rw [h]; rfl)

variable {g : Globals} (k : Kernel)

/-- The two masks of the getter's loop and the task. -/
structure RunNodeLoop (g : Globals) where
  bmp : Bitmask
  nodecpus : Bitmask
  task : Task g

/-- The loop body: the node is added for every word in which it and the task have a CPU in common. -/
def addRunNode (cpus : Bitmask) (s : RunNodeLoop g) (i : Nat) : RunNodeLoop g :=
  if numaBitmaskIsbitset g.numaAllNodesPtr i then
    let r := numaNodeToCpusV2 g.cpuConfig k.cpumap s.task.nodeCpus i s.nodecpus
    let task := { s.task with nodeCpus := r.2, errno := r.1.errno.getD s.task.errno }
    if r.1.ret < 0 then { s with nodecpus := r.1.buffer, task := task }
    else
      { bmp := (List.range (cpuLongs g.numConfiguredCpus)).foldl
          (fun b j => if r.1.buffer.maskp.getD j 0 &&& cpus.maskp.getD j 0 ≠ 0 then numaBitmaskSetbit b i else b)
          s.bmp
        nodecpus := r.1.buffer
        task := task }
  else s

def runNodeLoop (cpus : Bitmask) (n : Nat) (t : Task g) : RunNodeLoop g :=
  (List.range n).foldl (addRunNode k cpus)
    { bmp := g.numaAllocateCpumask, nodecpus := g.numaAllocateCpumask, task := t }

/-- The nodes are returned in a mask of the size of the kernel's CPU masks. The words looked at are those
of the number of configured CPUs, here 0 past the end of a mask. -/
def numaGetRunNodeMaskV2 (reported : Except Errno (Finset Nat)) (t : Task g) : Bitmask × Task g :=
  let r := schedGetaffinity reported g.numaAllocateCpumask
  if r.1 < 0 then
    (copyBitmaskToBitmask g.numaNoNodesPtr g.numaAllocateCpumask,
      match reported with
      | .error e => { t with errno := e }
      | .ok _ => t)
  else
    let s := runNodeLoop k r.2 (g.maxconfigurednode + 1) t
    (s.bmp, s.task)

/-! ### CPU masks -/

namespace Cpumask

variable {n : Nat}

/-- The CPUs of a mask, as far as its storage goes. -/
def cpus (mask : Cpumask n) : Finset Nat := Words.bitsBelow mask.maskp (mask.maskp.length * 64)

theorem mem_cpus {mask : Cpumask n} {c : Nat} : c ∈ mask.cpus ↔ Words.bit mask.maskp c = true := by
  rw [cpus, Words.mem_bitsBelow]
  refine ⟨fun h => h.2, fun h => ⟨?_, h⟩⟩
  by_contra hle
  rw [Words.bit_eq_false_of_length_le (Nat.le_of_not_lt hle)] at h
  cases h

def clearall (mask : Cpumask n) : Cpumask n where
  toBitmask := numaBitmaskClearall mask.toBitmask
  size_eq := (size_clearall _).trans mask.size_eq
  length_eq := (length_foldl_setbit _ _ _).trans mask.length_eq

theorem copy_eq (mask buffer : Cpumask n) :
    copyBitmaskToBitmask mask.toBitmask buffer.toBitmask = mask.toBitmask :=
  congrArg toBitmask (mask.copyTo_eq buffer)

theorem getD_addWords (mask other : Cpumask n) (j : Nat) :
    (addWords mask.toBitmask other.toBitmask).maskp.getD j 0 = mask.maskp.getD j 0 ||| other.maskp.getD j 0 := by
  have hlongs : cpuLongs mask.size = mask.maskp.length := by rw [cpuLongs_eq, mask.size_eq, mask.length_eq]
  refine (Words.getD_foldl_set (fun j x => x ||| other.maskp.getD j 0) mask.maskp hlongs.le j).trans ?_
  split
  · rfl
  · next hj =>
    have hmask : mask.maskp.getD j 0#64 = 0 := List.getD_eq_default _ _ (by omega)
    have hother : other.maskp.getD j 0#64 = 0 :=
      List.getD_eq_default _ _ (by rw [other.length_eq, ← mask.length_eq]; omega)
    exact hmask.trans ((congrArg₂ (· ||| ·) hmask hother).trans BitVec.zero_or).symm

theorem length_addWords (mask other : Bitmask) : (addWords mask other).maskp.length = mask.maskp.length := by
  have hlength : ∀ (js : List Nat) (ws : List Word), (js.foldl
      (fun ws j => ws.set j (ws.getD j 0 ||| other.maskp.getD j 0)) ws).length = ws.length := by
    intro js
    induction js with
    | nil => exact fun ws => rfl
    | cons j js ih => exact fun ws => (ih _).trans List.length_set
  exact hlength _ _

theorem size_addWords (mask other : Bitmask) : (addWords mask other).size = mask.size := rfl

def add (mask other : Cpumask n) : Cpumask n where
  toBitmask := addWords mask.toBitmask other.toBitmask
  size_eq := (size_addWords _ _).trans mask.size_eq
  length_eq := (length_addWords _ _).trans mask.length_eq

theorem cpus_add (mask other : Cpumask n) : (mask.add other).cpus = mask.cpus ∪ other.cpus := by
  apply Finset.ext
  intro c
  rw [Finset.mem_union, mem_cpus, mem_cpus, mem_cpus]
  change (((addWords mask.toBitmask other.toBitmask).maskp.getD (c / 64) 0).getLsbD (c % 64) = true) ↔ _
  rw [getD_addWords, BitVec.getLsbD_or, Bool.or_eq_true]
  rfl

theorem length_fill (mask : Bitmask) (cpus : Finset Nat) :
    (Kernel.fill mask cpus).maskp.length = mask.maskp.length :=
  Words.length_ofBits (w := 64) mask.maskp.length fun i => decide (i ∈ cpus)

/-- What the kernel writes into such a mask. -/
def fill (mask : Cpumask n) (cpus : Finset Nat) : Cpumask n where
  toBitmask := Kernel.fill mask.toBitmask cpus
  size_eq := mask.size_eq
  length_eq := (length_fill _ _).trans mask.length_eq

theorem cpus_fill (mask : Cpumask n) (cpus : Finset Nat) :
    (mask.fill cpus).cpus = cpus.filter (· < longsperbits n * 64) := by
  apply Finset.ext
  intro c
  have hbit := Words.bit_ofBits (Nat.succ_pos 63) mask.maskp.length (fun i => decide (i ∈ cpus)) c
  rw [mask.length_eq] at hbit
  rw [mem_cpus, Finset.mem_filter]
  change Words.bit (Words.ofBits 64 mask.maskp.length fun i => decide (i ∈ cpus)) c = true ↔ _
  rw [mask.length_eq, hbit, Bool.and_eq_true, decide_eq_true_eq, decide_eq_true_eq]
  exact and_comm

theorem lt_of_mem_cpus {mask : Cpumask n} {c : Nat} (h : c ∈ mask.cpus) : c < longsperbits n * 64 := by
  rw [← mask.length_eq]
  exact (Words.mem_bitsBelow.mp h).1

@[simp] theorem cpus_allocate (cfg : CpuConfig) : (numaAllocateCpumask cfg).cpus = ∅ := by
  apply Finset.ext
  intro c
  simp [mem_cpus, numaAllocateCpumask, zeroBitmask]

end Cpumask

/-! ### Readable cpumaps -/

/-- The nodes of `numa_all_nodes_ptr` have readable cpumaps, there are no nodes past the highest, and no two
nodes have a CPU in common. -/
structure ReadableNodes (g : Globals) (cpumap : Nat → CpumapFile) (cpus : Nat → Finset Nat) : Prop where
  readable : ∀ n ∈ g.numaAllNodesPtr.bits, n ≤ g.maxconfigurednode →
    ∃ mask, NodeCpus.CpumapV2 g.cpuConfig (cpumap n) mask ∧ mask.cpus = cpus n
  highest : ∀ n, g.maxconfigurednode < n → cpus n = ∅
  disjoint : ∀ m n, m ≠ n → Disjoint (cpus m) (cpus n)

/-- What is kept of a node whose cpumap is readable is its cpumap. -/
def KeepsCpumaps (cfg : CpuConfig) (cpumap : Nat → CpumapFile) (st : NodeCpuMask (Cpumask cfg.cpumaskSz)) : Prop :=
  ∀ n mask old, NodeCpus.CpumapV2 cfg (cpumap n) mask → st.slot n = some old → old = mask

variable {cfg : CpuConfig} {cpumap : Nat → CpumapFile} {st : NodeCpuMask (Cpumask cfg.cpumaskSz)}

theorem keepsCpumaps_update (h : KeepsCpumaps cfg cpumap st) (n : Nat) (stale : Bool)
    {kept : Option (Cpumask cfg.cpumaskSz)}
    (hkept : ∀ mask old, NodeCpus.CpumapV2 cfg (cpumap n) mask → kept = some old → old = mask) :
    KeepsCpumaps cfg cpumap { slot := Function.update st.slot n kept, stale := stale } := by
  intro m mask old hmask hold
  dsimp only at hold
  by_cases hm : m = n
  · subst hm
    rw [Function.update_self] at hold
    exact hkept mask old hmask hold
  · rw [Function.update_of_ne hm] at hold
    exact h m mask old hmask hold

theorem keepsCpumaps_query (h : KeepsCpumaps cfg cpumap st) (node : Int) (buffer : Bitmask) :
    KeepsCpumaps cfg cpumap (numaNodeToCpusV2 cfg cpumap st node buffer).2 := by
  have hread : ∀ n mask, NodeCpus.CpumapV2 cfg (cpumap n) mask → readCpumapV2 cfg (cpumap n) = (0, mask) :=
    fun n mask hmask => (readCpumap_eq_zero_iff _ _ _ _ _).mpr hmask
  unfold numaNodeToCpusV2
  split
  · exact h
  · dsimp only
    split
    · split
      · exact h
      · exact h
    · refine keepsCpumaps_update h _ _ fun mask old hmask hold => ?_
      rw [← Option.some.inj hold, Cpumask.copyTo_eq, hread _ _ hmask]
    · refine keepsCpumaps_update h _ _ fun mask old hmask hold => ?_
      rw [hread _ _ hmask, if_pos rfl] at hold
      exact (Option.some.inj hold).symm

/-- No history of queries and update calls keeps anything else, as long as the files stay as they are. -/
theorem keepsCpumaps_after (cfg : CpuConfig) (cpumap : Nat → CpumapFile) {ops : List CpuEvent}
    (hops : ∀ files, .sysfs files ∉ ops) :
    KeepsCpumaps cfg cpumap (Runs.after NodeCpus.step (NodeCpus.initial cfg cpumap) ops).v2 := by
  have hfixed : Runs.Along NodeCpus.step (NodeCpus.initial cfg cpumap) ops fun _ e => ∀ files, e ≠ .sysfs files := by
    rintro pre e post rfl files rfl
    exact hops files (List.mem_append_right _ List.mem_cons_self)
  refine (Runs.guarded_rule (I := fun s => s.cpumap = cpumap ∧ KeepsCpumaps cfg cpumap s.v2) ⟨rfl, ?_⟩ ?_ hfixed).2
  · intro n mask old _ hold
    cases hold
  · intro s e hs he
    obtain ⟨hfiles, hkept⟩ := hs
    cases e with
    | queryV1 node buffer => exact ⟨hfiles, hkept⟩
    | queryV2 node buffer =>
        refine ⟨hfiles, ?_⟩
        subst hfiles
        exact keepsCpumaps_query hkept node buffer
    | update => exact ⟨hfiles, hkept⟩
    | sysfs files => exact absurd rfl (he files)

/-- A query of an existing node with a readable cpumap answers with it. -/
theorem numaNodeToCpusV2_of_keeps (h : KeepsCpumaps cfg cpumap st) {n : Nat} (hn : n ≤ cfg.maxconfigurednode)
    {mask : Cpumask cfg.cpumaskSz} (hmask : NodeCpus.CpumapV2 cfg (cpumap n) mask)
    (buffer : Cpumask cfg.cpumaskSz) :
    ∃ errno, (numaNodeToCpusV2 cfg cpumap st n buffer.toBitmask).1 =
      { ret := 0, errno := errno, buffer := mask.toBitmask } := by
  have hread : readCpumapV2 cfg (cpumap n) = (0, mask) := (readCpumap_eq_zero_iff _ _ _ _ _).mpr hmask
  have hrange : ¬((n : Int) < 0 ∨ (cfg.maxconfigurednode : Int) < n) := by omega
  have hclear : numaBitmaskClearall buffer.toBitmask = buffer.clearall.toBitmask := rfl
  rw [numaNodeToCpusV2, if_neg hrange, hclear]
  dsimp only
  rw [Int.toNat_natCast, hread]
  split
  · next old hold hstale =>
    rw [if_neg (by rw [buffer.clearall.size_eq, old.size_eq]; exact lt_irrefl _), h n mask old hmask hold,
      Cpumask.copy_eq]
    exact ⟨_, rfl⟩
  · rw [Cpumask.copy_eq]
    exact ⟨_, rfl⟩
  · rw [Cpumask.copy_eq]
    exact ⟨_, rfl⟩

/-! ### The loops -/

variable {k : Kernel} {cpus : Nat → Finset Nat}

/-- The setter's loop after the nodes `ns`. -/
def Gathers (k : Kernel) (cpus : Nat → Finset Nat) (ns : List Nat) (s : NodeCpusLoop g) : Prop :=
  ∃ gathered nodecpus : Cpumask g.cpuConfig.cpumaskSz,
    s.cpus = gathered.toBitmask ∧ s.nodecpus = nodecpus.toBitmask ∧
      KeepsCpumaps g.cpuConfig k.cpumap s.task.nodeCpus ∧
      gathered.cpus = (ns.toFinset.filter (· ∈ g.numaAllNodesPtr.bits)).biUnion cpus

theorem gathers_addNodeCpus (h : ReadableNodes g k.cpumap cpus) {ns : List Nat} {s : NodeCpusLoop g}
    (hs : Gathers k cpus ns s) (n : Nat) :
    Gathers k cpus (ns ++ [n]) (addNodeCpus k g.numaAllNodesPtr s n) := by
  obtain ⟨gathered, nodecpus, hcpus, hnodecpus, hkept, hgathered⟩ := hs
  have hnodes : (ns ++ [n]).toFinset = insert n ns.toFinset := by
    rw [List.toFinset_append, Finset.union_comm]
    rfl
  rw [Gathers, hnodes, Finset.filter_insert]
  unfold addNodeCpus
  by_cases hall : n ∈ g.numaAllNodesPtr.bits
  · rw [if_pos ((numaBitmaskIsbitset_eq_true _ _).mpr hall), if_pos hall, Finset.biUnion_insert, ← hgathered]
    have hkept' := keepsCpumaps_query hkept n s.nodecpus
    rw [hnodecpus] at hkept' ⊢
    by_cases hn : n ≤ g.maxconfigurednode
    · obtain ⟨mask, hmask, hmaskcpus⟩ := h.readable n hall hn
      obtain ⟨errno, hquery⟩ := numaNodeToCpusV2_of_keeps hkept hn hmask nodecpus
      dsimp only
      rw [if_neg (by rw [hquery]; exact lt_irrefl _), hquery, hcpus, ← hmaskcpus, Finset.union_comm]
      exact ⟨gathered.add mask, mask, rfl, rfl, hkept', gathered.cpus_add mask⟩
    · have hquery : numaNodeToCpusV2 g.cpuConfig k.cpumap s.task.nodeCpus n nodecpus.toBitmask =
          ({ ret := -1, errno := some ERANGE, buffer := nodecpus.toBitmask }, s.task.nodeCpus) :=
        if_pos (Or.inr (Int.ofNat_lt.mpr (Nat.lt_of_not_le hn)))
      rw [h.highest n (Nat.lt_of_not_le hn), Finset.empty_union, hquery]
      exact ⟨gathered, nodecpus, hcpus, rfl, hkept, rfl⟩
  · rw [if_neg (mt (numaBitmaskIsbitset_eq_true _ _).mp hall), if_neg hall]
    exact ⟨gathered, nodecpus, hcpus, hnodecpus, hkept, hgathered⟩

theorem gathers_foldl (h : ReadableNodes g k.cpumap cpus) (ns : List Nat) {t : Task g}
    (hkept : KeepsCpumaps g.cpuConfig k.cpumap t.nodeCpus) :
    Gathers k cpus ns (ns.foldl (addNodeCpus k g.numaAllNodesPtr)
      { cpus := g.numaAllocateCpumask, nodecpus := g.numaAllocateCpumask, task := t }) := by
  induction ns using List.reverseRecOn with
  | nil =>
      refine ⟨numaAllocateCpumask g.cpuConfig, numaAllocateCpumask g.cpuConfig, rfl, rfl, hkept, ?_⟩
      rw [Cpumask.cpus_allocate]
      rfl
  | append_singleton ns n ih =>
      rw [List.foldl_append, List.foldl_cons, List.foldl_nil]
      exact gathers_addNodeCpus h ih n

theorem refusal_of_runOnNodeMask {allowed bmp : Bitmask} {t : Task g} (h : (runOnNodeMask k allowed bmp t).1 = 0) :
    k.refusal (t.requests ++ [.schedSetaffinity 0 (numaBitmaskNbytes (nodeCpusLoop k allowed bmp t).cpus)
      (nodeCpusLoop k allowed bmp t).cpus.maskp]) = none := by
  have hrequests : (nodeCpusLoop k allowed bmp t).task.requests = t.requests := by
    rw [nodeCpusLoop_frame]
  unfold runOnNodeMask Kernel.schedSetaffinity at h
  dsimp only at h
  rcases k.ask_cases (.schedSetaffinity 0 (numaBitmaskNbytes (nodeCpusLoop k allowed bmp t).cpus)
    (nodeCpusLoop k allowed bmp t).cpus.maskp) id (nodeCpusLoop k allowed bmp t).task with
    ⟨e, -, hask⟩ | ⟨hgrant, -⟩
  · rw [hask] at h
    exact absurd h (by simp)
  · rw [← hrequests]
    exact hgrant

/-- The CPUs of the nodes of `bmp` that are allowed. -/
def cpusOf (g : Globals) (cpus : Nat → Finset Nat) (bmp : Bitmask) : Finset Nat :=
  (bmp.bits ∩ g.numaAllNodesPtr.bits).biUnion cpus

/-- A successful setter hands the CPUs of the allowed nodes of the mask to the kernel. -/
theorem lastAffinity_numaRunOnNodeMaskV2 (h : ReadableNodes g k.cpumap cpus) (bmp : Bitmask) {t : Task g}
    (hkept : KeepsCpumaps g.cpuConfig k.cpumap t.nodeCpus) (hret : (numaRunOnNodeMaskV2 k bmp t).1 = 0) :
    lastAffinity k (numaRunOnNodeMaskV2 k bmp t).2.requests = some (cpusOf g cpus bmp) := by
  have hloop := gathers_foldl h ((List.range bmp.size).filter fun i => numaBitmaskIsbitset bmp i) hkept
  rw [← nodeCpusLoop_eq] at hloop
  obtain ⟨gathered, -, hcpus, -, -, hgathered⟩ := hloop
  have hgranted := refusal_of_runOnNodeMask hret
  rw [hcpus] at hgranted
  rw [numaRunOnNodeMaskV2, requests_runOnNodeMask, hcpus, lastAffinity_concat k _ _ _ _ hgranted]
  have hbytes : numaBitmaskNbytes gathered.toBitmask * 8 = gathered.maskp.length * 64 := by
    rw [numaBitmaskNbytes, gathered.size_eq, gathered.length_eq]
    omega
  have hnodes : ((List.range bmp.size).filter fun i => numaBitmaskIsbitset bmp i).toFinset = bmp.bits := by
    ext i
    rw [List.mem_toFinset, List.mem_filter, List.mem_range, numaBitmaskIsbitset_eq_true]
    exact ⟨fun hi => hi.2, fun hi => ⟨(Bitmask.mem_bits.mp hi).1, hi⟩⟩
  rw [hnodes, Finset.filter_mem_eq_inter] at hgathered
  rw [hbytes]
  exact congrArg some hgathered

theorem keepsCpumaps_numaRunOnNodeMaskV2 (h : ReadableNodes g k.cpumap cpus) (bmp : Bitmask) {t : Task g}
    (hkept : KeepsCpumaps g.cpuConfig k.cpumap t.nodeCpus) :
    KeepsCpumaps g.cpuConfig k.cpumap (numaRunOnNodeMaskV2 k bmp t).2.nodeCpus := by
  have hloop := gathers_foldl h ((List.range bmp.size).filter fun i => numaBitmaskIsbitset bmp i) hkept
  rw [← nodeCpusLoop_eq] at hloop
  obtain ⟨-, -, -, -, hkept', -⟩ := hloop
  have hframe : (numaRunOnNodeMaskV2 k bmp t).2.nodeCpus =
      (nodeCpusLoop k g.numaAllNodesPtr bmp t).task.nodeCpus := by
    unfold numaRunOnNodeMaskV2 runOnNodeMask
    dsimp only
    split
    · rw [k.schedSetaffinity_frame]
    · rw [k.schedSetaffinity_frame]
      rfl
  rw [hframe]
  exact hkept'

theorem size_foldl_addNode (ws vs : List Word) (longs i : Nat) (bmp : Bitmask) :
    ((List.range longs).foldl (fun b j =>
      if ws.getD j 0 &&& vs.getD j 0 ≠ 0 then numaBitmaskSetbit b i else b) bmp).size = bmp.size := by
  induction longs with
  | zero => rfl
  | succ longs ih =>
      rw [List.range_succ, List.foldl_append, List.foldl_cons, List.foldl_nil]
      split
      · rw [size_numaBitmaskSetbit, ih]
      · exact ih

/-- The loop over the words adds the node if one of the words has a common CPU, and its number fits. -/
theorem mem_bits_foldl_addNode (ws vs : List Word) (longs i : Nat) (bmp : Bitmask) (n : Nat) :
    n ∈ ((List.range longs).foldl (fun b j =>
        if ws.getD j 0 &&& vs.getD j 0 ≠ 0 then numaBitmaskSetbit b i else b) bmp).bits ↔
      n ∈ bmp.bits ∨ n = i ∧ i < bmp.size ∧ ∃ j < longs, ws.getD j 0 &&& vs.getD j 0 ≠ 0 := by
  induction longs with
  | zero => simp
  | succ longs ih =>
      rw [List.range_succ, List.foldl_append, List.foldl_cons, List.foldl_nil, Nat.exists_lt_succ_right]
      by_cases hword : ws.getD longs 0 &&& vs.getD longs 0 ≠ 0
      · rw [if_pos hword, bits_numaBitmaskSetbit, size_foldl_addNode, Finset.mem_union, ih, Finset.mem_filter,
          Finset.mem_singleton]
        refine ⟨fun h => ?_, fun h => ?_⟩
        · rcases h with (h | ⟨hn, hi, hex⟩) | ⟨rfl, hi⟩
          · exact Or.inl h
          · exact Or.inr ⟨hn, hi, Or.inl hex⟩
          · exact Or.inr ⟨rfl, hi, Or.inr hword⟩
        · rcases h with h | ⟨rfl, hi, -⟩
          · exact Or.inl (Or.inl h)
          · exact Or.inr ⟨rfl, hi⟩
      · rw [if_neg hword, ih, or_iff_left hword]

theorem exists_common_cpu {n : Nat} (mask cpus : Cpumask n) (longs : Nat) :
    (∃ j < longs, mask.maskp.getD j 0 &&& cpus.maskp.getD j 0 ≠ 0) ↔
      ∃ c ∈ mask.cpus, c < longs * 64 ∧ c ∈ cpus.cpus := by
  refine (Words.exists_and_ne_zero_iff (Nat.succ_pos 63)).trans ?_
  simp only [Cpumask.mem_cpus]
  exact ⟨fun ⟨c, h1, h2, h3⟩ => ⟨c, h2, h1, h3⟩, fun ⟨c, h1, h2, h3⟩ => ⟨c, h2, h1, h3⟩⟩

/-- Node `n` is found among the nodes whose CPUs are `reported`. -/
def Found (g : Globals) (cpus : Nat → Finset Nat) (reported : Finset Nat) (n : Nat) : Prop :=
  n ∈ g.numaAllNodesPtr.bits ∧ n < g.cpumaskSz ∧
    ∃ c ∈ cpus n, c < cpuLongs g.numConfiguredCpus * 64 ∧ c ∈ reported

/-- The getter's loop after the nodes below `n`. -/
def Finds (k : Kernel) (cpus : Nat → Finset Nat) (reported : Finset Nat) (n : Nat) (s : RunNodeLoop g) : Prop :=
  ∃ nodecpus : Cpumask g.cpuConfig.cpumaskSz, s.nodecpus = nodecpus.toBitmask ∧
    KeepsCpumaps g.cpuConfig k.cpumap s.task.nodeCpus ∧ s.bmp.size = g.cpumaskSz ∧
    ∀ i, i ∈ s.bmp.bits ↔ i < n ∧ Found g cpus reported i

theorem finds_addRunNode (h : ReadableNodes g k.cpumap cpus) (mask : Cpumask g.cpuConfig.cpumaskSz) {n : Nat}
    (hn : n ≤ g.maxconfigurednode) {s : RunNodeLoop g} (hs : Finds k cpus mask.cpus n s) :
    Finds k cpus mask.cpus (n + 1) (addRunNode k mask.toBitmask s n) := by
  obtain ⟨nodecpus, hnodecpus, hkept, hsize, hbits⟩ := hs
  unfold addRunNode
  by_cases hall : n ∈ g.numaAllNodesPtr.bits
  · obtain ⟨node, hnode, hnodecpus'⟩ := h.readable n hall hn
    have hkept' := keepsCpumaps_query hkept n s.nodecpus
    obtain ⟨errno, hquery⟩ := numaNodeToCpusV2_of_keeps hkept hn hnode nodecpus
    rw [if_pos ((numaBitmaskIsbitset_eq_true _ _).mpr hall)]
    rw [hnodecpus] at hkept' ⊢
    dsimp only
    rw [if_neg (by rw [hquery]; exact lt_irrefl _), hquery]
    refine ⟨node, rfl, hkept', (size_foldl_addNode _ _ _ _ _).trans hsize, fun i => ?_⟩
    dsimp only
    rw [mem_bits_foldl_addNode, exists_common_cpu, hsize, hnodecpus', hbits, Nat.lt_succ_iff_lt_or_eq]
    refine ⟨fun hi => ?_, fun hi => ?_⟩
    · rcases hi with ⟨hi, hfound⟩ | ⟨rfl, hfound⟩
      · exact ⟨Or.inl hi, hfound⟩
      · exact ⟨Or.inr rfl, hall, hfound⟩
    · rcases hi with ⟨hi | rfl, hfound⟩
      · exact Or.inl ⟨hi, hfound⟩
      · exact Or.inr ⟨rfl, hfound.2⟩
  · rw [if_neg (mt (numaBitmaskIsbitset_eq_true _ _).mp hall)]
    refine ⟨nodecpus, hnodecpus, hkept, hsize, fun i => (hbits i).trans ⟨fun hi => ?_, fun hi => ?_⟩⟩
    · exact ⟨Nat.lt_succ_of_lt hi.1, hi.2⟩
    · obtain hlt | rfl := Nat.lt_succ_iff_lt_or_eq.mp hi.1
      · exact ⟨hlt, hi.2⟩
      · exact absurd hi.2.1 hall

theorem finds_runNodeLoop (h : ReadableNodes g k.cpumap cpus) (mask : Cpumask g.cpuConfig.cpumaskSz) {t : Task g}
    (hkept : KeepsCpumaps g.cpuConfig k.cpumap t.nodeCpus) {n : Nat} (hn : n ≤ g.maxconfigurednode + 1) :
    Finds k cpus mask.cpus n (runNodeLoop k mask.toBitmask n t) := by
  induction n with
  | zero =>
      refine ⟨numaAllocateCpumask g.cpuConfig, rfl, hkept, rfl, fun i => ?_⟩
      change i ∈ (zeroBitmask g.cpumaskSz).bits ↔ _
      simp
  | succ n ih =>
      rw [runNodeLoop, List.range_succ, List.foldl_append, List.foldl_cons, List.foldl_nil]
      exact finds_addRunNode h mask (Nat.le_of_succ_le_succ hn) (ih (Nat.le_of_succ_le hn))

/-- The getter finds the allowed nodes that have a reported CPU in the words it looks at, as far as their
numbers fit a CPU mask. -/
theorem mem_numaGetRunNodeMaskV2 (h : ReadableNodes g k.cpumap cpus) (reported : Finset Nat) {t : Task g}
    (hkept : KeepsCpumaps g.cpuConfig k.cpumap t.nodeCpus) (i : Nat) :
    i ∈ (numaGetRunNodeMaskV2 k (.ok reported) t).1.bits ↔
      i ≤ g.maxconfigurednode ∧
        Found g cpus (reported.filter (· < longsperbits g.cpumaskSz * 64)) i := by
  obtain ⟨-, -, -, -, hbits⟩ := finds_runNodeLoop h ((numaAllocateCpumask g.cpuConfig).fill reported) hkept
    (Nat.le_refl (g.maxconfigurednode + 1))
  rw [Cpumask.cpus_fill] at hbits
  have hpos : ¬(schedGetaffinity (.ok reported) g.numaAllocateCpumask).1 < 0 := by
    rw [schedGetaffinity]
    exact Int.not_lt.mpr (Int.natCast_nonneg _)
  rw [numaGetRunNodeMaskV2]
  dsimp only
  rw [if_neg hpos]
  exact (hbits i).trans (and_congr_left' Nat.lt_succ_iff)

/-! ### What is got is what was set -/

/-- The nodes of `bmp` that are allowed and have CPUs. -/
def nodesWithCpus (g : Globals) (cpus : Nat → Finset Nat) (bmp : Bitmask) : Finset Nat :=
  (bmp.bits ∩ g.numaAllNodesPtr.bits).filter fun n => (cpus n).Nonempty

theorem mem_nodesWithCpus {bmp : Bitmask} {n : Nat} :
    n ∈ nodesWithCpus g cpus bmp ↔ (n ∈ bmp.bits ∧ n ∈ g.numaAllNodesPtr.bits) ∧ (cpus n).Nonempty := by
  rw [nodesWithCpus, Finset.mem_filter, Finset.mem_inter]

/-- After any calls about the CPUs of nodes and a successful `numa_run_on_node_mask`, while the kernel
reports the CPUs last given to it, `numa_get_run_node_mask` returns the allowed nodes of the mask that have
CPUs exactly if their numbers fit a CPU mask and each has a CPU in the words that the number of configured
CPUs takes. -/
theorem runNodeMask_got_back_iff (h : ReadableNodes g k.cpumap cpus) {ops : List CpuEvent}
    (hops : ∀ files, .sysfs files ∉ ops) {t : Task g}
    (ht : t.nodeCpus = (Runs.after NodeCpus.step (NodeCpus.initial g.cpuConfig k.cpumap) ops).v2)
    {bmp : Bitmask} (hret : (numaRunOnNodeMaskV2 k bmp t).1 = 0) {reported : Finset Nat}
    (hreported : lastAffinity k (numaRunOnNodeMaskV2 k bmp t).2.requests = some reported) :
    (numaGetRunNodeMaskV2 k (.ok reported) (numaRunOnNodeMaskV2 k bmp t).2).1.bits = nodesWithCpus g cpus bmp ↔
      ∀ n ∈ nodesWithCpus g cpus bmp,
        n < g.cpumaskSz ∧ ∃ c ∈ cpus n, c < cpuLongs g.numConfiguredCpus * 64 := by
  have hkept : KeepsCpumaps g.cpuConfig k.cpumap t.nodeCpus := ht ▸ keepsCpumaps_after _ _ hops
  rw [lastAffinity_numaRunOnNodeMaskV2 h bmp hkept hret] at hreported
  obtain rfl := Option.some.inj hreported
  have hgot : ∀ n, n ∈ (numaGetRunNodeMaskV2 k (.ok (cpusOf g cpus bmp)) (numaRunOnNodeMaskV2 k bmp t).2).1.bits ↔
      n ∈ nodesWithCpus g cpus bmp ∧ n < g.cpumaskSz ∧ ∃ c ∈ cpus n, c < cpuLongs g.numConfiguredCpus * 64 := by
    intro n
    rw [mem_numaGetRunNodeMaskV2 h _ (keepsCpumaps_numaRunOnNodeMaskV2 h bmp hkept), mem_nodesWithCpus, Found]
    refine ⟨fun hn => ?_, fun hn => ?_⟩
    · obtain ⟨-, hall, hsize, c, hc, hlongs, hgiven⟩ := hn
      obtain ⟨m, hm, hcm⟩ := Finset.mem_biUnion.mp (Finset.mem_filter.mp hgiven).1
      -- the CPU belongs to one node only, so the node it was given for is this one
      obtain rfl : m = n := by
        by_contra hne
        exact Finset.disjoint_left.mp (h.disjoint m n hne) hcm hc
      exact ⟨⟨⟨(Finset.mem_inter.mp hm).1, hall⟩, c, hc⟩, hsize, c, hc, hlongs⟩
    · obtain ⟨⟨⟨hmem, hall⟩, c', hc'⟩, hsize, c, hc, hlongs⟩ := hn
      have hhighest : n ≤ g.maxconfigurednode := by
        by_contra hlt
        rw [h.highest n (Nat.lt_of_not_le hlt)] at hc
        exact absurd hc (Finset.notMem_empty c)
      obtain ⟨mask, -, hmask⟩ := h.readable n hall hhighest
      have hstored : c < longsperbits g.cpumaskSz * 64 := Cpumask.lt_of_mem_cpus (hmask ▸ hc)
      have hgiven : c ∈ cpusOf g cpus bmp :=
        Finset.mem_biUnion.mpr ⟨n, Finset.mem_inter.mpr ⟨hmem, hall⟩, hc⟩
      exact ⟨hhighest, hall, hsize, c, hc, hlongs, Finset.mem_filter.mpr ⟨hgiven, hstored⟩⟩
  refine ⟨fun heq n hn => ((hgot n).mp (heq ▸ hn)).2, fun hall => ?_⟩
  apply Finset.ext
  intro n
  exact (hgot n).trans ⟨fun hn => hn.1, fun hn => ⟨hn, hall n hn⟩⟩

theorem cpumask_lt_128 : 128 < 2 ^ 31 := by decide

/-- The machine with the nodes 0 and 2, of two CPUs: CPU 0 on node 0 and CPU 64 on node 2. -/
def farCpuGlobals : Globals :=
  { gapGlobals with
    cpumaskSz := 128
    numConfiguredCpus := 2
    numaAllCpusPtr := [0, 64].foldl numaBitmaskSetbit (zeroBitmask 128)
    cpumask_lt := cpumask_lt_128
    cpumask_pos := Nat.succ_pos 127
    all_cpus_size := rfl }

def farCpumap : Nat → CpumapFile
  | 0 => .text '1' ['\n']
  | 2 => .text '1' ",00000000,00000000\n".toList
  | _ => .absent

def farCpuKernel : Kernel := { plainKernel with cpumap := farCpumap }

def farCpus : Nat → Finset Nat
  | 0 => {0}
  | 2 => {64}
  | _ => ∅

theorem readableNodes_farCpus : ReadableNodes farCpuGlobals farCpuKernel.cpumap farCpus where
  readable n hn _ := by
    have hbits : farCpuGlobals.numaAllNodesPtr.bits = {0, 2} := by decide +kernel
    rw [hbits, Finset.mem_insert, Finset.mem_singleton] at hn
    rcases hn with rfl | rfl
    · exact ⟨_, ⟨_, rfl, by decide +kernel, rfl⟩, by decide +kernel⟩
    · exact ⟨_, ⟨_, rfl, by decide +kernel, rfl⟩, by decide +kernel⟩
  highest n hn := by
    have hlt : 2 < n := hn
    obtain ⟨m, rfl⟩ : ∃ m, n = m + 3 := ⟨n - 3, by omega⟩
    rfl
  disjoint m n hne := by
    unfold farCpus
    split <;> split <;> simp_all

/-- Running on node 0 is got back. -/
theorem farCpu_node0_got_back :
    (numaRunOnNodeMaskV2 farCpuKernel (numaBitmaskSetbit (zeroBitmask 64) 0) (Task.initial farCpuGlobals)).1 = 0 ∧
      (numaGetRunNodeMaskV2 farCpuKernel (.ok {0})
        (numaRunOnNodeMaskV2 farCpuKernel (numaBitmaskSetbit (zeroBitmask 64) 0)
          (Task.initial farCpuGlobals)).2).1.bits =
        nodesWithCpus farCpuGlobals farCpus (numaBitmaskSetbit (zeroBitmask 64) 0) :=
  ⟨by decide +kernel,
    (runNodeMask_got_back_iff readableNodes_farCpus (fun _ => List.not_mem_nil) rfl (by decide +kernel)
      (by decide +kernel)).mpr (by decide +kernel)⟩

/-- CPU 64 is not in the one word looked at for two configured CPUs, so node 2 is not got back. -/
theorem farCpu_node2_lost :
    ReadableNodes farCpuGlobals farCpuKernel.cpumap farCpus ∧
      (numaRunOnNodeMaskV2 farCpuKernel (numaBitmaskSetbit (zeroBitmask 64) 2) (Task.initial farCpuGlobals)).1 = 0 ∧
      lastAffinity farCpuKernel (numaRunOnNodeMaskV2 farCpuKernel (numaBitmaskSetbit (zeroBitmask 64) 2)
        (Task.initial farCpuGlobals)).2.requests = some {64} ∧
      (numaGetRunNodeMaskV2 farCpuKernel (.ok {64})
        (numaRunOnNodeMaskV2 farCpuKernel (numaBitmaskSetbit (zeroBitmask 64) 2)
          (Task.initial farCpuGlobals)).2).1.bits = ∅ ∧
      nodesWithCpus farCpuGlobals farCpus (numaBitmaskSetbit (zeroBitmask 64) 2) = {2} :=
  ⟨readableNodes_farCpus, by decide +kernel, by decide +kernel, by decide +kernel, by decide +kernel⟩

end Numactl
