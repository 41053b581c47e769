import Numactl.Base.RunLength
import Numactl.PolicyHistory
import Numactl.Shm

/-! Dumping a shared memory region (`dumppol`, `dump_shm`, `dumpnode` and `dump_shm_nodes` in `shm.c`): what is
printed about its pages is a run-length encoding of their policies, or of the nodes they are on. The printed
addresses stay below `2 ^ 64`, as attaching the region has made sure. -/

namespace Numactl

open CString (decimal printInt hex16)
open RunLength (Segment Encodes Finished Pending)

/-! ### The dumps -/

def printmask (name : List Char) (mask : Bitmask) : List Char :=
  name ++ ": ".toList ++
    (List.range mask.size).flatMap (fun i => if numaBitmaskIsbitset mask i then decimal i ++ [' '] else []) ++ ['\n']

def policyNames : List String :=
  ["default", "preferred", "bind", "interleave", "local", "preferred-many", "weighted-interleave"]

/-- The comparison is unsigned. -/
def policyName (policy : Int) : List Char :=
  if policy < 0 ∨ policyNames.length ≤ policy then '[' :: printInt policy ++ [']']
  else (policyNames.getD policy.toNat "").toList

def dumppol (shmoffset start stop : Nat) (pol : Int) (mask : Bitmask) : List Char :=
  if pol = mpolDefault then []
  else hex16 (shmoffset + start) ++ '-' :: hex16 (shmoffset + stop) ++ ": ".toList ++ policyName pol ++ [' '] ++
    printmask [] mask

/-- The variables of `dump_shm`, and what it has printed. -/
structure DumpPolState where
  prevpol : Int
  prevnodes : Bitmask
  start : Nat
  out : List Char

/-- The rest of the loop body, for the page at `c`. -/
def dumpPolPage (shmoffset c : Nat) (pol : Int) (nodes : Bitmask) (st : DumpPolState) : DumpPolState :=
  if pol = st.prevpol ∧ numaBitmaskEqual st.prevnodes nodes = true then st
  else
    { out := if st.prevpol ≠ -1 then st.out ++ dumppol shmoffset st.start c st.prevpol st.prevnodes else st.out
      prevnodes := copyBitmaskToBitmask nodes st.prevnodes
      prevpol := pol
      start := c }

def dumpnode (shmoffset start stop : Nat) (node : Int) : List Char :=
  hex16 (shmoffset + start) ++ '-' :: hex16 (shmoffset + stop) ++ ": ".toList ++ printInt node ++ ['\n']

/-- The variables of `dump_shm_nodes`, and what it has printed. -/
structure DumpNodeState where
  prevnode : Int
  start : Nat
  out : List Char

def dumpNodePage (shmoffset c : Nat) (node : Int) (st : DumpNodeState) : DumpNodeState :=
  if node = st.prevnode then st
  else
    { out := if st.prevnode ≠ -1 then st.out ++ dumpnode shmoffset st.start c st.prevnode else st.out
      prevnode := node
      start := c }

variable {g : Globals}

section

variable (k : Kernel) (region : Region) (shmoffset : Nat) (t : Task g)

/-- The loop of `dump_shm`. `none` where `get_mempolicy` fails and the program exits. -/
def dumpPolPages : Nat → Nat → DumpPolState → Option (Nat × DumpPolState)
  | 0, c, st => some (c, st)
  | fuel + 1, c, st =>
      if c < region.shmlen then
        match (k.getMempolicy (t.pages (region.shmptr + c)) g.numaAllocateNodemask t).1 with
        | none => none
        | some (pol, nodes) => dumpPolPages fuel (c + region.pagesize) (dumpPolPage shmoffset c pol nodes st)
      else some (c, st)

def dumpShm : Option (List Char) :=
  if region.shmlen = 0 then some "nothing to dump\n".toList
  else
    (dumpPolPages k region shmoffset t (region.shmlen / region.pagesize) 0
      { prevpol := -1, prevnodes := g.numaAllocateNodemask, start := 0, out := [] }).map fun (c, st) =>
        st.out ++ dumppol shmoffset st.start c st.prevpol st.prevnodes

def dumpNodePages : Nat → Nat → DumpNodeState → Nat × DumpNodeState
  | 0, c, st => (c, st)
  | fuel + 1, c, st =>
      if c < region.shmlen then
        dumpNodePages fuel (c + region.pagesize) (dumpNodePage shmoffset c (k.nodeAt (region.shmptr + c)) st)
      else (c, st)

def dumpShmNodes : List Char :=
  if region.shmlen = 0 then "nothing to dump\n".toList
  else
    let r := dumpNodePages k region shmoffset (region.shmlen / region.pagesize) 0
      { prevnode := -1, start := 0, out := [] }
    r.2.out ++ dumpnode shmoffset r.2.start r.1 r.2.prevnode

end

/-! ### Policies -/

theorem printmask_congr (name : List Char) {m m' : Bitmask} (hsize : m.size = m'.size) (hbits : m.bits = m'.bits) :
    printmask name m = printmask name m' := by
  have hisset : ∀ i, numaBitmaskIsbitset m i = numaBitmaskIsbitset m' i := fun i => by
    rw [Bool.eq_iff_iff, numaBitmaskIsbitset_eq_true, numaBitmaskIsbitset_eq_true, hbits]
  simp only [printmask, hsize, hisset]

/-- The mask with the nodes of a policy, as the task gets it. -/
def policyMask (g : Globals) (q : MemPolicy) : Bitmask := Kernel.fill g.numaAllocateNodemask q.nodes

/-- What `dump_shm` prints about a segment of pages with one policy. -/
def policyLine (g : Globals) (pagesize shmoffset : Nat) (s : Segment MemPolicy) : List Char :=
  dumppol shmoffset (pagesize * s.lo) (pagesize * s.hi) s.label.policy (policyMask g s.label)

/-- What `dump_shm_nodes` prints about a segment of pages on one node. -/
def nodeLine (pagesize shmoffset : Nat) (s : Segment Int) : List Char :=
  dumpnode shmoffset (pagesize * s.lo) (pagesize * s.hi) s.label

/-- The pages below `p` are seen: the variables are those of the pending segment. -/
structure PolsDumped (g : Globals) (pagesize shmoffset : Nat) (f : Nat → MemPolicy) (p : Nat)
    (segs : List (Segment MemPolicy)) (start : Nat) (q : MemPolicy) (st : DumpPolState) : Prop where
  pending : Pending f p segs start q
  nodes_lt : ∀ i ∈ q.nodes, i < g.nodemaskSz
  prevpol : st.prevpol = q.policy
  size : st.prevnodes.size = g.nodemaskSz
  bits : st.prevnodes.bits = q.nodes
  start_eq : st.start = pagesize * start
  out : st.out = segs.flatMap (policyLine g pagesize shmoffset)

section Policies

variable {pagesize shmoffset p start : Nat} {f : Nat → MemPolicy} {segs : List (Segment MemPolicy)} {q : MemPolicy}
  {st : DumpPolState}

theorem size_policyMask (q : MemPolicy) : (policyMask g q).size = g.nodemaskSz := size_zeroBitmask _

theorem bits_policyMask {q : MemPolicy} (hq : ∀ i ∈ q.nodes, i < g.nodemaskSz) : (policyMask g q).bits = q.nodes := by
  rw [policyMask, Kernel.bits_fill]
  exact Finset.filter_true_of_mem hq

/-- The pending segment, printed up to the page. -/
theorem PolsDumped.dumppol_eq (h : PolsDumped g pagesize shmoffset f p segs start q st) :
    st.out ++ dumppol shmoffset st.start (pagesize * p) st.prevpol st.prevnodes =
      (segs ++ [(⟨start, p, q, h.pending.lt⟩ : Segment MemPolicy)]).flatMap (policyLine g pagesize shmoffset) := by
  have hmask : printmask [] st.prevnodes = printmask [] (policyMask g q) :=
    printmask_congr [] (h.size.trans (size_policyMask q).symm) (h.bits.trans (bits_policyMask h.nodes_lt).symm)
  rw [List.flatMap_append, ← h.out, List.flatMap_singleton, policyLine, dumppol, dumppol, h.prevpol, h.start_eq, hmask]

theorem polsDumped_page_zero (hq : ∀ i ∈ (f 0).nodes, i < g.nodemaskSz) :
    PolsDumped g pagesize shmoffset f 1 [] 0 (f 0) (dumpPolPage shmoffset 0 (f 0).policy (policyMask g (f 0))
      { prevpol := -1, prevnodes := g.numaAllocateNodemask, start := 0, out := [] }) := by
  have hsize : (policyMask g (f 0)).size = g.numaAllocateNodemask.size := rfl
  rw [dumpPolPage, if_neg fun h => absurd h.1 (by dsimp only; omega)]
  refine ⟨RunLength.pending_first, hq, rfl, ?_, ?_, (Nat.mul_zero pagesize).symm, rfl⟩
  · exact size_copyBitmaskToBitmask _ _
  · rw [bits_copyBitmaskToBitmask_of_size_eq hsize, bits_policyMask hq]

/-- One page joins the pending segment, or finishes it. -/
theorem polsDumped_page (h : PolsDumped g pagesize shmoffset f p segs start q st)
    (hf : ∀ i ∈ (f p).nodes, i < g.nodemaskSz) :
    ∃ segs start, PolsDumped g pagesize shmoffset f (p + 1) segs start (f p)
      (dumpPolPage shmoffset (pagesize * p) (f p).policy (policyMask g (f p)) st) := by
  have hsame : ((f p).policy : Int) = st.prevpol ∧ numaBitmaskEqual st.prevnodes (policyMask g (f p)) = true ↔
      f p = q := by
    rw [numaBitmaskEqual_iff, h.prevpol, h.bits, bits_policyMask hf, Int.ofNat_inj, MemPolicy.ext_iff]
    exact and_congr_right fun _ => eq_comm
  rw [dumpPolPage]
  by_cases heq : f p = q
  · rw [if_pos (hsame.mpr heq), heq]
    exact ⟨segs, start, h.pending.extend heq, h.nodes_lt, h.prevpol, h.size, h.bits, h.start_eq, h.out⟩
  · have hstarted : st.prevpol ≠ -1 := by
      rw [h.prevpol]
      omega
    have hsize : (policyMask g (f p)).size = st.prevnodes.size := (size_policyMask _).trans h.size.symm
    rw [if_neg (mt hsame.mp heq), if_pos hstarted]
    refine ⟨_, p, h.pending.next heq, hf, rfl, ?_, ?_, rfl, h.dumppol_eq⟩
    · exact (size_copyBitmaskToBitmask _ _).trans h.size
    · rw [bits_copyBitmaskToBitmask_of_size_eq hsize, bits_policyMask hf]

end Policies

section Regions

variable {k : Kernel} {t : Task g} {region : Region} {shmoffset : Nat}

/-- The policy of a page. -/
def pagePolicy (region : Region) (t : Task g) (p : Nat) : MemPolicy := t.pages (region.shmptr + region.pagesize * p)

/-- The node of a page. -/
def pageNode (region : Region) (k : Kernel) (p : Nat) : Int := k.nodeAt (region.shmptr + region.pagesize * p)

/-- The pages of the region. -/
def Region.pageCount (region : Region) : Nat := region.shmlen / region.pagesize

theorem Region.pageCount_mul (region : Region) : region.pagesize * region.pageCount = region.shmlen :=
  Nat.mul_div_cancel' region.pagesize_dvd

theorem Region.pageCount_pos (region : Region) : 0 < region.pageCount :=
  Nat.div_pos (Nat.le_of_dvd region.len_pos region.pagesize_dvd) region.pagesize_pos

theorem Region.lt_shmlen_iff (region : Region) (p : Nat) :
    region.pagesize * p < region.shmlen ↔ p < region.pageCount := by
  rw [← region.pageCount_mul]
  exact Nat.mul_lt_mul_left region.pagesize_pos

/-- The loop takes one page. -/
theorem dumpPolPages_succ (hfits : k.nrNodeIds ≤ g.nodemaskSz) {fuel p : Nat} (hp : p < region.pageCount)
    (st : DumpPolState) :
    dumpPolPages k region shmoffset t (fuel + 1) (region.pagesize * p) st =
      dumpPolPages k region shmoffset t fuel (region.pagesize * (p + 1))
        (dumpPolPage shmoffset (region.pagesize * p) (pagePolicy region t p).policy
          (policyMask g (pagePolicy region t p)) st) := by
  rw [dumpPolPages, if_pos ((region.lt_shmlen_iff p).mpr hp), Kernel.getMempolicy_eq _ _ hfits]
  rfl

theorem polsDumped_pages (hfits : k.nrNodeIds ≤ g.nodemaskSz)
    (hnodes : ∀ p < region.pageCount, ∀ i ∈ (pagePolicy region t p).nodes, i < g.nodemaskSz) {fuel p start : Nat}
    {segs : List (Segment MemPolicy)} {q : MemPolicy} {st : DumpPolState}
    (h : PolsDumped g region.pagesize shmoffset (pagePolicy region t) p segs start q st)
    (hfuel : p + fuel = region.pageCount) :
    ∃ segs start q st', dumpPolPages k region shmoffset t fuel (region.pagesize * p) st =
        some (region.pagesize * region.pageCount, st') ∧
      PolsDumped g region.pagesize shmoffset (pagePolicy region t) region.pageCount segs start q st' := by
  induction fuel generalizing p segs start q st with
  | zero =>
      obtain rfl : p = region.pageCount := hfuel
      exact ⟨segs, start, q, st, rfl, h⟩
  | succ fuel ih =>
      have hp : p < region.pageCount := by omega
      rw [dumpPolPages_succ hfits hp]
      obtain ⟨segs', start', h'⟩ := polsDumped_page h (hnodes p hp)
      exact ih h' (by omega)

/-- What `dump_shm` prints are the segments of pages with one policy, but those with the default policy. -/
theorem dumpShm_eq (hfits : k.nrNodeIds ≤ g.nodemaskSz)
    (hnodes : ∀ p < region.pageCount, ∀ i ∈ (pagePolicy region t p).nodes, i < g.nodemaskSz) (shmoffset : Nat) :
    ∃ segs, Encodes (fun q => q.policy ≠ mpolDefault) (pagePolicy region t) region.pageCount segs ∧
      dumpShm k region shmoffset t = some (segs.flatMap (policyLine g region.pagesize shmoffset)) := by
  have hpos := region.pageCount_pos
  obtain ⟨n, hn⟩ : ∃ n, region.pageCount = n + 1 := ⟨_, (Nat.succ_pred_eq_of_pos hpos).symm⟩
  have hzero : PolsDumped g region.pagesize shmoffset (pagePolicy region t) 1 [] 0 (pagePolicy region t 0) _ :=
    polsDumped_page_zero (hnodes 0 hpos)
  obtain ⟨segs, start, q, st, hloop, h⟩ := polsDumped_pages hfits hnodes hzero ((Nat.add_comm 1 n).trans hn.symm)
  have hall : dumpPolPages k region shmoffset t region.pageCount 0
      { prevpol := -1, prevnodes := g.numaAllocateNodemask, start := 0, out := [] } =
        some (region.pagesize * region.pageCount, st) := by
    rw [hn] at hloop ⊢
    exact (dumpPolPages_succ hfits hpos _).trans hloop
  have hsilent : ∀ s : Segment MemPolicy, ¬s.label.policy ≠ mpolDefault →
      policyLine g region.pagesize shmoffset s = [] := fun s hs => if_pos (congrArg Nat.cast (not_not.mp hs))
  refine ⟨_, h.pending.flush.filter _, ?_⟩
  rw [dumpShm, if_neg region.len_pos.ne', ← Region.pageCount, hall, Option.map_some]
  dsimp only
  rw [h.dumppol_eq]
  exact congrArg some (RunLength.flatMap_filter (fun q : MemPolicy => q.policy ≠ mpolDefault) hsilent _).symm

/-! ### Nodes -/

/-- The pages below `p` are seen: the variables are those of the pending segment. -/
structure NodesDumped (pagesize shmoffset : Nat) (f : Nat → Int) (p : Nat) (segs : List (Segment Int)) (start : Nat)
    (node : Int) (st : DumpNodeState) : Prop where
  pending : Pending f p segs start node
  nonneg : 0 ≤ node
  prevnode : st.prevnode = node
  start_eq : st.start = pagesize * start
  out : st.out = segs.flatMap (nodeLine pagesize shmoffset)

section

variable {pagesize p start : Nat} {f : Nat → Int} {segs : List (Segment Int)} {node : Int} {st : DumpNodeState}

theorem NodesDumped.dumpnode_eq (h : NodesDumped pagesize shmoffset f p segs start node st) :
    st.out ++ dumpnode shmoffset st.start (pagesize * p) st.prevnode =
      (segs ++ [(⟨start, p, node, h.pending.lt⟩ : Segment Int)]).flatMap (nodeLine pagesize shmoffset) := by
  rw [List.flatMap_append, ← h.out, List.flatMap_singleton, nodeLine, h.prevnode, h.start_eq]

theorem nodesDumped_page_zero (hf : 0 ≤ f 0) :
    NodesDumped pagesize shmoffset f 1 [] 0 (f 0)
      (dumpNodePage shmoffset 0 (f 0) { prevnode := -1, start := 0, out := [] }) := by
  rw [dumpNodePage, if_neg (by dsimp only; omega)]
  exact ⟨RunLength.pending_first, hf, rfl, (Nat.mul_zero pagesize).symm, rfl⟩

theorem nodesDumped_page (h : NodesDumped pagesize shmoffset f p segs start node st) (hf : 0 ≤ f p) :
    ∃ segs start, NodesDumped pagesize shmoffset f (p + 1) segs start (f p)
      (dumpNodePage shmoffset (pagesize * p) (f p) st) := by
  rw [dumpNodePage]
  by_cases heq : f p = node
  · rw [if_pos (heq.trans h.prevnode.symm), heq]
    exact ⟨segs, start, h.pending.extend heq, h.nonneg, h.prevnode, h.start_eq, h.out⟩
  · have hstarted : st.prevnode ≠ -1 := by
      have hnonneg := h.nonneg
      rw [h.prevnode]
      omega
    rw [if_neg fun hprev => heq (hprev.trans h.prevnode), if_pos hstarted]
    exact ⟨_, p, h.pending.next heq, hf, rfl, rfl, h.dumpnode_eq⟩

end

theorem dumpNodePages_succ {fuel p : Nat} (hp : p < region.pageCount) (st : DumpNodeState) :
    dumpNodePages k region shmoffset (fuel + 1) (region.pagesize * p) st =
      dumpNodePages k region shmoffset fuel (region.pagesize * (p + 1))
        (dumpNodePage shmoffset (region.pagesize * p) (pageNode region k p) st) := by
  rw [dumpNodePages, if_pos ((region.lt_shmlen_iff p).mpr hp)]
  rfl

theorem nodesDumped_pages (hnode : ∀ p < region.pageCount, 0 ≤ pageNode region k p) {fuel p start : Nat}
    {segs : List (Segment Int)} {node : Int} {st : DumpNodeState}
    (h : NodesDumped region.pagesize shmoffset (pageNode region k) p segs start node st)
    (hfuel : p + fuel = region.pageCount) :
    ∃ segs start node st', dumpNodePages k region shmoffset fuel (region.pagesize * p) st =
        (region.pagesize * region.pageCount, st') ∧
      NodesDumped region.pagesize shmoffset (pageNode region k) region.pageCount segs start node st' := by
  induction fuel generalizing p segs start node st with
  | zero =>
      obtain rfl : p = region.pageCount := hfuel
      exact ⟨segs, start, node, st, rfl, h⟩
  | succ fuel ih =>
      have hp : p < region.pageCount := by omega
      rw [dumpNodePages_succ hp]
      obtain ⟨segs', start', h'⟩ := nodesDumped_page h (hnode p hp)
      exact ih h' (by omega)

/-- What `dump_shm_nodes` prints are the segments of pages on one node. -/
theorem dumpShmNodes_eq (hnode : ∀ p < region.pageCount, 0 ≤ pageNode region k p) (shmoffset : Nat) :
    ∃ segs, Encodes (fun _ => True) (pageNode region k) region.pageCount segs ∧
      dumpShmNodes k region shmoffset = segs.flatMap (nodeLine region.pagesize shmoffset) := by
  have hpos := region.pageCount_pos
  obtain ⟨n, hn⟩ : ∃ n, region.pageCount = n + 1 := ⟨_, (Nat.succ_pred_eq_of_pos hpos).symm⟩
  have hzero : NodesDumped region.pagesize shmoffset (pageNode region k) 1 [] 0 (pageNode region k 0) _ :=
    nodesDumped_page_zero (hnode 0 hpos)
  obtain ⟨segs, start, node, st, hloop, h⟩ := nodesDumped_pages hnode hzero ((Nat.add_comm 1 n).trans hn.symm)
  have hall : dumpNodePages k region shmoffset region.pageCount 0 { prevnode := -1, start := 0, out := [] } =
      (region.pagesize * region.pageCount, st) := by
    rw [hn] at hloop ⊢
    exact (dumpNodePages_succ hpos _).trans hloop
  refine ⟨_, h.pending.flush.filter _, ?_⟩
  rw [dumpShmNodes, if_neg region.len_pos.ne', ← Region.pageCount, hall]
  dsimp only
  rw [h.dumpnode_eq]
  exact (RunLength.flatMap_filter (fun _ => True) (fun s hs => absurd trivial hs) _).symm

end Regions

/-- A region of four pages of 64 kB. -/
def fourPages : Region where
  shmptr := 65536
  shmlen := 262144
  pagesize := 65536
  len_pos := by decide
  pagesize_pos := by decide
  pagesize_dvd := by decide

/-- The second and the third page are bound to node 2. -/
def boundMiddle : Task gapGlobals :=
  { Task.initial gapGlobals with
    pages := fun a => if 131072 ≤ a ∧ a < 262144 then ⟨mpolBind, {2}⟩ else ⟨mpolDefault, ∅⟩ }

example : dumpShm plainKernel fourPages 0 boundMiddle =
    some "0000000000010000-0000000000030000: bind : 2 \n".toList := by decide +kernel

end Numactl
