import Numactl.Base.RoundRobin
import Numactl.RegionPolicy

/-! The order in which `verify_shm` expects the nodes of an interleaved region. `interleave_next` adds one to
the current node and takes the remainder only after a miss, so that from the highest possible node it goes on
at node 1. -/

namespace Numactl

open RoundRobin (FirstFrom search exists_search search_of_false)

variable {g : Globals}

theorem interleaveNextLoop_eq_search (n : Nat) (mask : Bitmask) (fuel cur : Nat) :
    interleaveNextLoop n mask fuel cur = search (numaBitmaskIsbitset mask) n fuel cur := by
  induction fuel generalizing cur with
  | zero => rfl
  | succ fuel ih => rw [interleaveNextLoop, search, ih]

/-- The node after `cur` in the mask, or the first one behind the last. -/
def NextInTurn (mask : Bitmask) (cur node : Nat) : Prop := FirstFrom mask.bits (cur + 1) node

/-- Node 0 is next, and passed over: `cur` is the highest possible node and another than node 0. -/
def PassesOverFirst (g : Globals) (mask : Bitmask) (cur : Nat) : Prop :=
  cur + 1 = g.nodemaskSz ∧ 0 < cur ∧ 0 ∈ mask.bits

theorem interleaveNext_eq_search {cur : Nat} (hcur : cur < g.nodemaskSz) (mask : Bitmask) :
    interleaveNext g cur mask = search (numaBitmaskIsbitset mask) g.nodemaskSz (g.nodemaskSz + 2) (cur + 1) := by
  have hlt := g.nodemask_lt
  have hstart : (BitVec.ofInt 32 (cur : Int) + 1).toNat = cur + 1 := by
    rw [BitVec.ofInt_natCast, BitVec.toNat_add, BitVec.toNat_ofNat]
    change (cur % 2 ^ 32 + 1) % 2 ^ 32 = cur + 1
    omega
  rw [interleaveNext, interleaveNextLoop_eq_search, hstart]

section

variable {mask : Bitmask} {cur : Nat}

theorem lt_of_mem_bits (hsize : mask.size = g.nodemaskSz) (hcur : cur ∈ mask.bits) : cur < g.nodemaskSz :=
  hsize ▸ (Bitmask.mem_bits.mp hcur).1

/-- Below the highest possible node the search starts inside the mask. -/
theorem exists_interleaveNext_below (hsize : mask.size = g.nodemaskSz) (hcur : cur ∈ mask.bits)
    (hbelow : cur + 1 < g.nodemaskSz) : ∃ node, interleaveNext g cur mask = some node ∧ NextInTurn mask cur node := by
  rw [interleaveNext_eq_search (lt_of_mem_bits hsize hcur)]
  exact exists_search (numaBitmaskIsbitset_eq_true mask) (fun i hi => lt_of_mem_bits hsize hi) ⟨cur, hcur⟩
    hbelow (Nat.le_succ _)

/-- From the highest possible node it goes on at node 1, or at node 0 where there is no other. -/
theorem exists_interleaveNext_top (hsize : mask.size = g.nodemaskSz) (hcur : cur ∈ mask.bits)
    (htop : cur + 1 = g.nodemaskSz) :
    ∃ node, interleaveNext g cur mask = some node ∧ FirstFrom mask.bits (min cur 1) node := by
  have hlt : ∀ i ∈ mask.bits, i < g.nodemaskSz := fun i hi => lt_of_mem_bits hsize hi
  have hmiss : numaBitmaskIsbitset mask (cur + 1) = false := by
    refine Bool.eq_false_iff.mpr fun hset => ?_
    have hbelow := hlt (cur + 1) ((numaBitmaskIsbitset_eq_true mask (cur + 1)).mp hset)
    omega
  have hmod : (cur + 1 + 1) % g.nodemaskSz = min cur 1 := by
    rw [← htop]
    obtain rfl | hpos := Nat.eq_zero_or_pos cur
    · rfl
    · rw [Nat.add_mod_left, Nat.mod_eq_of_lt (by omega), Nat.min_eq_right hpos]
  rw [interleaveNext_eq_search (hlt cur hcur), search_of_false hmiss, hmod]
  exact exists_search (numaBitmaskIsbitset_eq_true mask) hlt ⟨cur, hcur⟩ (by omega) le_rfl

/-- `interleave_next` returns, with the next node in turn unless it passes over node 0. -/
theorem exists_interleaveNext (hsize : mask.size = g.nodemaskSz) (hcur : cur ∈ mask.bits) :
    ∃ node, interleaveNext g cur mask = some node ∧
      (NextInTurn mask cur node ↔ ¬PassesOverFirst g mask cur) := by
  have hlt : ∀ i ∈ mask.bits, i < g.nodemaskSz := fun i hi => lt_of_mem_bits hsize hi
  obtain hbelow | htop : cur + 1 < g.nodemaskSz ∨ cur + 1 = g.nodemaskSz := by
    have := hlt cur hcur
    omega
  · obtain ⟨node, hnode, hnext⟩ := exists_interleaveNext_below hsize hcur hbelow
    exact ⟨node, hnode, iff_of_true hnext fun hpass => by have := hpass.1; omega⟩
  · obtain ⟨node, hnode, hfirst⟩ := exists_interleaveNext_top hsize hcur htop
    refine ⟨node, hnode, ?_⟩
    have hlast : ∀ i ∈ mask.bits, i < cur + 1 := fun i hi => htop ▸ hlt i hi
    obtain rfl | hpos := Nat.eq_zero_or_pos cur
    · exact iff_of_true (FirstFrom.of_zero hfirst hlast) fun hpass => lt_irrefl 0 hpass.2.1
    · rw [Nat.min_eq_right hpos] at hfirst
      have hone : 1 ≤ node := by
        cases hfirst with
        | ahead _ hlo _ => exact hlo
        | around _ hnone _ => exact absurd (hnone cur hcur) (by omega)
      constructor
      · intro hnext hpass
        cases hnext with
        | ahead hmem hlo _ => exact absurd (hlast node hmem) (by omega)
        | around _ _ hleast => exact absurd (hleast 0 hpass.2.2) (by omega)
      · intro hpass
        have hzero : 0 ∉ mask.bits := fun hmem => hpass ⟨htop, hpos, hmem⟩
        cases hfirst with
        | ahead hmem _ hleast =>
            refine .around hmem hlast fun i hi => hleast i hi (Nat.one_le_iff_ne_zero.mpr fun h => ?_)
            exact hzero (h ▸ hi)
        | around _ hnone _ => exact absurd (hnone cur hcur) (by omega)

end

/-! ### The pages of a region -/

/-- A report of a page on another node than expected. -/
def VerifyReport.IsWrongNode : VerifyReport → Prop
  | wrongInterleaveNode .. => True
  | _ => False

/-- The pages of the region lie on the nodes `node 0`, `node 1`, ..., which go round the mask. -/
structure GoesRound (k : Kernel) (r : Region) (mask : Bitmask) (node : Nat → Nat) : Prop where
  nodeAt_eq : ∀ i < r.shmlen / r.pagesize, k.nodeAt (r.shmptr + i * r.pagesize) = node i
  mem : ∀ i < r.shmlen / r.pagesize, node i ∈ mask.bits
  next : ∀ i, i + 1 < r.shmlen / r.pagesize → NextInTurn mask (node i) (node (i + 1))

section

variable {k : Kernel} {t : Task g} {mask : Bitmask} (nodes : Bitmask)

theorem Region.page_lt (r : Region) {i : Nat} (hi : i < r.shmlen / r.pagesize) :
    r.shmptr + i * r.pagesize < r.shmptr + r.shmlen := by
  have hlt : i * r.pagesize < r.shmlen / r.pagesize * r.pagesize := Nat.mul_lt_mul_of_pos_right hi r.pagesize_pos
  rw [Nat.div_mul_cancel r.pagesize_dvd] at hlt
  omega

/-- The reports about one page of the mask, and the node expected next. -/
theorem verifyNode_interleave {nodes2 : Bitmask} {cur page : Nat} (hcur : cur ∈ nodes2.bits) (ilnode : Int) :
    verifyNode g mpolInterleave page cur ilnode nodes2 =
      if (cur : Int) ≠ ilnode then ([.wrongInterleaveNode page ilnode cur], none)
      else ([], (interleaveNext g ilnode nodes2).map Int.ofNat) := by
  have hrange : ¬((cur : Int) < 0 ∨ ¬numaBitmaskIsbitset nodes2 (cur : Int).toNat) := by
    rintro (hneg | hset)
    · exact absurd hneg (by omega)
    · exact hset ((numaBitmaskIsbitset_eq_true nodes2 cur).mpr hcur)
  unfold verifyNode
  rw [if_pos rfl, if_neg hrange]
  rfl

/-- What `get_mempolicy` reports about a page, read with the bits of a mask of the node mask's size. -/
theorem exists_getMempolicy (hfits : k.nrNodeIds ≤ g.nodemaskSz) (hsize : mask.size = g.nodemaskSz) {p : Nat}
    (hpage : t.pages p = ⟨mpolInterleave, mask.bits⟩) :
    ∃ nodes2, (k.getMempolicy (t.pages p) g.numaAllocateNodemask t).1 = some (mpolInterleave, nodes2) ∧
      nodes2.size = g.nodemaskSz ∧ nodes2.bits = mask.bits := by
  refine ⟨Kernel.fill g.numaAllocateNodemask mask.bits, ?_, rfl, ?_⟩
  · rw [hpage, Kernel.getMempolicy_eq _ g.numaAllocateNodemask hfits]
  · rw [Kernel.bits_fill]
    exact Finset.filter_true_of_mem fun i hi => lt_of_mem_bits hsize hi

/-- What is printed about a page never names a wrong node before the `switch`. -/
theorem not_isWrongNode_mismatch (p : Nat) (nodes2 : Bitmask) :
    ∀ rep ∈ (if nodes2.maskp.take (longsperbits nodes.size) ≠ nodes.maskp.take (longsperbits nodes.size) then
      [VerifyReport.mismatchedMask p nodes nodes2] else []), ¬rep.IsWrongNode := by
  intro rep hrep
  split at hrep
  · rw [List.mem_singleton.mp hrep]
    exact id
  · cases hrep

/-- A page that is not on the expected node is reported, and the loop stops. -/
theorem verifyPages_wrong (hfits : k.nrNodeIds ≤ g.nodemaskSz) (hsize : mask.size = g.nodemaskSz) {p cur : Nat}
    (hpage : t.pages p = ⟨mpolInterleave, mask.bits⟩) (hnode : k.nodeAt p = cur) (hcur : cur ∈ mask.bits)
    {ilnode : Int} (hne : (cur : Int) ≠ ilnode) (pagesize fuel : Nat) :
    ∃ reports, verifyPages k mpolInterleave nodes t pagesize (fuel + 1) p ilnode = some reports ∧
      ∃ rep ∈ reports, rep.IsWrongNode := by
  obtain ⟨nodes2, hget, -, hbits⟩ := exists_getMempolicy hfits hsize hpage
  rw [verifyPages, hget, hnode]
  dsimp only
  rw [if_neg (fun h => h rfl), verifyNode_interleave (hbits ▸ hcur) ilnode, if_pos hne]
  exact ⟨_, rfl, _, List.mem_append_right _ (List.mem_singleton.mpr rfl), trivial⟩

/-- A page on the expected node adds no report of a wrong node, and the loop goes on with the next page. -/
theorem verifyPages_right (hfits : k.nrNodeIds ≤ g.nodemaskSz) (hsize : mask.size = g.nodemaskSz) {p cur : Nat}
    (hpage : t.pages p = ⟨mpolInterleave, mask.bits⟩) (hnode : k.nodeAt p = cur) (hcur : cur ∈ mask.bits)
    (pagesize fuel : Nat) :
    ∃ (next : Nat) (here : List VerifyReport), (NextInTurn mask cur next ↔ ¬PassesOverFirst g mask cur) ∧
      (∀ rep ∈ here, ¬rep.IsWrongNode) ∧
      verifyPages k mpolInterleave nodes t pagesize (fuel + 1) p cur =
        (verifyPages k mpolInterleave nodes t pagesize fuel (p + pagesize) next).map (here ++ ·) := by
  obtain ⟨nodes2, hget, hsize2, hbits⟩ := exists_getMempolicy hfits hsize hpage
  obtain ⟨next, hnext, hiff⟩ := exists_interleaveNext hsize2 (hbits ▸ hcur)
  have hturn : NextInTurn mask cur next ↔ ¬PassesOverFirst g mask cur := by
    rwa [NextInTurn, PassesOverFirst, hbits] at hiff
  refine ⟨next, _, hturn, not_isWrongNode_mismatch nodes p nodes2, ?_⟩
  rw [verifyPages, hget, hnode]
  dsimp only
  rw [if_neg (fun h => h rfl), verifyNode_interleave (hbits ▸ hcur), if_neg (fun h => h rfl), hnext]
  simp only [Option.map_some, List.append_nil]
  rfl

/-- From page `i` on, a wrong node is reported exactly if some page but the last lies where node 0 is passed
over. -/
theorem verifyPages_order (hfits : k.nrNodeIds ≤ g.nodemaskSz) (hsize : mask.size = g.nodemaskSz) {r : Region}
    (hpages : t.RegionHas r ⟨mpolInterleave, mask.bits⟩) {node : Nat → Nat} (hround : GoesRound k r mask node)
    (fuel i : Nat) (hfuel : i + fuel = r.shmlen / r.pagesize) {ilnode : Nat} (hil : 0 < fuel → ilnode = node i) :
    ∃ reports, verifyPages k mpolInterleave nodes t r.pagesize fuel (r.shmptr + i * r.pagesize) ilnode =
        some reports ∧
      ((∀ rep ∈ reports, ¬rep.IsWrongNode) ↔
        ∀ j, i ≤ j → j + 1 < r.shmlen / r.pagesize → ¬PassesOverFirst g mask (node j)) := by
  induction fuel generalizing i ilnode with
  | zero =>
      refine ⟨[], rfl, iff_of_true (fun rep hrep => by cases hrep) fun j hj hlt => ?_⟩
      exact absurd hlt (by omega)
  | succ fuel ih =>
      obtain rfl := hil (Nat.succ_pos fuel)
      have hi : i < r.shmlen / r.pagesize := by omega
      have hmem := hround.mem i hi
      have hnode := hround.nodeAt_eq i hi
      have hpage := hpages _ (Nat.le_add_right r.shmptr (i * r.pagesize)) (r.page_lt hi)
      obtain ⟨next, here, hturn, hhere, hstep⟩ := verifyPages_right nodes hfits hsize hpage hnode hmem
        r.pagesize fuel
      have hnextpage : r.shmptr + i * r.pagesize + r.pagesize = r.shmptr + (i + 1) * r.pagesize := by
        rw [Nat.add_assoc, ← Nat.succ_mul]
      rw [hstep, hnextpage]
      by_cases hgood : 0 < fuel → next = node (i + 1)
      · obtain ⟨reports, hreports, hiff⟩ := ih (i + 1) (by omega) hgood
        rw [hreports]
        refine ⟨here ++ reports, rfl, ?_⟩
        have hsplit : (∀ rep ∈ here ++ reports, ¬rep.IsWrongNode) ↔ ∀ rep ∈ reports, ¬rep.IsWrongNode := by
          simp only [List.mem_append, or_imp, forall_and, and_iff_right hhere]
        rw [hsplit, hiff]
        refine ⟨fun h j hij hj => ?_, fun h j hij hj => h j (by omega) hj⟩
        obtain rfl | hlt := Nat.eq_or_lt_of_le hij
        · exact hturn.mp ((hgood (by omega)).symm ▸ hround.next i hj)
        · exact h j hlt hj
      · obtain ⟨hpos, hne⟩ := Classical.not_imp.mp hgood
        obtain ⟨rest, rfl⟩ := Nat.exists_eq_succ_of_ne_zero hpos.ne'
        have hi' : i + 1 < r.shmlen / r.pagesize := by omega
        have hpage' := hpages _ (Nat.le_add_right r.shmptr ((i + 1) * r.pagesize)) (r.page_lt hi')
        have hne' : (node (i + 1) : Int) ≠ next := fun h => hne (Int.ofNat_inj.mp h.symm)
        obtain ⟨reports, hreports, rep, hrep, hwrong⟩ := verifyPages_wrong nodes hfits hsize hpage'
          (hround.nodeAt_eq (i + 1) hi') (hround.mem (i + 1) hi') hne' r.pagesize rest
        rw [hreports]
        refine ⟨here ++ reports, rfl, iff_of_false (fun h => h rep (List.mem_append_right here hrep) hwrong) ?_⟩
        exact fun h => hne ((hturn.mpr (h i le_rfl hi')).unique (hround.next i hi'))

end

/-- `interleave_next` always returns, and returns the next node in turn exactly if it does not pass over node 0;
and `verify_shm` reports no wrong node of a region that goes round the mask exactly if it never does so before
the last page. -/
theorem interleave_order_iff {mask : Bitmask} (hsize : mask.size = g.nodemaskSz) :
    (∀ cur ∈ mask.bits, ∃ node, interleaveNext g cur mask = some node ∧
      (NextInTurn mask cur node ↔ ¬PassesOverFirst g mask cur)) ∧
    ∀ (k : Kernel) (t : Task g) (r : Region) (nodes : Bitmask) (node : Nat → Nat),
      k.nrNodeIds ≤ g.nodemaskSz → t.RegionHas r ⟨mpolInterleave, mask.bits⟩ → GoesRound k r mask node →
      ∃ reports, verifyShm k r mpolInterleave nodes t = some reports ∧
        ((∀ rep ∈ reports, ¬rep.IsWrongNode) ↔
          ∀ i, i + 1 < r.shmlen / r.pagesize → ¬PassesOverFirst g mask (node i)) := by
  refine ⟨fun cur hcur => exists_interleaveNext hsize hcur, ?_⟩
  intro k t r nodes node hfits hpages hround
  have hpages0 : 0 < r.shmlen / r.pagesize := Nat.div_pos (Nat.le_of_dvd r.len_pos r.pagesize_dvd) r.pagesize_pos
  have hfirst : k.nodeAt r.shmptr = node 0 := by
    have hzero := hround.nodeAt_eq 0 hpages0
    rwa [Nat.zero_mul, Nat.add_zero] at hzero
  have hstart : 0 < r.shmlen / r.pagesize → node 0 = node 0 := fun _ => rfl
  obtain ⟨reports, hreports, hiff⟩ := verifyPages_order nodes hfits hsize hpages hround (r.shmlen / r.pagesize) 0
    (Nat.zero_add _) hstart
  rw [Nat.zero_mul, Nat.add_zero] at hreports
  refine ⟨reports, ?_, hiff.trans ⟨fun h i hi => h i (Nat.zero_le i) hi, fun h i _ hi => h i hi⟩⟩
  rw [verifyShm, hfirst]
  exact hreports

/-- Two pages on the nodes 0 and 2, of the mask with both. -/
theorem interleave_order_two_nodes :
    ∃ reports, verifyShm { plainKernel with nodeAt := fun a => if a < 69632 then 0 else 2 } plainRegion
        mpolInterleave gapGlobals.numaAllNodesPtr
        { Task.initial gapGlobals with pages := fun _ => ⟨mpolInterleave, {0, 2}⟩ } = some reports ∧
      ∀ rep ∈ reports, ¬rep.IsWrongNode := by
  have hbits : gapGlobals.numaAllNodesPtr.bits = {0, 2} := by decide +kernel
  have hsize : gapGlobals.numaAllNodesPtr.size = gapGlobals.nodemaskSz := rfl
  have horder := (interleave_order_iff hsize).2 { plainKernel with nodeAt := fun a => if a < 69632 then 0 else 2 }
    { Task.initial gapGlobals with pages := fun _ => ⟨mpolInterleave, {0, 2}⟩ } plainRegion
    gapGlobals.numaAllNodesPtr (fun i => if i = 0 then 0 else 2) (by decide)
    (fun _ _ _ => by rw [hbits])
    ⟨by decide, by rw [hbits]; decide, ?_⟩
  · obtain ⟨reports, hreports, hiff⟩ := horder
    refine ⟨reports, hreports, hiff.mpr fun i hi hpass => ?_⟩
    have htop := hpass.1
    have hlt : i + 1 < 2 := hi
    obtain rfl : i = 0 := by omega
    exact absurd htop (by decide)
  · intro i hi
    have hlt : i + 1 < 2 := hi
    obtain rfl : i = 0 := by omega
    refine FirstFrom.ahead (by rw [hbits]; decide) (by decide) ?_
    rw [hbits]
    decide

/-- The nodes 0 and 63 of 64 possible ones: from node 63 the search goes on at node 1 and comes back to
node 63. -/
theorem not_nextInTurn_top :
    63 ∈ ([0, 63].foldl numaBitmaskSetbit (zeroBitmask 64)).bits ∧
      interleaveNext gapGlobals 63 ([0, 63].foldl numaBitmaskSetbit (zeroBitmask 64)) = some 63 ∧
      ¬NextInTurn ([0, 63].foldl numaBitmaskSetbit (zeroBitmask 64)) 63 63 := by
  refine ⟨by decide +kernel, by decide +kernel, fun hnext => ?_⟩
  have hfirst : 0 ∈ ([0, 63].foldl numaBitmaskSetbit (zeroBitmask 64)).bits := by decide +kernel
  cases hnext with
  | ahead _ hlo _ => exact absurd hlo (by decide)
  | around _ _ hleast => exact absurd (hleast 0 hfirst) (by decide)

end Numactl
