import Numactl.Distance

/-! The nodes of version 1 (`numa_init` in `libnuma.c`): the constructor counts the nodes found in sysfs, and
sets as many bits of `numa_all_nodes` from bit 0 on. The other globals it sets are not modelled. -/

namespace Numactl

variable {arch : Arch}

/-- The loop over the node numbers counts those with memory. -/
def ConfiguredNodes.numaNumConfiguredNodes (c : ConfiguredNodes) : Nat :=
  (List.range (c.maxconfigurednode + 1).toNat).countP fun i => numaBitmaskIsbitset c.numaMemnodePtr i

/-- What `numa_init` leaves behind, with the bit numbers it has given to `nodemask_set_compat`. -/
structure InitState (arch : Arch) where
  nodes : ConfiguredNodes
  numaAllNodes : Nodemask arch
  numaNoNodes : Nodemask arch
  bitsSet : List Nat

namespace InitState

def setCompat (st : InitState arch) (i : Nat) : InitState arch :=
  { st with numaAllNodes := nodemaskSetCompat st.numaAllNodes i, bitsSet := st.bitsSet ++ [i] }

/-- `numa_init`, unless the sizes have been set before. -/
def numaInit (arch : Arch) (nodemaskSz : Nat) (names : Option (List (List Char))) :
    Option (InitState arch) → InitState arch
  | some st => st
  | none =>
      let nodes := setConfiguredNodes nodemaskSz names
      (List.range nodes.numaNumConfiguredNodes).foldl setCompat
        { nodes := nodes, numaAllNodes := zeroNodemask arch, numaNoNodes := zeroNodemask arch, bitsSet := [] }

theorem numaAllNodes_foldl_setCompat (st : InitState arch) (ns : List Nat) :
    (ns.foldl setCompat st).numaAllNodes = ns.foldl nodemaskSetCompat st.numaAllNodes := by
  induction ns generalizing st with
  | nil => rfl
  | cons i ns ih => exact ih (st.setCompat i)

theorem bitsSet_foldl_setCompat (st : InitState arch) (ns : List Nat) :
    (ns.foldl setCompat st).bitsSet = st.bitsSet ++ ns := by
  induction ns generalizing st with
  | nil => exact (List.append_nil _).symm
  | cons i ns ih =>
      rw [List.foldl_cons, ih, setCompat, List.append_assoc]
      rfl

end InitState

/-! ### The count of the nodes -/

/-- Every node found is taken to have memory. -/
theorem numaMemnodePtr_setConfiguredNodes (nodemaskSz : Nat) (names : Option (List (List Char))) :
    (setConfiguredNodes nodemaskSz names).numaMemnodePtr = (setConfiguredNodes nodemaskSz names).numaNodesPtr := by
  cases names with
  | none => rfl
  | some names =>
      apply Runs.invariant_rule (I := fun c : ConfiguredNodes => c.numaMemnodePtr = c.numaNodesPtr)
      · rfl
      · intro c nd h
        rw [ConfiguredNodes.addNode, h]

theorem NodeDirs.numaNumConfiguredNodes_eq {names : List (List Char)} {S : Finset Nat} (h : NodeDirs names S)
    {nodemaskSz : Nat} (hS : ∀ n ∈ S, n < nodemaskSz) :
    (setConfiguredNodes nodemaskSz (some names)).numaNumConfiguredNodes = S.card := by
  have hbits := h.bits_setConfiguredNodes hS
  have hfilter : S = ((List.range ((setConfiguredNodes nodemaskSz (some names)).maxconfigurednode + 1).toNat).filter
      fun i => numaBitmaskIsbitset (setConfiguredNodes nodemaskSz (some names)).numaMemnodePtr i).toFinset := by
    apply Finset.ext
    intro n
    rw [List.mem_toFinset, List.mem_filter, List.mem_range, numaBitmaskIsbitset_eq_true,
      numaMemnodePtr_setConfiguredNodes, hbits]
    refine ⟨fun hn => ⟨?_, hn⟩, fun hn => hn.2⟩
    have hle : (n : Int) ≤ (setConfiguredNodes nodemaskSz (some names)).maxconfigurednode := h.le_numaMaxNode hn
    omega
  rw [ConfiguredNodes.numaNumConfiguredNodes, List.countP_eq_length_filter,
    ← List.toFinset_card_of_nodup (List.nodup_range.filter _), ← hfilter]

/-! ### The nodes of version 1 -/

/-- As many numbers from 0 on as the set has are the elements below `m` exactly when the set is dense. -/
theorem range_card_eq_filter_iff (S : Finset Nat) (m : Nat) :
    (Finset.range S.card = S.filter (· < m) ∧ S.card ≤ m) ↔ ∃ k ≤ m, S = Finset.range k := by
  constructor
  · rintro ⟨heq, hle⟩
    refine ⟨S.card, hle, ?_⟩
    have hsub : S.filter (· < m) = S := by
      apply Finset.eq_of_subset_of_card_le (Finset.filter_subset _ _)
      rw [← heq, Finset.card_range]
    rw [heq, hsub]
  · rintro ⟨k, hk, rfl⟩
    rw [Finset.card_range]
    refine ⟨?_, hk⟩
    apply Finset.ext
    intro n
    rw [Finset.mem_filter, Finset.mem_range]
    omega

/-- After initialisation `numa_all_nodes` holds the existing nodes that fit it, and no bit outside of it has
been set, exactly when the nodes are numbered from 0 without a gap and fit it. -/
theorem numaAllNodes_iff (arch : Arch) {nodemaskSz : Nat} {names : List (List Char)} {S : Finset Nat}
    (hdirs : NodeDirs names S) (hS : ∀ n ∈ S, n < nodemaskSz) :
    ((InitState.numaInit arch nodemaskSz (some names) none).numaAllNodes.bits = S.filter (· < numaNumNodes arch) ∧
        ∀ i ∈ (InitState.numaInit arch nodemaskSz (some names) none).bitsSet, i < numaNumNodes arch) ↔
      ∃ k ≤ numaNumNodes arch, S = Finset.range k := by
  have hmask : (InitState.numaInit arch nodemaskSz (some names) none).numaAllNodes =
      (List.range S.card).foldl nodemaskSetCompat (zeroNodemask arch) := by
    rw [InitState.numaInit, hdirs.numaNumConfiguredNodes_eq hS]
    exact InitState.numaAllNodes_foldl_setCompat _ _
  have hset : (InitState.numaInit arch nodemaskSz (some names) none).bitsSet = List.range S.card := by
    rw [InitState.numaInit, hdirs.numaNumConfiguredNodes_eq hS]
    exact InitState.bitsSet_foldl_setCompat _ _
  have hinside : (∀ i ∈ List.range S.card, i < numaNumNodes arch) ↔ S.card ≤ numaNumNodes arch := by
    refine ⟨fun h => ?_, fun h i hi => (List.mem_range.mp hi).trans_le h⟩
    obtain hzero | hpos := Nat.eq_zero_or_pos S.card
    · omega
    · have hlast := h (S.card - 1) (List.mem_range.mpr (by omega))
      omega
  rw [← range_card_eq_filter_iff, hmask, hset, hinside]
  refine and_congr_left fun hle => ?_
  have hrange : (List.range S.card).toFinset = Finset.range S.card := by
    apply Finset.ext
    intro i
    rw [List.mem_toFinset, List.mem_range, Finset.mem_range]
  rw [bits_foldl_nodemaskSetCompat _ _ (hinside.mpr hle), bits_zeroNodemask, Finset.empty_union, hrange]

/-- Two nodes without a gap. -/
theorem nodeDirs_dense : NodeDirs ["node1".toList, "node0".toList] {0, 1} where
  dir := by
    intro n hn
    obtain rfl | rfl : n = 0 ∨ n = 1 := by simpa using hn
    · exact ⟨"0".toList, by decide, by decide⟩
    · exact ⟨"1".toList, by decide, by decide⟩
  only := by
    intro name hname htake
    obtain rfl | rfl : name = "node1".toList ∨ name = "node0".toList := by
      simpa only [List.mem_cons, List.not_mem_nil, or_false] using hname
    · exact ⟨1, by decide, "1".toList, by decide, rfl⟩
    · exact ⟨0, by decide, "0".toList, by decide, rfl⟩

theorem numaAllNodes_dense :
    (InitState.numaInit .x86 64 (some ["node1".toList, "node0".toList]) none).numaAllNodes.bits =
        Finset.filter (· < numaNumNodes .x86) {0, 1} ∧
      ∀ i ∈ (InitState.numaInit .x86 64 (some ["node1".toList, "node0".toList]) none).bitsSet,
        i < numaNumNodes .x86 :=
  (numaAllNodes_iff .x86 nodeDirs_dense (by decide)).mpr ⟨2, by decide, by decide⟩

/-- The nodes 1, 2 and 5 are taken for 0, 1 and 2. -/
theorem numaAllNodes_gapped :
    ¬((InitState.numaInit .x86 64 (some gappedNames) none).numaAllNodes.bits =
        gappedNodes.filter (· < numaNumNodes .x86) ∧
      ∀ i ∈ (InitState.numaInit .x86 64 (some gappedNames) none).bitsSet, i < numaNumNodes .x86) := by
  intro h
  have hbit : 0 ∈ (InitState.numaInit .x86 64 (some gappedNames) none).numaAllNodes.bits := by decide +kernel
  rw [h.1] at hbit
  revert hbit
  decide

end Numactl
