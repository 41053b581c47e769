import Numactl.PolicyHistory

/-! The two versions of `numa_get_membind`. Where the policy is no bind, version 2 copies the allowed nodes into
the mask it returns; version 1 copies the mask of the policy into the global `numa_all_nodes`, and returns that. -/

namespace Numactl

open PolicyCall (NodesExist bits_numaGetMembindV2)

variable {g : Globals} {k : Kernel} {t : Task g} {arch : Arch}

def numaMaxPossibleNodeV1 (arch : Arch) : Nat := sizeofNodemask arch * 8 - 1

def allocateNodemaskV1 (arch : Arch) : Bitmask := zeroBitmask (numaMaxPossibleNodeV1 arch + 1)

/-- What `numa_get_membind_v1` leaves: the mask it returns and the global `numa_all_nodes`. -/
structure MembindV1 (arch : Arch) where
  nmp : Nodemask arch
  numaAllNodes : Nodemask arch

def numaGetMembindV1 (k : Kernel) (numaAllNodes : Nodemask arch) (t : Task g) : MembindV1 arch × Task g :=
  let r := getpol k 0 (allocateNodemaskV1 arch) t
  if r.1.1 = mpolBind then (⟨copyBitmaskToNodemask r.1.2 arch, numaAllNodes⟩, r.2)
  else
    let numaAllNodes := copyBitmaskToNodemask r.1.2 arch
    (⟨numaAllNodes, numaAllNodes⟩, r.2)

/-- The nodes `numa_get_membind` is to return: those bound, or all allowed ones. -/
def membindNodes (t : Task g) : Finset Nat :=
  if t.policy.policy = mpolBind then t.policy.nodes else g.numaAllNodesPtr.bits

/-- Both versions return these, and the first leaves the global alone. -/
def VersionsAgree (k : Kernel) (numaAllNodes : Nodemask arch) (t : Task g) : Prop :=
  (numaGetMembindV2 k t).1.bits = membindNodes t ∧
    (numaGetMembindV1 k numaAllNodes t).1.nmp.bits = membindNodes t ∧
    (numaGetMembindV1 k numaAllNodes t).1.numaAllNodes = numaAllNodes

/-- The nodes of the policy as far as a version 1 mask can be told of them: `get_mempolicy` fails if the kernel
has more node ids than it has bits. -/
def nodesSeen (k : Kernel) (arch : Arch) (t : Task g) : Finset Nat :=
  if k.nrNodeIds ≤ numaNumNodes arch then t.policy.nodes else ∅

theorem size_allocateNodemaskV1 : (allocateNodemaskV1 arch).size = numaNumNodes arch := by
  cases arch <;> rfl

theorem Nodemask.ext_bits {mask mask' : Nodemask arch} (h : mask.bits = mask'.bits) : mask = mask' := by
  apply Nodemask.ext
  apply Words.ext_bit
  · rw [mask.len, mask'.len]
  · intro i hi
    rw [mask.length_mul] at hi
    have hmem : i ∈ mask.bits ↔ i ∈ mask'.bits := by rw [h]
    rw [Nodemask.mem_bits, Nodemask.mem_bits, and_iff_right hi, and_iff_right hi] at hmem
    exact Bool.eq_iff_iff.mpr hmem

theorem bits_fill_allocateNodemaskV1 {nodes : Finset Nat} (hnodes : ∀ i ∈ nodes, i < numaNumNodes arch) :
    (copyBitmaskToNodemask (Kernel.fill (allocateNodemaskV1 arch) nodes) arch).bits = nodes := by
  rw [bits_copyBitmaskToNodemask, Kernel.bits_fill, size_allocateNodemaskV1, Finset.filter_true_of_mem hnodes]
  exact Finset.filter_true_of_mem hnodes

/-- The first version returns the nodes it sees, and stores them in the global unless they are a bind's. -/
theorem numaGetMembindV1_eq (hnodes : NodesExist k t) (numaAllNodes : Nodemask arch) :
    (numaGetMembindV1 k numaAllNodes t).1.nmp.bits = nodesSeen k arch t ∧
      (numaGetMembindV1 k numaAllNodes t).1.numaAllNodes =
        if k.nrNodeIds ≤ numaNumNodes arch ∧ t.policy.policy = mpolBind then numaAllNodes
        else (numaGetMembindV1 k numaAllNodes t).1.nmp := by
  unfold numaGetMembindV1 nodesSeen
  by_cases hfits : k.nrNodeIds ≤ numaNumNodes arch
  · have hget : getpol k 0 (allocateNodemaskV1 arch) t =
        ((t.policy.policy, Kernel.fill (allocateNodemaskV1 arch) t.policy.nodes), t) := by
      rw [getpol, Kernel.getMempolicy_eq t.policy _ (size_allocateNodemaskV1 ▸ hfits)]
    have hbits := @bits_fill_allocateNodemaskV1 arch _ fun i hi => (hnodes i hi).trans_le hfits
    rw [hget, if_pos hfits]
    by_cases hbind : t.policy.policy = mpolBind
    · simp only [hfits, hbind, and_self, if_true, hbits]
    · simp only [hfits, hbind, and_false, if_false, hbits, and_self]
  · have hget : getpol k 0 (allocateNodemaskV1 arch) t =
        ((0, allocateNodemaskV1 arch), numaError "get_mempolicy" { t with errno := EINVAL }) := by
      have hsmall : (allocateNodemaskV1 arch).size < k.nrNodeIds := by
        rw [size_allocateNodemaskV1]
        exact Nat.lt_of_not_le hfits
      unfold getpol Kernel.getMempolicy
      rw [if_pos hsmall]
    have hzero : (copyBitmaskToNodemask (allocateNodemaskV1 arch) arch).bits = ∅ := by
      rw [bits_copyBitmaskToNodemask, allocateNodemaskV1, bits_zeroBitmask, Finset.filter_empty]
    rw [hget, if_neg hfits]
    simp only [hfits, false_and, if_false, hzero, (by decide : ¬(0 = mpolBind)), and_self]

theorem bits_numaGetMembindV2_eq (hfits : k.nrNodeIds ≤ g.nodemaskSz) (hnodes : NodesExist k t) :
    (numaGetMembindV2 k t).1.bits = membindNodes t := by
  rw [bits_numaGetMembindV2 hfits, membindNodes]
  split
  · exact Finset.filter_true_of_mem fun i hi => (hnodes i hi).trans_le hfits
  · rfl

/-- The versions agree and the global is kept exactly if the policy is a bind that can be read into a version 1
mask, or the nodes it shows are all the allowed ones and those the global has anyway. -/
theorem versionsAgree_iff (hfits : k.nrNodeIds ≤ g.nodemaskSz) (hnodes : NodesExist k t)
    (numaAllNodes : Nodemask arch) :
    VersionsAgree k numaAllNodes t ↔
      k.nrNodeIds ≤ numaNumNodes arch ∧ t.policy.policy = mpolBind ∨
        nodesSeen k arch t = membindNodes t ∧ numaAllNodes.bits = nodesSeen k arch t := by
  obtain ⟨hnmp, hglobal⟩ := numaGetMembindV1_eq hnodes numaAllNodes
  rw [VersionsAgree, bits_numaGetMembindV2_eq hfits hnodes, hnmp, hglobal]
  by_cases hbind : k.nrNodeIds ≤ numaNumNodes arch ∧ t.policy.policy = mpolBind
  · refine iff_of_true ⟨rfl, ?_, if_pos hbind⟩ (Or.inl hbind)
    rw [nodesSeen, if_pos hbind.1, membindNodes, if_pos hbind.2]
  · rw [if_neg hbind, or_iff_right hbind, and_iff_right rfl]
    refine and_congr_right fun _ => ⟨fun heq => ?_, fun heq => ?_⟩
    · rw [← heq, hnmp]
    · exact Nodemask.ext_bits (hnmp.trans heq.symm)

/-- A bind to node 2. -/
theorem versionsAgree_bind :
    VersionsAgree plainKernel (copyBitmaskToNodemask gapGlobals.numaAllNodesPtr .x86)
      { Task.initial gapGlobals with policy := ⟨mpolBind, {2}⟩ } := by
  refine (versionsAgree_iff (by decide) ?_ _).mpr (Or.inl ⟨by decide, rfl⟩)
  unfold NodesExist
  decide

/-- Under the default policy the first version returns no nodes, and empties the global. -/
theorem not_versionsAgree_default :
    ¬VersionsAgree plainKernel (copyBitmaskToNodemask gapGlobals.numaAllNodesPtr .x86) (Task.initial gapGlobals) := by
  intro hagree
  have hnone : (numaGetMembindV1 plainKernel (copyBitmaskToNodemask gapGlobals.numaAllNodesPtr .x86)
      (Task.initial gapGlobals)).1.nmp.bits = ∅ := by decide +kernel
  have hall : membindNodes (Task.initial gapGlobals) = {0, 2} := by decide +kernel
  have hnmp := hagree.2.1
  rw [hnone, hall] at hnmp
  exact absurd hnmp (by decide)

end Numactl
