import Numactl.Requests

/-! The version 1 entry points that take a `nodemask_t`, and their `_compat` counterparts in `numa.h`, which
call version 2. Both make a bitmask of the same words on the stack; they are compared by the requests they
make of the kernel. -/

namespace Numactl

variable {g : Globals} {k : Kernel} {arch : Arch}

/-- A bitmask on the stack that points at a `nodemask_t`. -/
def Nodemask.bitmask (mask : Nodemask arch) (size : Nat) (h : size ≤ numaNumNodes arch) : Bitmask where
  size := size
  maskp := mask.n
  fits := by
    rw [mask.len]
    cases arch <;> simp only [numaNumNodes, longsperbits, bitsperlong] at h ⊢ <;> omega

theorem sizeofNodemask_le : sizeofNodemask arch ≤ numaNumNodes arch := by
  cases arch <;> decide

/-- The bitmask of most version 1 functions, whose size is `sizeof(nodemask_t)`: a count of bytes. -/
def Nodemask.bytesBitmask (mask : Nodemask arch) : Bitmask :=
  mask.bitmask (sizeofNodemask arch) sizeofNodemask_le

/-- The bitmask whose size is `sizeof(nodemask_t) * 8`. -/
def Nodemask.bitsBitmask (mask : Nodemask arch) : Bitmask :=
  mask.bitmask (sizeofNodemask arch * 8) sizeofNodemask_mul.le

section

variable (k : Kernel)

def numaInterleaveMemoryV1 (mem size : Nat) (mask : Nodemask arch) (t : Task g) : Task g :=
  (dombind k mem size mpolInterleave (some mask.bitsBitmask) t).2

def numaTonodemaskMemoryV1 (mem size : Nat) (mask : Nodemask arch) (t : Task g) : Task g :=
  (dombind k mem size t.bindPolicy (some mask.bytesBitmask) t).2

def numaAllocInterleavedSubsetV1 (size : Nat) (mask : Nodemask arch) (t : Task g) : Option Nat × Task g :=
  let r := k.ask (.mmap size) id t
  if r.1 then dombindOrFree k (k.mapped r.2.requests) size mpolInterleave (some mask.bytesBitmask) r.2
  else (none, r.2)

def numaSetMembindV1 (mask : Nodemask arch) (t : Task g) : Task g := setpol k mpolBind mask.bytesBitmask t

def numaBindV1 (nodemask : Nodemask arch) (t : Task g) : Task g :=
  numaSetMembindV2 k nodemask.bytesBitmask (numaRunOnNodeMaskV2 k nodemask.bytesBitmask t).2

def numaInterleaveMemoryCompat (mem size : Nat) (mask : Nodemask arch) (t : Task g) : Task g :=
  numaInterleaveMemoryV2 k mem size mask.bitsBitmask t

def numaTonodemaskMemoryCompat (mem size : Nat) (mask : Nodemask arch) (t : Task g) : Task g :=
  numaTonodemaskMemoryV2 k mem size mask.bitsBitmask t

def numaAllocInterleavedSubsetCompat (size : Nat) (mask : Nodemask arch) (t : Task g) : Option Nat × Task g :=
  numaAllocInterleavedSubsetV2 k size mask.bitsBitmask t

def numaSetMembindCompat (mask : Nodemask arch) (t : Task g) : Task g := numaSetMembindV2 k mask.bitsBitmask t

def numaBindCompat (mask : Nodemask arch) (t : Task g) : Task g :=
  numaBindV2 k (copyNodemaskToBitmask mask g.numaAllocateNodemask) t

end

/-- The entry points both versions have, with their other arguments. -/
inductive CompatCall where
  | interleaveMemory (mem size : Nat)
  | tonodemaskMemory (mem size : Nat)
  | allocInterleavedSubset (size : Nat)
  | setMembind
  | bind

namespace CompatCall

def runV1 (k : Kernel) (mask : Nodemask arch) (t : Task g) : CompatCall → Task g
  | interleaveMemory mem size => numaInterleaveMemoryV1 k mem size mask t
  | tonodemaskMemory mem size => numaTonodemaskMemoryV1 k mem size mask t
  | allocInterleavedSubset size => (numaAllocInterleavedSubsetV1 k size mask t).2
  | setMembind => numaSetMembindV1 k mask t
  | bind => numaBindV1 k mask t

def runCompat (k : Kernel) (mask : Nodemask arch) (t : Task g) : CompatCall → Task g
  | interleaveMemory mem size => numaInterleaveMemoryCompat k mem size mask t
  | tonodemaskMemory mem size => numaTonodemaskMemoryCompat k mem size mask t
  | allocInterleavedSubset size => (numaAllocInterleavedSubsetCompat k size mask t).2
  | setMembind => numaSetMembindCompat k mask t
  | bind => numaBindCompat k mask t

end CompatCall

/-- The same request, but for the length of a policy's mask: its nodes are the same. -/
def Request.SameNodes : Request → Request → Prop
  | .setMempolicy policy words n, .setMempolicy policy' words' n' =>
      policy = policy' ∧ Words.bitsBelow words n = Words.bitsBelow words' n'
  | r, r' => r = r'

namespace CompatCall

/-- The two versions of a call ask the same of the kernel: the same requests, and for `bind`, where the
version 2 mask may be longer, the same CPUs and the same nodes if the nodes fit that mask. -/
def Agrees (k : Kernel) (mask : Nodemask arch) (t : Task g) (c : CompatCall) : Prop :=
  match c with
  | bind => mask.bits ⊆ Finset.range g.nodemaskSz →
      List.Forall₂ Request.SameNodes (runV1 k mask t bind).requests (runCompat k mask t bind).requests
  | c => (runV1 k mask t c).requests = (runCompat k mask t c).requests

/-- `numa_interleave_memory` agrees on every mask, `numa_bind` on the masks whose nodes are below the number
of bytes of a mask, an allocation only if no memory is mapped, and the other two on no mask. -/
def AgreesWhen (k : Kernel) (mask : Nodemask arch) (t : Task g) : CompatCall → Prop
  | interleaveMemory _ _ => True
  | tonodemaskMemory _ _ => False
  | allocInterleavedSubset size => k.refusal (t.requests ++ [.mmap size]) ≠ none
  | setMembind => False
  | bind => mask.bits ⊆ Finset.range g.nodemaskSz → mask.bits ⊆ Finset.range (sizeofNodemask arch)

end CompatCall

/-! ### Requests -/

/-- Masks of different lengths make different requests. -/
theorem append_bindRequest_ne {mem size pol : Nat} {bmp bmp' : Bitmask} {t : Task g}
    (hsize : bmp.size ≠ bmp'.size) {pre rest rest' : List Request} :
    pre ++ [bindRequest mem size pol bmp t] ++ rest ≠ pre ++ [bindRequest mem size pol bmp' t] ++ rest' := by
  intro h
  rw [List.append_assoc, List.append_assoc, List.append_cancel_left_eq] at h
  have hreq := (List.cons.inj h).1
  unfold bindRequest at hreq
  injection hreq with _ _ _ _ hmaxnode
  exact hsize hmaxnode

/-- What `numa_bind` asks: the CPUs of the nodes, then their memory. -/
theorem requests_numaBindV2 (bmp : Bitmask) (t : Task g) :
    (numaBindV2 k bmp t).requests = t.requests ++
      [.schedSetaffinity 0 (numaBitmaskNbytes (nodeCpusLoop k g.numaAllNodesPtr bmp t).cpus)
        (nodeCpusLoop k g.numaAllNodesPtr bmp t).cpus.maskp, .setMempolicy mpolBind bmp.maskp bmp.size] := by
  unfold numaBindV2 numaSetMembindV2 numaRunOnNodeMaskV2
  rw [requests_setpol, requests_runOnNodeMask, List.append_assoc]
  rfl

/-! ### Agreement -/

theorem Request.refl_sameNodes (r : Request) : r.SameNodes r := by
  cases r <;> simp [Request.SameNodes]

theorem forall₂_sameNodes_append (pre : List Request) {l l' : List Request} :
    List.Forall₂ Request.SameNodes (pre ++ l) (pre ++ l') ↔ List.Forall₂ Request.SameNodes l l' := by
  induction pre with
  | nil => rfl
  | cons r pre ih =>
      rw [List.cons_append, List.cons_append, List.forall₂_cons, ih]
      exact and_iff_right r.refl_sameNodes

theorem bits_bytesBitmask (mask : Nodemask arch) :
    mask.bytesBitmask.bits = mask.bits.filter (· < sizeofNodemask arch) := by
  apply Finset.ext
  intro i
  rw [Finset.mem_filter, Nodemask.mem_bits, Bitmask.mem_bits]
  have hle : sizeofNodemask arch ≤ numaNumNodes arch := sizeofNodemask_le
  exact ⟨fun h => ⟨⟨h.1.trans_le hle, h.2⟩, h.1⟩, fun h => ⟨h.2, h.1.2⟩⟩

namespace CompatCall

theorem agrees_bind_iff (mask : Nodemask arch) (t : Task g) :
    Agrees k mask t bind ↔ AgreesWhen k mask t bind := by
  have hbits : mask.bits ⊆ Finset.range g.nodemaskSz →
      (copyNodemaskToBitmask mask g.numaAllocateNodemask).bits = mask.bits := by
    intro hfit
    rw [bits_copyNodemaskToBitmask]
    exact Finset.filter_true_of_mem fun i hi => Finset.mem_range.mp (hfit hi)
  unfold Agrees AgreesWhen
  refine forall_congr' fun hfit => ?_
  have hv1 : (runV1 k mask t bind).requests = _ := requests_numaBindV2 mask.bytesBitmask t
  have hcompat : (runCompat k mask t bind).requests = _ :=
    requests_numaBindV2 (copyNodemaskToBitmask mask g.numaAllocateNodemask) t
  rw [hv1, hcompat]
  rw [forall₂_sameNodes_append, List.forall₂_cons, List.forall₂_cons]
  have hv1bits : Words.bitsBelow mask.bytesBitmask.maskp mask.bytesBitmask.size =
      mask.bits.filter (· < sizeofNodemask arch) := bits_bytesBitmask mask
  refine ⟨fun h i hi => ?_, fun h => ?_⟩
  · obtain ⟨-, ⟨-, hnodes⟩, -⟩ := h
    have hi' : i ∈ (copyNodemaskToBitmask mask g.numaAllocateNodemask).bits := (hbits hfit).symm ▸ hi
    have hlt : i ∈ mask.bits.filter (· < sizeofNodemask arch) := by
      rw [← hv1bits, hnodes]
      exact hi'
    exact Finset.mem_range.mpr (Finset.mem_filter.mp hlt).2
  · have hsame : mask.bytesBitmask.bits = (copyNodemaskToBitmask mask g.numaAllocateNodemask).bits := by
      rw [hbits hfit, bits_bytesBitmask]
      exact Finset.filter_true_of_mem fun i hi => Finset.mem_range.mp (h hi)
    rw [nodeCpusLoop_congr g.numaAllNodesPtr hsame]
    exact ⟨Request.refl_sameNodes _, ⟨rfl, hsame⟩, .nil⟩

/-- Which version 1 entry points agree with their counterparts, and on which masks. -/
theorem agrees_iff (mask : Nodemask arch) (t : Task g) (c : CompatCall) :
    Agrees k mask t c ↔ AgreesWhen k mask t c := by
  have hsize : mask.bytesBitmask.size ≠ mask.bitsBitmask.size := by
    change sizeofNodemask arch ≠ sizeofNodemask arch * 8
    cases arch <;> decide
  cases c with
  | interleaveMemory mem size => exact iff_of_true rfl trivial
  | tonodemaskMemory mem size =>
      refine iff_of_false (fun h => ?_) id
      have hv1 : (runV1 k mask t (tonodemaskMemory mem size)).requests = _ :=
        requests_dombind mem size t.bindPolicy mask.bytesBitmask t
      have hcompat : (runCompat k mask t (tonodemaskMemory mem size)).requests = _ :=
        requests_dombind mem size t.bindPolicy mask.bitsBitmask t
      change (runV1 k mask t (tonodemaskMemory mem size)).requests = (runCompat k mask t _).requests at h
      rw [hv1, hcompat, ← List.append_nil (t.requests ++ _),
        ← List.append_nil (t.requests ++ [bindRequest mem size t.bindPolicy mask.bitsBitmask t])] at h
      exact append_bindRequest_ne hsize h
  | allocInterleavedSubset size =>
      unfold Agrees AgreesWhen runV1 runCompat numaAllocInterleavedSubsetV1
        numaAllocInterleavedSubsetCompat numaAllocInterleavedSubsetV2
      dsimp only
      rcases k.ask_cases (.mmap size) id t with ⟨e, hrefused, hask⟩ | ⟨hgranted, hask⟩
      · rw [hask, hrefused]
        exact iff_of_true rfl (Option.some_ne_none e)
      · rw [hask, hgranted]
        refine iff_of_false (fun h => ?_) fun h => h rfl
        dsimp only [id] at h
        rw [if_pos rfl, if_pos rfl] at h
        obtain ⟨rest, hv1⟩ := requests_dombindOrFree (k := k)
          (k.mapped (t.requests ++ [.mmap size])) size mpolInterleave mask.bytesBitmask
          { t with requests := t.requests ++ [.mmap size] }
        obtain ⟨rest', hcompat⟩ := requests_dombindOrFree (k := k)
          (k.mapped (t.requests ++ [.mmap size])) size mpolInterleave mask.bitsBitmask
          { t with requests := t.requests ++ [.mmap size] }
        rw [hv1, hcompat] at h
        exact append_bindRequest_ne hsize h
  | setMembind =>
      refine iff_of_false (fun h => ?_) id
      have hv1 : (runV1 k mask t setMembind).requests = _ := requests_setpol mpolBind mask.bytesBitmask t
      have hcompat : (runCompat k mask t setMembind).requests = _ :=
        requests_setpol mpolBind mask.bitsBitmask t
      change (runV1 k mask t setMembind).requests = (runCompat k mask t setMembind).requests at h
      rw [hv1, hcompat, List.append_cancel_left_eq] at h
      have hreq := (List.cons.inj h).1
      injection hreq with _ _ hmaxnode
      exact hsize hmaxnode
  | bind => exact agrees_bind_iff mask t

/-- Node 20 is in the 128 bits of a mask and past its 16 bytes: version 1 binds memory to no node. -/
theorem not_agrees_membind :
    ¬Agrees plainKernel (nodemaskSetCompat (zeroNodemask .x86) 20) (Task.initial gapGlobals) setMembind := by
  unfold Agrees
  decide +kernel

end CompatCall

end Numactl
