import Numactl.Requests

/-! How many bits of a node mask reach the kernel. The policy calls of libnuma pass a mask with a bit count;
a kernel that reads one bit less than the count gets the whole mask from those that pass one more than the
size (`libnuma.c`). -/

namespace Numactl

/-- The kernel reads the low `maxnode - 1` bits of a mask. -/
def Kernel.ReadsLow (k : Kernel) : Prop :=
  ∀ words maxnode, k.readNodes words maxnode = Words.bitsBelow words (maxnode - 1)

/-- The nodes the kernel receives with a request that passes a mask. -/
def Request.nodes (k : Kernel) : Request → Option (Finset Nat)
  | .setMempolicy _ nmask maxnode => some (k.readNodes nmask maxnode)
  | .mbind _ _ _ (some nmask) maxnode _ => some (k.readNodes nmask maxnode)
  | _ => none

/-- The places that pass a node mask: behind the calls that set the task's policy, behind those for memory,
the two attempts of `numa_set_membind_balancing`, and the two calls of `set_preferred_many`. -/
inductive EntryPoint where
  | setpol (policy : Nat) (bmp : Bitmask)
  | dombind (mem size pol : Nat) (bmp : Bitmask)
  | membindBalancing (bmp : Bitmask)
  | membindBalancingFallback (bmp : Bitmask)
  | preferredManyProbe
  | preferredManyRestore

namespace EntryPoint

variable {g : Globals} {k : Kernel}

/-- The call that contains the place. -/
def run (k : Kernel) (t : Task g) : EntryPoint → Task g
  | .setpol policy bmp => Numactl.setpol k policy bmp t
  | .dombind mem size pol bmp => (Numactl.dombind k mem size pol (some bmp) t).2
  | .membindBalancing bmp => numaSetMembindBalancing k bmp t
  | .membindBalancingFallback bmp => numaSetMembindBalancing k bmp t
  | .preferredManyProbe => setPreferredMany k t
  | .preferredManyRestore => setPreferredMany k t

/-- Which of the call's requests it makes. -/
def index : EntryPoint → Nat
  | .membindBalancingFallback _ => 1
  | .preferredManyRestore => 1
  | _ => 0

/-- The mask it passes: the caller's, the allowed nodes, or the nodes of the policy to be restored. -/
def mask (k : Kernel) (t : Task g) : EntryPoint → Bitmask
  | .setpol _ bmp => bmp
  | .dombind _ _ _ bmp => bmp
  | .membindBalancing bmp => bmp
  | .membindBalancingFallback bmp => bmp
  | .preferredManyProbe => Kernel.fill g.numaAllocateNodemask (k.memsAllowed t.requests)
  | .preferredManyRestore => Kernel.fill g.numaAllocateNodemask t.policy.nodes

/-- It passes one more than the size of the mask. -/
def PassesOneMore : EntryPoint → Prop
  | .membindBalancing _ => True
  | .preferredManyRestore => True
  | _ => False

instance : DecidablePred PassesOneMore := fun e => by
  cases e <;> simp only [PassesOneMore] <;> infer_instance

/-- The bit count it passes. -/
def maxnode (k : Kernel) (t : Task g) (e : EntryPoint) : Nat :=
  (e.mask k t).size + if e.PassesOneMore then 1 else 0

/-- The request made at this place, if the call gets there. -/
def request (k : Kernel) (t : Task g) (e : EntryPoint) : Option Request :=
  (e.run k t).requests[t.requests.length + e.index]?

/-- What `set_preferred_many` asks: nothing, the probe, or the probe and the restore. -/
theorem exists_requests_setPreferredMany (k : Kernel) (t : Task g) :
    ∃ rest, (setPreferredMany k t).requests = t.requests ++ rest ∧
      (rest = [] ∨ rest = [probeRequest k t] ∨ rest = [probeRequest k t, restoreRequest t]) := by
  cases hmany : t.hasPreferredMany with
  | some many =>
      have hprobed : setPreferredMany k t = t := if_pos (by rw [hmany]; rfl)
      exact ⟨[], by rw [hprobed, List.append_nil], Or.inl rfl⟩
  | none =>
      by_cases hfits : k.nrNodeIds ≤ g.nodemaskSz
      · rcases requests_setPreferredMany hfits hmany with ⟨hreqs, -⟩ | ⟨hreqs, -⟩
        · exact ⟨_, hreqs, Or.inr (Or.inl rfl)⟩
        · exact ⟨_, hreqs, Or.inr (Or.inr rfl)⟩
      · -- the old policy cannot be read, and nothing is tried
        have hsmall : g.numaAllocateNodemask.size < k.nrNodeIds := Nat.lt_of_not_le hfits
        refine ⟨[], ?_, Or.inl rfl⟩
        unfold setPreferredMany numaGetMemsAllowed Kernel.getMempolicy
        rw [if_neg (by rw [hmany]; exact Bool.false_ne_true)]
        dsimp only
        rw [if_pos hsmall]
        dsimp only
        rw [if_pos hsmall, List.append_nil]
        rfl

/-- What `numa_set_membind_balancing` asks: the call with the flag, and the one without it where that is
refused as unknown. -/
theorem requests_numaSetMembindBalancing (k : Kernel) (bmp : Bitmask) (t : Task g) :
    ∃ rest, (numaSetMembindBalancing k bmp t).requests =
        t.requests ++ (.setMempolicy balancedBind bmp.maskp (bmp.size + 1) :: rest) ∧
      (rest = [] ∨ rest = [.setMempolicy mpolBind bmp.maskp bmp.size]) := by
  have hfirst := k.requests_setMempolicy balancedBind bmp.maskp (bmp.size + 1) t
  unfold numaSetMembindBalancing
  dsimp only
  split
  · exact ⟨[], hfirst, Or.inl rfl⟩
  · split
    · refine ⟨_, ?_, Or.inr rfl⟩
      rw [numaSetMembindV2, requests_setpol]
      dsimp only
      rw [hfirst, List.append_assoc]
      rfl
    · exact ⟨[], hfirst, Or.inl rfl⟩

theorem getElem?_requests {before after : List Request} {i : Nat} :
    (before ++ after)[before.length + i]? = after[i]? := by
  rw [List.getElem?_append_right (Nat.le_add_right _ _), Nat.add_sub_cancel_left]

/-- Every place passes its mask with its bit count. -/
theorem nodes_of_request {t : Task g} {e : EntryPoint} {req : Request} (h : e.request k t = some req) :
    req.nodes k = some (k.readNodes (e.mask k t).maskp (e.maxnode k t)) := by
  unfold request at h
  cases e with
  | setpol policy bmp =>
      rw [run, requests_setpol, getElem?_requests] at h
      obtain rfl := Option.some.inj h
      rfl
  | dombind mem size pol bmp =>
      rw [run, requests_dombind, getElem?_requests] at h
      obtain rfl := Option.some.inj h
      rfl
  | membindBalancing bmp =>
      obtain ⟨rest, hreqs, -⟩ := requests_numaSetMembindBalancing k bmp t
      rw [run, hreqs, getElem?_requests] at h
      obtain rfl := Option.some.inj h
      rfl
  | membindBalancingFallback bmp =>
      obtain ⟨rest, hreqs, hrest⟩ := requests_numaSetMembindBalancing k bmp t
      rw [run, hreqs, getElem?_requests] at h
      rcases hrest with rfl | rfl
      · cases h
      · obtain rfl := Option.some.inj h
        rfl
  | preferredManyProbe =>
      obtain ⟨rest, hreqs, hrest⟩ := exists_requests_setPreferredMany k t
      rw [run, hreqs, getElem?_requests] at h
      rcases hrest with rfl | rfl | rfl
      · cases h
      · obtain rfl := Option.some.inj h
        rfl
      · obtain rfl := Option.some.inj h
        rfl
  | preferredManyRestore =>
      obtain ⟨rest, hreqs, hrest⟩ := exists_requests_setPreferredMany k t
      rw [run, hreqs, getElem?_requests] at h
      rcases hrest with rfl | rfl | rfl
      · cases h
      · cases h
      · obtain rfl := Option.some.inj h
        rfl

/-- Under a kernel that reads one bit less than it is told, the nodes received are those of the mask exactly
if the place passes one more than the size, or the highest bit of the mask is clear. -/
theorem nodes_eq_bits_iff (hk : k.ReadsLow) {t : Task g} {e : EntryPoint} {req : Request}
    (h : e.request k t = some req) :
    req.nodes k = some (e.mask k t).bits ↔
      e.PassesOneMore ∨ (e.mask k t).size - 1 ∉ (e.mask k t).bits := by
  rw [nodes_of_request h, hk, Option.some.injEq, maxnode, Bitmask.bits]
  by_cases hmore : e.PassesOneMore
  · rw [if_pos hmore, Nat.add_sub_cancel]
    exact iff_of_true rfl (Or.inl hmore)
  · rw [if_neg hmore, Nat.add_zero, or_iff_right hmore]
    exact Words.bitsBelow_pred_eq_iff

/-- A mask of two bits, the highest of which is set. -/
def highMask : Bitmask := numaBitmaskSetbit (zeroBitmask 2) 1

def lowKernel : Kernel :=
  { plainKernel with readNodes := fun words maxnode => Words.bitsBelow words (maxnode - 1) }

/-- The first attempt of `numa_set_membind_balancing` passes the highest bit too. -/
theorem highest_bit_passed_with_flag :
    ∃ req, (EntryPoint.membindBalancing highMask).request lowKernel (Task.initial gapGlobals) = some req ∧
      req.nodes lowKernel = some highMask.bits := by
  have hreq : (EntryPoint.membindBalancing highMask).request lowKernel (Task.initial gapGlobals) =
      some (.setMempolicy balancedBind highMask.maskp 3) := rfl
  exact ⟨_, hreq, (nodes_eq_bits_iff (fun _ _ => rfl) hreq).mpr (Or.inl trivial)⟩

/-- `numa_set_membind` does not. -/
theorem highest_bit_lost_by_setpol :
    ∃ req, (EntryPoint.setpol mpolBind highMask).request lowKernel (Task.initial gapGlobals) = some req ∧
      lowKernel.ReadsLow ∧ req.nodes lowKernel = some ∅ ∧ highMask.bits = {1} :=
  ⟨.setMempolicy mpolBind highMask.maskp 2, rfl, fun _ _ => rfl, by decide +kernel, by decide +kernel⟩

end EntryPoint

end Numactl
