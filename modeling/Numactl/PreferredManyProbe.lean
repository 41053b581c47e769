import Numactl.MaskBits
import Numactl.PolicyConflict

/-! The probe for `MPOL_PREFERRED_MANY` sets the policy of the task and sets the old one again. The old policy
is read with the bits of the node mask and written back with one bit more, so that a kernel that reads one bit
less than it is told gets all of it; `errno` is put back wherever the probe ends. -/

namespace Numactl

open PolicyCall (NodesExist)

variable {g : Globals} {k : Kernel} {t : Task g}

/-- The kernel takes back the policy it has reported, after a probe that it has granted. -/
def Kernel.AcceptsBack (k : Kernel) (t : Task g) : Prop :=
  k.refusal (t.requests ++ [probeRequest k t]) = none →
    k.refusal (t.requests ++ [probeRequest k t] ++ [restoreRequest t]) = none

/-- Written back with one bit more than its size, the mask that `get_mempolicy` has filled has all its nodes. -/
theorem readNodes_fill (hreads : k.ReadsLow) {nodes : Finset Nat} (hnodes : ∀ i ∈ nodes, i < g.nodemaskSz) :
    k.readNodes (Kernel.fill g.numaAllocateNodemask nodes).maskp (g.nodemaskSz + 1) = nodes := by
  calc k.readNodes (Kernel.fill g.numaAllocateNodemask nodes).maskp (g.nodemaskSz + 1)
      = (Kernel.fill g.numaAllocateNodemask nodes).bits := hreads _ _
    _ = nodes.filter (· < g.nodemaskSz) := Kernel.bits_fill _ _
    _ = nodes := Finset.filter_true_of_mem hnodes

/-- The old policy is set again in whatever state a granted probe has left. -/
theorem policy_restore (hreads : k.ReadsLow) (hnodes : ∀ i ∈ t.policy.nodes, i < g.nodemaskSz) {s : Task g}
    (hback : k.refusal (s.requests ++ [restoreRequest t]) = none) :
    (k.setMempolicy t.policy.policy (Kernel.fill g.numaAllocateNodemask t.policy.nodes).maskp
      (g.nodemaskSz + 1) s).2.policy = t.policy := by
  rcases k.setMempolicy_cases t.policy.policy (Kernel.fill g.numaAllocateNodemask t.policy.nodes).maskp
    (g.nodemaskSz + 1) s with ⟨hrefused, -⟩ | ⟨-, -, hpolicy, -⟩
  · exact absurd hback hrefused
  · rw [hpolicy, readNodes_fill hreads hnodes]

/-- The probe leaves the policy of the task as it was, however it ends. -/
theorem policy_setPreferredMany (hreads : k.ReadsLow) (hnodes : NodesExist k t) (haccepts : k.AcceptsBack t) :
    (setPreferredMany k t).policy = t.policy := by
  cases h : t.hasPreferredMany with
  | some many => rw [setPreferredMany_of_some h]
  | none =>
      by_cases hfits : k.nrNodeIds ≤ g.nodemaskSz
      · rw [setPreferredMany_eq hfits h]
        dsimp only
        rcases k.setMempolicy_cases mpolPreferredMany
          (Kernel.fill g.numaAllocateNodemask (k.memsAllowed t.requests)).maskp g.nodemaskSz
          { t with hasPreferredMany := some false } with ⟨-, hret, hpolicy, -⟩ | ⟨hgrant, hret, -⟩
        · rw [if_neg (by rw [hret]; exact Bool.false_ne_true)]
          exact hpolicy
        · rw [if_pos hret]
          dsimp only
          have hrequests := k.requests_setMempolicy mpolPreferredMany
            (Kernel.fill g.numaAllocateNodemask (k.memsAllowed t.requests)).maskp g.nodemaskSz
            { t with hasPreferredMany := some false }
          refine policy_restore hreads (fun i hi => (hnodes i hi).trans_le hfits) ?_
          dsimp only
          rw [hrequests]
          exact haccepts hgrant
      · obtain ⟨errors, heq⟩ := setPreferredMany_of_lt h (Nat.lt_of_not_le hfits)
        rw [heq]

/-! ### Later calls -/

/-- Calls of the library between two probes, and a change of `errno`. -/
inductive LibraryCall where
  | hasPreferredMany
  | setBindPolicy (strict : Bool)
  | setStrict (flag : Bool)
  | policy (call : PolicyCall)
  | bindMemory (mem size pol : Nat) (bmp : Option Bitmask)
  | setErrno (e : Errno)

def LibraryCall.run (k : Kernel) (t : Task g) : LibraryCall → Task g
  | .hasPreferredMany => (numaHasPreferredMany k t).2
  | .setBindPolicy strict => numaSetBindPolicy k strict t
  | .setStrict flag => numaSetStrict flag t
  | .policy call => call.run k t
  | .bindMemory mem size pol bmp => (dombind k mem size pol bmp t).2
  | .setErrno e => { t with errno := e }

/-- The calls that probe first. -/
def LibraryCall.Probes : LibraryCall → Prop
  | .hasPreferredMany => True
  | .setBindPolicy _ => True
  | _ => False

theorem numaSetBindPolicy_eq (k : Kernel) (strict : Bool) (t : Task g) :
    ∃ pol, numaSetBindPolicy k strict t = { setPreferredMany k t with bindPolicy := pol } := by
  unfold numaSetBindPolicy
  dsimp only
  split
  · exact ⟨_, rfl⟩
  · split
    · exact ⟨_, rfl⟩
    · exact ⟨_, rfl⟩

theorem hasPreferredMany_policyCall {many : Bool} (call : PolicyCall) (h : t.hasPreferredMany = some many) :
    (call.run k t).hasPreferredMany = some many := by
  cases call with
  | membind bmp => exact (hasPreferredMany_setpol k _ _ t).trans h
  | membindBalancing bmp =>
      have hfirst : (k.setMempolicy balancedBind bmp.maskp (bmp.size + 1) t).2.hasPreferredMany = some many := by
        rw [k.setMempolicy_frame]
        exact h
      simp only [PolicyCall.run, numaSetMembindBalancing]
      split
      · exact hfirst
      · split
        · exact (hasPreferredMany_setpol k _ _ _).trans hfirst
        · exact hfirst
  | interleaveMask bmp =>
      simp only [PolicyCall.run, numaSetInterleaveMaskV2]
      split
      · exact (hasPreferredMany_setpol k _ _ t).trans h
      · exact (hasPreferredMany_setpol k _ _ t).trans h
  | weightedInterleaveMask bmp =>
      simp only [PolicyCall.run, numaSetWeightedInterleaveMask]
      split
      · exact (hasPreferredMany_setpol k _ _ t).trans h
      · exact (hasPreferredMany_setpol k _ _ t).trans h
  | preferred node => exact (hasPreferredMany_numaSetPreferred k _ t).trans h
  | preferredMany bmp =>
      simp only [PolicyCall.run, numaSetPreferredMany, setPreferredMany_of_some h]
      split
      · exact (hasPreferredMany_setpol k _ _ t).trans h
      · exact (hasPreferredMany_numaSetPreferred k _ t).trans h
  | localalloc => exact (hasPreferredMany_setpol k _ _ t).trans h

/-- No call changes what the probe has found. -/
theorem hasPreferredMany_run {many : Bool} (h : t.hasPreferredMany = some many) (call : LibraryCall) :
    (call.run k t).hasPreferredMany = some many := by
  cases call with
  | hasPreferredMany =>
      change (setPreferredMany k t).hasPreferredMany = some many
      rw [setPreferredMany_of_some h, h]
  | setBindPolicy strict =>
      obtain ⟨pol, heq⟩ := numaSetBindPolicy_eq k strict t
      change (numaSetBindPolicy k strict t).hasPreferredMany = some many
      rw [heq, setPreferredMany_of_some h]
      exact h
  | setStrict flag => exact h
  | policy call => exact hasPreferredMany_policyCall call h
  | bindMemory mem size pol bmp => exact (hasPreferredMany_dombind k mem size pol bmp t).trans h
  | setErrno e => exact h

/-- A call that probes does what `set_preferred_many` does, and sets the way memory is bound at most. -/
theorem LibraryCall.Probes.run_eq {call : LibraryCall} (hcall : call.Probes) (k : Kernel) (t : Task g) :
    ∃ pol, call.run k t = { setPreferredMany k t with bindPolicy := pol } := by
  cases call with
  | hasPreferredMany => exact ⟨_, rfl⟩
  | setBindPolicy strict => exact numaSetBindPolicy_eq k strict t
  | _ => exact hcall.elim

/-- The probe leaves the policy and `errno` as they were, and after any calls `numa_has_preferred_many` gives the
answer it gave, without asking anything of the kernel; nor does `numa_set_bind_policy`. -/
theorem probe_leaves_policy (hreads : k.ReadsLow) (hnodes : NodesExist k t) (haccepts : k.AcceptsBack t)
    {call : LibraryCall} (hcall : call.Probes) :
    (call.run k t).policy = t.policy ∧ (call.run k t).errno = t.errno ∧
      ∀ calls : List LibraryCall,
        let later := Runs.after (LibraryCall.run k) (call.run k t) calls
        numaHasPreferredMany k later = ((numaHasPreferredMany k t).1, later) ∧
          ∀ strict, numaSetBindPolicy k strict later = { later with
            bindPolicy := if strict then mpolBind
              else if (numaHasPreferredMany k t).1 then mpolPreferredMany else mpolPreferred } := by
  obtain ⟨pol, hrun⟩ := hcall.run_eq k t
  obtain ⟨many, hmany⟩ := Option.isSome_iff_exists.mp (isSome_setPreferredMany k t)
  have hanswer : (numaHasPreferredMany k t).1 = many := by
    rw [numaHasPreferredMany, hmany]
    rfl
  refine ⟨?_, ?_, fun calls => ?_⟩
  · rw [hrun]
    exact policy_setPreferredMany hreads hnodes haccepts
  · rw [hrun]
    exact errno_setPreferredMany k t
  · have hlater : (Runs.after (LibraryCall.run k) (call.run k t) calls).hasPreferredMany = some many := by
      refine Runs.invariant_rule (I := fun s => Task.hasPreferredMany s = some many) ?_
        (fun s c hs => hasPreferredMany_run hs c) calls
      rw [hrun]
      exact hmany
    dsimp only
    refine ⟨?_, fun strict => ?_⟩
    · rw [hanswer]
      exact numaHasPreferredMany_of_probed k hlater
    · rw [hanswer, numaSetBindPolicy, setPreferredMany_of_some hlater, hlater]
      cases strict with
      | true => rfl
      | false => cases many <;> rfl

/-- A weighted interleaving that includes the highest node. -/
theorem probe_leaves_highest_node :
    (numaHasPreferredMany EntryPoint.lowKernel
      { Task.initial gapGlobals with policy := ⟨mpolWeightedInterleave, {2, 63}⟩ }).2.policy =
        ⟨mpolWeightedInterleave, {2, 63}⟩ := by
  refine (@probe_leaves_policy gapGlobals EntryPoint.lowKernel
    { Task.initial gapGlobals with policy := ⟨mpolWeightedInterleave, {2, 63}⟩ } (fun _ _ => rfl) ?_ ?_
    .hasPreferredMany trivial).1
  · unfold NodesExist
    decide
  · unfold Kernel.AcceptsBack
    decide +kernel

end Numactl
