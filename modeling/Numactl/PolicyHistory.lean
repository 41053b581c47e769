import Numactl.Base.Runs
import Numactl.NodeList
import Numactl.Policy

/-! The policy getters over histories of calls of the policy setters. A call succeeds when it reports no
error; what the kernel then keeps is the policy the call asked for, so the getters can be compared with the
last call. -/

namespace Numactl

open Runs (after Along)

variable {g : Globals} {k : Kernel}

/-- What libnuma relies on: a mask is read up to the bit count it is passed with, node numbers past the
kernel's are refused, and the library's node masks have room for all of them. -/
structure Kernel.Keeps (k : Kernel) (g : Globals) : Prop where
  reads : ∀ words n, n ≤ words.length * 64 → k.readNodes words n = Words.bitsBelow words n
  granted_lt : ∀ reqs policy words n, k.refusal (reqs ++ [.setMempolicy policy words n]) = none →
    ∀ i ∈ k.readNodes words n, i < k.nrNodeIds
  fits : k.nrNodeIds ≤ g.nodemaskSz

theorem Kernel.Keeps.readNodes_eq (hk : k.Keeps g) (bmp : Bitmask) :
    k.readNodes bmp.maskp bmp.size = bmp.bits :=
  hk.reads _ _ bmp.size_le_storage

/-- Node 0 has CPU 0, and node 2 has CPU 1. -/
def plainCpumap : Nat → CpumapFile
  | 0 => .text '1' ['\n']
  | 2 => .text '2' ['\n']
  | _ => .absent

/-- A kernel with 64 node ids that grants every mask without larger nodes. -/
def plainKernel : Kernel where
  available := true
  nrNodeIds := 64
  readNodes := Words.bitsBelow
  refusal requests :=
    match requests.getLast? with
    | some (.setMempolicy _ words n) => if ∀ i ∈ Words.bitsBelow words n, i < 64 then none else some EINVAL
    | _ => none
  mapped _ := 4096
  memsAllowed _ := {0, 2}
  nodeAt _ := 0
  cpumap := plainCpumap

theorem plainKernel_keeps : plainKernel.Keeps gapGlobals where
  reads _ _ _ := rfl
  granted_lt reqs policy words n h := by
    simp only [plainKernel, List.getLast?_append, List.getLast?_singleton, Option.some_or] at h ⊢
    split at h
    · next hlt => exact hlt
    · cases h
  fits := by decide

/-! ### System calls -/

theorem Kernel.ask_cases (k : Kernel) (req : Request) (granted : Task g → Task g) (t : Task g) :
    (∃ e, k.refusal (t.requests ++ [req]) = some e ∧
      k.ask req granted t = (false, { t with requests := t.requests ++ [req], errno := e })) ∨
    (k.refusal (t.requests ++ [req]) = none ∧
      k.ask req granted t = (true, granted { t with requests := t.requests ++ [req] })) := by
  cases h : k.refusal (t.requests ++ [req]) with
  | none => exact Or.inr ⟨rfl, by simp only [Kernel.ask, h]⟩
  | some e => exact Or.inl ⟨e, rfl, by simp only [Kernel.ask, h]⟩

/-- A granted policy is kept as the mask was read, a refused one changes nothing but `errno`. -/
theorem Kernel.setMempolicy_cases (k : Kernel) (policy : Nat) (nmask : List Word) (maxnode : Nat)
    (t : Task g) :
    (k.refusal (t.requests ++ [.setMempolicy policy nmask maxnode]) ≠ none ∧
      (k.setMempolicy policy nmask maxnode t).1 = false ∧
      (k.setMempolicy policy nmask maxnode t).2.policy = t.policy ∧
      (k.setMempolicy policy nmask maxnode t).2.errors = t.errors) ∨
    (k.refusal (t.requests ++ [.setMempolicy policy nmask maxnode]) = none ∧
      (k.setMempolicy policy nmask maxnode t).1 = true ∧
      (k.setMempolicy policy nmask maxnode t).2.policy = ⟨policy, k.readNodes nmask maxnode⟩ ∧
      (k.setMempolicy policy nmask maxnode t).2.errors = t.errors) := by
  unfold Kernel.setMempolicy
  rcases k.ask_cases (.setMempolicy policy nmask maxnode)
    (fun t => { t with policy := ⟨policy, k.readNodes nmask maxnode⟩ }) t with ⟨e, he, hask⟩ | ⟨hgrant, hask⟩
  · rw [hask]
    exact Or.inl ⟨by rw [he]; exact Option.some_ne_none e, rfl, rfl, rfl⟩
  · rw [hask]
    exact Or.inr ⟨hgrant, rfl, rfl, rfl⟩

/-- The system call touches nothing of the task but its policy, `errno` and the requests. -/
theorem Kernel.setMempolicy_frame (k : Kernel) (policy : Nat) (nmask : List Word) (maxnode : Nat)
    (t : Task g) : (k.setMempolicy policy nmask maxnode t).2 =
      { t with
        policy := (k.setMempolicy policy nmask maxnode t).2.policy
        errno := (k.setMempolicy policy nmask maxnode t).2.errno
        requests := (k.setMempolicy policy nmask maxnode t).2.requests } := by
  unfold Kernel.setMempolicy
  rcases k.ask_cases (.setMempolicy policy nmask maxnode)
    (fun t => { t with policy := ⟨policy, k.readNodes nmask maxnode⟩ }) t with ⟨e, -, hask⟩ | ⟨-, hask⟩
  · rw [hask]
  · rw [hask]

theorem Kernel.bits_fill (bmp : Bitmask) (nodes : Finset Nat) :
    (Kernel.fill bmp nodes).bits = nodes.filter (· < bmp.size) := by
  apply Finset.ext
  intro i
  rw [Bitmask.mem_bits, Finset.mem_filter, Kernel.fill, Words.bit_ofBits (by decide)]
  have hstore := bmp.size_le_storage
  simp only [Bool.and_eq_true, decide_eq_true_eq]
  exact ⟨fun h => ⟨h.2.2, h.1⟩, fun h => ⟨h.2, by omega, h.1⟩⟩

theorem Kernel.getMempolicy_eq (current : MemPolicy) (bmp : Bitmask) (h : k.nrNodeIds ≤ bmp.size)
    (t : Task g) : k.getMempolicy current bmp t = (some (current.policy, Kernel.fill bmp current.nodes), t) :=
  if_neg (Nat.not_lt.mpr h)

theorem Kernel.Keeps.getpol_eq (hk : k.Keeps g) (oldpolicy : Nat) (bmp : Bitmask)
    (hsize : bmp.size = g.nodemaskSz) (t : Task g) :
    getpol k oldpolicy bmp t = ((t.policy.policy, Kernel.fill bmp t.policy.nodes), t) := by
  rw [getpol, Kernel.getMempolicy_eq t.policy bmp (hsize ▸ hk.fits)]

theorem setpol_cases (k : Kernel) (policy : Nat) (bmp : Bitmask) (t : Task g) :
    ((setpol k policy bmp t).errors = t.errors ++ ["set_mempolicy"] ∧
      (setpol k policy bmp t).policy = t.policy) ∨
    (k.refusal (t.requests ++ [.setMempolicy policy bmp.maskp bmp.size]) = none ∧
      (setpol k policy bmp t).errors = t.errors ∧
      (setpol k policy bmp t).policy = ⟨policy, k.readNodes bmp.maskp bmp.size⟩) := by
  unfold setpol
  rcases k.setMempolicy_cases policy bmp.maskp bmp.size t with
    ⟨-, hret, hpolicy, herrors⟩ | ⟨hgrant, hret, hpolicy, herrors⟩
  · refine Or.inl ?_
    simp [hret, numaError, hpolicy, herrors]
  · refine Or.inr ?_
    simp [hret, hpolicy, herrors, hgrant]

/-- Where `setpol` reports nothing, the policy is the one it was given, with nodes the kernel has. -/
theorem Kernel.Keeps.setpol_of_success (hk : k.Keeps g) {policy : Nat} {bmp : Bitmask} {t : Task g}
    (h : (setpol k policy bmp t).errors = t.errors) :
    (setpol k policy bmp t).policy = ⟨policy, bmp.bits⟩ ∧ ∀ i ∈ bmp.bits, i < k.nrNodeIds := by
  rcases setpol_cases k policy bmp t with ⟨herrors, -⟩ | ⟨hgrant, -, hpolicy⟩
  · rw [herrors] at h
    simp at h
  · rw [← hk.readNodes_eq bmp]
    exact ⟨hpolicy, hk.granted_lt _ _ _ _ hgrant⟩

/-! ### The probe -/

theorem Kernel.Keeps.memsAllowed_eq (hk : k.Keeps g) (t : Task g) :
    numaGetMemsAllowed k t = (Kernel.fill g.numaAllocateNodemask (k.memsAllowed t.requests), t) := by
  rw [numaGetMemsAllowed, Kernel.getMempolicy_eq _ g.numaAllocateNodemask hk.fits]

/-- What the system call keeps, whatever it is asked, the probe keeps, if it does not depend on `errno` and
the answer of the probe. -/
theorem Kernel.Keeps.setPreferredMany_rule (hk : k.Keeps g) {P : Task g → Prop}
    (hset : ∀ policy words n t, P t → P (k.setMempolicy policy words n t).2)
    (hframe : ∀ t e many, P t → P { t with errno := e, hasPreferredMany := many }) {t : Task g} (ht : P t) :
    P (setPreferredMany k t) := by
  unfold setPreferredMany
  split
  · exact ht
  · rw [hk.memsAllowed_eq]
    dsimp only
    rw [Kernel.getMempolicy_eq _ g.numaAllocateNodemask hk.fits]
    dsimp only
    have hprobe := hset mpolPreferredMany
      (Kernel.fill g.numaAllocateNodemask (k.memsAllowed t.requests)).maskp
      (Kernel.fill g.numaAllocateNodemask (k.memsAllowed t.requests)).size _
      (hframe t t.errno (some false) ht)
    split
    · exact hframe _ _ _ (hset _ _ _ _ (hframe _ _ _ hprobe))
    · exact hframe _ _ _ hprobe

theorem Kernel.Keeps.errors_setPreferredMany (hk : k.Keeps g) (t : Task g) :
    (setPreferredMany k t).errors = t.errors :=
  hk.setPreferredMany_rule (P := fun s => s.errors = t.errors)
    (fun policy words n s hs => (congrArg Task.errors (k.setMempolicy_frame policy words n s)).trans hs)
    (fun _ _ _ hs => hs) rfl

/-! ### Setters -/

/-- One node at most is preferred, so nothing is reported before the system call. -/
theorem numaSetPreferred_eq (k : Kernel) (node : Int) (t : Task g) :
    numaSetPreferred k node t =
      setpol k
        (if numaBitmaskWeight (numaBitmaskSetbit g.numaAllocateNodemask (BitVec.ofInt 32 node).toNat) ≠ 0
          then mpolPreferred else mpolLocal)
        (numaBitmaskSetbit g.numaAllocateNodemask (BitVec.ofInt 32 node).toNat) t := by
  have hzero : g.numaAllocateNodemask.bits = ∅ := bits_zeroBitmask _
  have hone : ¬1 < numaBitmaskWeight
      (numaBitmaskSetbit g.numaAllocateNodemask (BitVec.ofInt 32 node).toNat) := by
    rw [numaBitmaskWeight_eq, bits_numaBitmaskSetbit, hzero, Finset.empty_union, Nat.not_lt]
    exact Finset.card_filter_le _ _
  unfold numaSetPreferred setPreferred
  dsimp only
  rw [if_neg hone]

/-- The setters of the task's policy. -/
inductive PolicyCall where
  | membind (bmp : Bitmask)
  | membindBalancing (bmp : Bitmask)
  | interleaveMask (bmp : Bitmask)
  | weightedInterleaveMask (bmp : Bitmask)
  | preferred (node : Int)
  | preferredMany (bmp : Bitmask)
  | localalloc

namespace PolicyCall

def run (k : Kernel) (t : Task g) : PolicyCall → Task g
  | membind bmp => numaSetMembindV2 k bmp t
  | membindBalancing bmp => numaSetMembindBalancing k bmp t
  | interleaveMask bmp => numaSetInterleaveMaskV2 k bmp t
  | weightedInterleaveMask bmp => numaSetWeightedInterleaveMask k bmp t
  | preferred node => numaSetPreferred k node t
  | preferredMany bmp => numaSetPreferredMany k bmp t
  | localalloc => numaSetLocalalloc k t

/-- The call reports no error. -/
def Succeeds (k : Kernel) (t : Task g) (c : PolicyCall) : Prop := (c.run k t).errors = t.errors

/-- The kernel grants the bind with the balancing flag. -/
def FlagGranted (k : Kernel) (t : Task g) (bmp : Bitmask) : Prop :=
  k.refusal (t.requests ++ [.setMempolicy balancedBind bmp.maskp (bmp.size + 1)]) = none

/-- The nodes memory is bound to after a call, as `numa_get_membind` is to report them. -/
def boundNodes (g : Globals) : Option PolicyCall → Finset Nat
  | some (membind bmp) => bmp.bits
  | some (membindBalancing bmp) => bmp.bits
  | _ => g.numaAllNodesPtr.bits

theorem policy_membind (hk : k.Keeps g) {t : Task g} {bmp : Bitmask} (h : Succeeds k t (membind bmp)) :
    ((membind bmp).run k t).policy = ⟨mpolBind, bmp.bits⟩ ∧ ∀ i ∈ bmp.bits, i < k.nrNodeIds :=
  hk.setpol_of_success h

theorem policy_flagGranted {t : Task g} {bmp : Bitmask} (h : FlagGranted k t bmp) :
    ((membindBalancing bmp).run k t).policy.policy = balancedBind := by
  rcases k.setMempolicy_cases balancedBind bmp.maskp (bmp.size + 1) t with
    ⟨hrefused, -⟩ | ⟨-, hret, hpolicy, -⟩
  · exact absurd h hrefused
  · simp [run, numaSetMembindBalancing, hret, hpolicy]

/-- Without the flag granted, success means that the call without it was made. -/
theorem policy_flagRefused (hk : k.Keeps g) {t : Task g} {bmp : Bitmask} (hflag : ¬FlagGranted k t bmp)
    (h : Succeeds k t (membindBalancing bmp)) :
    ((membindBalancing bmp).run k t).policy = ⟨mpolBind, bmp.bits⟩ ∧ ∀ i ∈ bmp.bits, i < k.nrNodeIds := by
  rcases k.setMempolicy_cases balancedBind bmp.maskp (bmp.size + 1) t with
    ⟨-, hret, -, herrors⟩ | ⟨hgranted, -⟩
  · simp only [Succeeds, run, numaSetMembindBalancing, hret, if_false, Bool.false_eq_true] at h ⊢
    split at h
    · next herrno =>
      rw [if_pos herrno]
      exact hk.setpol_of_success (h.trans herrors.symm)
    · simp [numaError, herrors] at h
  · exact absurd hgranted hflag

/-- A successful call of another setter leaves a policy that is not the plain bind. -/
theorem policy_ne_bind (hk : k.Keeps g) {t : Task g} {c : PolicyCall} (h : Succeeds k t c)
    (hmembind : ∀ bmp, c ≠ membind bmp) (hbalancing : ∀ bmp, c ≠ membindBalancing bmp) :
    (c.run k t).policy.policy ≠ mpolBind := by
  have hsetpol : ∀ {policy bmp} {s : Task g}, policy ≠ mpolBind →
      (setpol k policy bmp s).errors = s.errors → (setpol k policy bmp s).policy.policy ≠ mpolBind := by
    intro policy bmp s hne hs
    rw [(hk.setpol_of_success hs).1]
    exact hne
  have hpreferred : ∀ {node : Int} {s : Task g}, (numaSetPreferred k node s).errors = s.errors →
      (numaSetPreferred k node s).policy.policy ≠ mpolBind := by
    intro node s hs
    rw [numaSetPreferred_eq] at hs ⊢
    exact hsetpol (by split <;> decide) hs
  cases c with
  | membind bmp => exact absurd rfl (hmembind bmp)
  | membindBalancing bmp => exact absurd rfl (hbalancing bmp)
  | interleaveMask bmp =>
      simp only [Succeeds, run, numaSetInterleaveMaskV2] at h ⊢
      split at h
      · next heq =>
        rw [if_pos heq]
        exact hsetpol (by decide) h
      · next hne =>
        rw [if_neg hne]
        exact hsetpol (by decide) h
  | weightedInterleaveMask bmp =>
      simp only [Succeeds, run, numaSetWeightedInterleaveMask] at h ⊢
      split at h
      · next heq =>
        rw [if_pos heq]
        exact hsetpol (by decide) h
      · next hne =>
        rw [if_neg hne]
        exact hsetpol (by decide) h
  | preferred node => exact hpreferred h
  | preferredMany bmp =>
      simp only [Succeeds, run, numaSetPreferredMany] at h ⊢
      have herrors := hk.errors_setPreferredMany t
      split at h
      · next hmany =>
        rw [if_pos hmany]
        exact hsetpol (by decide) (h.trans herrors.symm)
      · next hmany =>
        rw [if_neg hmany]
        exact hpreferred (h.trans herrors.symm)
  | localalloc => exact hsetpol (by decide) h

/-! ### numa_get_membind -/

/-- `numa_get_membind` reports the nodes kept with a plain bind, and all nodes with every other policy. -/
theorem bits_numaGetMembindV2 (hsize : k.nrNodeIds ≤ g.nodemaskSz) (t : Task g) :
    (numaGetMembindV2 k t).1.bits =
      if t.policy.policy = mpolBind then t.policy.nodes.filter (· < g.nodemaskSz)
      else g.numaAllNodesPtr.bits := by
  have hfits : g.numaAllNodesPtr.FitsIn g.nodemaskSz := g.all_nodes_size ▸ Bitmask.fitsIn_size _
  rw [numaGetMembindV2, getpol, Kernel.getMempolicy_eq t.policy g.numaAllocateNodemask hsize]
  by_cases hbind : t.policy.policy = mpolBind
  · simp only [hbind, ne_eq, not_true_eq_false, if_false, if_true]
    exact Kernel.bits_fill _ _
  · simp only [hbind, ne_eq, not_false_eq_true, if_false, if_true]
    exact hfits.bits_copy rfl

/-- A bind to nodes the kernel has is reported as it was asked for. -/
theorem bits_numaGetMembindV2_bind (hk : k.Keeps g) {t : Task g} {X : Finset Nat}
    (ht : t.policy = ⟨mpolBind, X⟩ ∧ ∀ i ∈ X, i < k.nrNodeIds) : (numaGetMembindV2 k t).1.bits = X := by
  rw [bits_numaGetMembindV2 hk.fits, ht.1, if_pos rfl]
  exact Finset.filter_true_of_mem fun i hi => (ht.2 i hi).trans_le hk.fits

/-- One successful call: the getter reports its nodes, except that a bind with the flag granted counts as
no bind. -/
theorem bits_numaGetMembindV2_run (hk : k.Keeps g) {t : Task g} {c : PolicyCall} (h : Succeeds k t c) :
    (numaGetMembindV2 k (c.run k t)).1.bits = boundNodes g (some c) ↔
      ∀ bmp, c = membindBalancing bmp → FlagGranted k t bmp → bmp.bits = g.numaAllNodesPtr.bits := by
  have hother : (c.run k t).policy.policy ≠ mpolBind →
      (numaGetMembindV2 k (c.run k t)).1.bits = g.numaAllNodesPtr.bits := by
    intro hne
    rw [bits_numaGetMembindV2 hk.fits, if_neg hne]
  have hnone : (∀ bmp, c ≠ membind bmp) → (∀ bmp, c ≠ membindBalancing bmp) →
      boundNodes g (some c) = g.numaAllNodesPtr.bits →
      ((numaGetMembindV2 k (c.run k t)).1.bits = boundNodes g (some c) ↔
        ∀ bmp, c = membindBalancing bmp → FlagGranted k t bmp → bmp.bits = g.numaAllNodesPtr.bits) := by
    intro hmembind hbalancing hbound
    rw [hbound, hother (policy_ne_bind hk h hmembind hbalancing)]
    exact iff_of_true rfl fun bmp heq => absurd heq (hbalancing bmp)
  cases c with
  | membind bmp =>
      exact iff_of_true (bits_numaGetMembindV2_bind hk (policy_membind hk h)) fun bmp' heq => by cases heq
  | membindBalancing bmp =>
      by_cases hflag : FlagGranted k t bmp
      · have hpolicy := policy_flagGranted hflag
        rw [hother (by rw [hpolicy]; decide)]
        refine ⟨fun heq bmp' hbmp _ => ?_, fun heq => (heq bmp rfl hflag).symm⟩
        cases hbmp
        exact heq.symm
      · refine iff_of_true (bits_numaGetMembindV2_bind hk (policy_flagRefused hk hflag h)) ?_
        intro bmp' hbmp hgranted
        cases hbmp
        exact absurd hgranted hflag
  | interleaveMask bmp => exact hnone (by simp) (by simp) rfl
  | weightedInterleaveMask bmp => exact hnone (by simp) (by simp) rfl
  | preferred node => exact hnone (by simp) (by simp) rfl
  | preferredMany bmp => exact hnone (by simp) (by simp) rfl
  | localalloc => exact hnone (by simp) (by simp) rfl

/-- After a history of successful calls `numa_get_membind` reports the nodes of the last call, if that was a
bind, and all nodes otherwise, exactly unless the last call bound memory to fewer nodes with the balancing
flag granted. A task that has made no call must not have inherited a bind. -/
theorem reports_bound_iff (hk : k.Keeps g) (start : Task g) (calls : List PolicyCall)
    (hstart : calls = [] → start.policy.policy ≠ mpolBind)
    (hsucceed : Along (run k) start calls (Succeeds k)) :
    (numaGetMembindV2 k (after (run k) start calls)).1.bits = boundNodes g calls.getLast? ↔
      ∀ pre bmp, calls = pre ++ [membindBalancing bmp] → FlagGranted k (after (run k) start pre) bmp →
        bmp.bits = g.numaAllNodesPtr.bits := by
  rcases List.eq_nil_or_concat calls with rfl | ⟨pre, last, rfl⟩
  · rw [Runs.after_nil, bits_numaGetMembindV2 hk.fits, if_neg (hstart rfl)]
    exact iff_of_true rfl fun pre bmp heq => by simp at heq
  · rw [List.concat_eq_append] at hsucceed ⊢
    rw [Runs.after_concat, List.getLast?_concat, bits_numaGetMembindV2_run hk hsucceed.last]
    refine ⟨fun h pre' bmp heq hflag => ?_, fun h bmp heq hflag => h pre bmp (by rw [heq]) hflag⟩
    obtain ⟨rfl, hlast⟩ := List.append_inj' heq rfl
    exact h bmp (List.singleton_inj.mp hlast) hflag

theorem reports_bound_membind :
    (numaGetMembindV2 plainKernel (after (run plainKernel) (Task.initial gapGlobals)
      [interleaveMask gapGlobals.numaAllNodesPtr, membind (numaBitmaskSetbit (zeroBitmask 64) 2)])).1.bits =
        {2} := by
  have hsucceed : Along (run plainKernel) (Task.initial gapGlobals)
      [interleaveMask gapGlobals.numaAllNodesPtr, membind (numaBitmaskSetbit (zeroBitmask 64) 2)]
      (Succeeds plainKernel) := by
    simp only [Runs.along_cons, Runs.along_nil, and_true, Succeeds]
    exact ⟨by decide +kernel, by decide +kernel⟩
  have hnode : (numaBitmaskSetbit (zeroBitmask 64) 2).bits = {2} := by decide +kernel
  have h := (reports_bound_iff plainKernel_keeps _ _ (fun h => by cases h) hsucceed).mpr
    fun pre bmp heq => by
      have hlast := congrArg List.getLast? heq
      simp at hlast
  exact h.trans hnode

/-- Memory is bound to node 0 of the nodes 0 and 2 with the flag granted: the getter reports both. -/
theorem balancing_reported_as_all :
    Succeeds plainKernel (Task.initial gapGlobals)
        (membindBalancing (numaBitmaskSetbit (zeroBitmask 64) 0)) ∧
      (numaGetMembindV2 plainKernel (after (run plainKernel) (Task.initial gapGlobals)
        [membindBalancing (numaBitmaskSetbit (zeroBitmask 64) 0)])).1.bits ≠
          boundNodes gapGlobals (some (membindBalancing (numaBitmaskSetbit (zeroBitmask 64) 0))) :=
  ⟨by unfold Succeeds; decide +kernel, by decide +kernel⟩

/-! ### numa_preferred_many -/

/-- The kernel has all nodes of the task's policy. -/
def NodesExist (k : Kernel) (t : Task g) : Prop := ∀ i ∈ t.policy.nodes, i < k.nrNodeIds

theorem nodesExist_setMempolicy (hk : k.Keeps g) {t : Task g} (policy : Nat) (nmask : List Word)
    (maxnode : Nat) (ht : NodesExist k t) : NodesExist k (k.setMempolicy policy nmask maxnode t).2 := by
  unfold NodesExist
  rcases k.setMempolicy_cases policy nmask maxnode t with ⟨-, -, hpolicy, -⟩ | ⟨hgrant, -, hpolicy, -⟩
  · rw [hpolicy]
    exact ht
  · rw [hpolicy]
    exact hk.granted_lt _ _ _ _ hgrant

theorem nodesExist_setpol (hk : k.Keeps g) {t : Task g} (policy : Nat) (bmp : Bitmask)
    (ht : NodesExist k t) : NodesExist k (setpol k policy bmp t) := by
  have h := nodesExist_setMempolicy hk policy bmp.maskp bmp.size ht
  unfold setpol
  dsimp only
  split
  · exact h
  · exact h

/-- Every setter, whether it succeeds or not, leaves a policy with nodes the kernel has. -/
theorem nodesExist_run (hk : k.Keeps g) {t : Task g} (c : PolicyCall) (ht : NodesExist k t) :
    NodesExist k (c.run k t) := by
  have hpreferred : ∀ (node : Int) {s : Task g}, NodesExist k s → NodesExist k (numaSetPreferred k node s) := by
    intro node s hs
    rw [numaSetPreferred_eq]
    exact nodesExist_setpol hk _ _ hs
  cases c with
  | membind bmp => exact nodesExist_setpol hk _ _ ht
  | membindBalancing bmp =>
      have h := nodesExist_setMempolicy hk balancedBind bmp.maskp (bmp.size + 1) ht
      simp only [run, numaSetMembindBalancing]
      split
      · exact h
      · split
        · exact nodesExist_setpol hk mpolBind bmp h
        · exact h
  | interleaveMask bmp =>
      simp only [run, numaSetInterleaveMaskV2]
      split
      · exact nodesExist_setpol hk _ _ ht
      · exact nodesExist_setpol hk _ _ ht
  | weightedInterleaveMask bmp =>
      simp only [run, numaSetWeightedInterleaveMask]
      split
      · exact nodesExist_setpol hk _ _ ht
      · exact nodesExist_setpol hk _ _ ht
  | preferred node => exact hpreferred node ht
  | preferredMany bmp =>
      have h : NodesExist k (setPreferredMany k t) :=
        hk.setPreferredMany_rule (fun _ _ _ _ hs => nodesExist_setMempolicy hk _ _ _ hs)
          (fun _ _ _ hs => hs) ht
      simp only [run, numaSetPreferredMany]
      split
      · exact nodesExist_setpol hk _ _ h
      · exact hpreferred _ h
  | localalloc => exact nodesExist_setpol hk _ _ ht

end PolicyCall

/-- The modes that prefer nodes, as the manual lists them. -/
def MemPolicy.IsPreference (p : MemPolicy) : Prop :=
  p.mode = mpolPreferred ∨ p.mode = mpolPreferredMany ∨ p.mode = mpolBind

instance (p : MemPolicy) : Decidable p.IsPreference := inferInstanceAs (Decidable (_ ∨ _ ∨ _))

/-- The nodes a policy prefers. -/
def MemPolicy.preferredNodes (p : MemPolicy) : Finset Nat := if p.IsPreference then p.nodes else ∅

/-- The least number of a set, `d` if there is none. -/
def lowestOr (d : Int) (X : Finset Nat) : Int := if h : X.Nonempty then X.min' h else d

/-- The three getters report the nodes the policy prefers. -/
def PreferredReported (k : Kernel) (t : Task g) : Prop :=
  (numaPreferredMany k t).1.bits = t.policy.preferredNodes ∧
    (numaPreferredErr k t).1 = lowestOr (-1) t.policy.preferredNodes ∧
    (numaPreferred k t).1 = lowestOr 0 t.policy.preferredNodes

theorem numaFindFirst_eq_lowestOr (bmp : Bitmask) : numaFindFirst bmp = lowestOr (-1) bmp.bits := by
  unfold lowestOr
  split
  · next h =>
    exact (numaFindFirst_eq_natCast bmp).mpr ⟨bmp.bits.min'_mem h, fun j hj => bmp.bits.min'_le j hj⟩
  · next h => exact (numaFindFirst_eq_neg_one bmp).mpr (Finset.not_nonempty_iff_eq_empty.mp h)

/-- The helper returns the nodes of the policy whatever its mode is. -/
theorem bits_preferred (hk : k.Keeps g) {t : Task g} (ht : ∀ i ∈ t.policy.nodes, i < k.nrNodeIds) :
    (preferred k t).1.bits = t.policy.nodes := by
  have hsize : (numaBitmaskClearall g.numaAllocateNodemask).size = g.nodemaskSz :=
    size_clearall g.numaAllocateNodemask
  have hfill : (Kernel.fill (numaBitmaskClearall g.numaAllocateNodemask) t.policy.nodes).bits =
      t.policy.nodes := by
    rw [Kernel.bits_fill, hsize]
    exact Finset.filter_true_of_mem fun i hi => (ht i hi).trans_le hk.fits
  unfold preferred
  rw [hk.getpol_eq 0 (numaBitmaskClearall g.numaAllocateNodemask) hsize]
  dsimp only
  split
  · exact hfill
  · split
    · exact hfill
    · exact hfill

/-- In every state the setters lead to, the three getters report the nodes the policy prefers exactly when
it prefers any or has none. -/
theorem preferredReported_iff (hk : k.Keeps g) (start : Task g)
    (hstart : ∀ i ∈ start.policy.nodes, i < k.nrNodeIds) (calls : List PolicyCall) :
    PreferredReported k (after (PolicyCall.run k) start calls) ↔
      (after (PolicyCall.run k) start calls).policy.IsPreference ∨
        (after (PolicyCall.run k) start calls).policy.nodes = ∅ := by
  have hnodes : PolicyCall.NodesExist k (after (PolicyCall.run k) start calls) :=
    Runs.invariant_rule hstart (fun t c ht => PolicyCall.nodesExist_run hk c ht) calls
  generalize after (PolicyCall.run k) start calls = t at hnodes ⊢
  have hbits := bits_preferred hk hnodes
  have herr : (numaPreferredErr k t).1 = lowestOr (-1) t.policy.nodes := by
    rw [← hbits]
    exact numaFindFirst_eq_lowestOr _
  have hzero : (numaPreferred k t).1 = lowestOr 0 t.policy.nodes := by
    unfold numaPreferred
    dsimp only
    rw [herr]
    unfold lowestOr
    split
    · exact if_pos (Int.natCast_nonneg _)
    · rfl
  refine ⟨fun h => ?_, fun h => ?_⟩
  · by_cases hpref : t.policy.IsPreference
    · exact Or.inl hpref
    · refine Or.inr (hbits.symm.trans ?_)
      have hmany := h.1
      rwa [MemPolicy.preferredNodes, if_neg hpref] at hmany
  · have heq : t.policy.preferredNodes = t.policy.nodes := by
      unfold MemPolicy.preferredNodes
      rcases h with hpref | hempty
      · exact if_pos hpref
      · rw [hempty, ite_self]
    refine ⟨?_, ?_, ?_⟩
    · rw [heq]
      exact hbits
    · rw [heq]
      exact herr
    · rw [heq]
      exact hzero

theorem preferredReported_balancing : PreferredReported plainKernel
    (after (PolicyCall.run plainKernel) (Task.initial gapGlobals)
      [.membindBalancing gapGlobals.numaAllNodesPtr]) :=
  (preferredReported_iff plainKernel_keeps (Task.initial gapGlobals)
    (fun i hi => absurd hi (Finset.notMem_empty i)) _).mpr
    (Or.inl (by decide +kernel))

/-- Memory is interleaved over the nodes 0 and 2: both are reported as preferred. -/
theorem not_preferredReported_interleave : ¬PreferredReported plainKernel
    (after (PolicyCall.run plainKernel) (Task.initial gapGlobals)
      [.interleaveMask gapGlobals.numaAllNodesPtr]) := by
  intro h
  have hmany := h.1
  revert hmany
  decide +kernel

end Numactl
