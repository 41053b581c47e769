import Numactl.PolicyHistory

/-! What the library's calls ask of the kernel, and what of the task they leave alone. The requests of a
call are appended to those made before it; everything else a call touches is named by its frame. -/

namespace Numactl

variable {g : Globals} {k : Kernel}

/-! ### One system call -/

theorem Kernel.requests_ask (k : Kernel) (req : Request) (granted : Task g → Task g)
    (h : ∀ s, (granted s).requests = s.requests) (t : Task g) :
    (k.ask req granted t).2.requests = t.requests ++ [req] := by
  rcases k.ask_cases req granted t with ⟨e, -, hask⟩ | ⟨-, hask⟩
  · rw [hask]
  · rw [hask]
    exact h _

theorem Kernel.requests_setMempolicy (k : Kernel) (policy : Nat) (words : List Word) (n : Nat) (t : Task g) :
    (k.setMempolicy policy words n t).2.requests = t.requests ++ [.setMempolicy policy words n] := by
  refine k.requests_ask _ _ ?_ t
  exact fun _ => rfl

theorem requests_setpol (policy : Nat) (bmp : Bitmask) (t : Task g) :
    (setpol k policy bmp t).requests = t.requests ++ [.setMempolicy policy bmp.maskp bmp.size] := by
  have h := k.requests_setMempolicy policy bmp.maskp bmp.size t
  unfold setpol
  dsimp only
  split
  · exact h
  · exact h

/-- Setting the task's policy touches it, `errno`, the errors reported and the requests. -/
theorem setpol_frame (policy : Nat) (bmp : Bitmask) (t : Task g) :
    setpol k policy bmp t =
      { t with
        policy := (setpol k policy bmp t).policy
        errno := (setpol k policy bmp t).errno
        errors := (setpol k policy bmp t).errors
        requests := (setpol k policy bmp t).requests } := by
  unfold setpol
  dsimp only
  split
  · rw [k.setMempolicy_frame]
  · rw [k.setMempolicy_frame]
    rfl

/-- The request `dombind` makes for a mask. -/
def bindRequest (mem size pol : Nat) (bmp : Bitmask) (t : Task g) : Request :=
  .mbind mem size pol (some bmp.maskp) bmp.size t.mbindFlags

theorem requests_dombind (mem size pol : Nat) (bmp : Bitmask) (t : Task g) :
    (dombind k mem size pol (some bmp) t).2.requests = t.requests ++ [bindRequest mem size pol bmp t] := by
  have h : (k.mbind mem size pol (some bmp.maskp) bmp.size t.mbindFlags t).2.requests =
      t.requests ++ [bindRequest mem size pol bmp t] := by
    refine k.requests_ask _ _ ?_ t
    exact fun _ => rfl
  unfold dombind
  dsimp only [Option.map_some, Option.elim_some]
  split
  · exact h
  · exact h

/-- Binding memory touches its policy, `errno`, the errors reported and the requests. -/
theorem dombind_frame (mem size pol : Nat) (bmp : Option Bitmask) (t : Task g) :
    (dombind k mem size pol bmp t).2 =
      { t with
        pages := (dombind k mem size pol bmp t).2.pages
        errno := (dombind k mem size pol bmp t).2.errno
        errors := (dombind k mem size pol bmp t).2.errors
        requests := (dombind k mem size pol bmp t).2.requests } := by
  unfold dombind Kernel.mbind
  dsimp only
  rcases k.ask_cases (.mbind mem size pol (bmp.map Bitmask.maskp) (bmp.elim 0 Bitmask.size) t.mbindFlags)
    (fun t => { t with
      pages := fun a => if mem ≤ a ∧ a < mem + size then
        ⟨pol, (bmp.map Bitmask.maskp).elim ∅ fun words => k.readNodes words (bmp.elim 0 Bitmask.size)⟩
        else t.pages a }) t with ⟨e, -, hask⟩ | ⟨-, hask⟩
  · rw [hask]
    rfl
  · rw [hask]
    rfl

theorem requests_dombindOrFree (mem size pol : Nat) (bmp : Bitmask) (t : Task g) :
    ∃ rest, (dombindOrFree k mem size pol (some bmp) t).2.requests =
      t.requests ++ [bindRequest mem size pol bmp t] ++ rest := by
  have h := requests_dombind (k := k) mem size pol bmp t
  unfold dombindOrFree
  dsimp only
  split
  · refine ⟨[.munmap mem size], ?_⟩
    rw [k.requests_ask (.munmap mem size) id (fun _ => rfl), h]
  · exact ⟨[], by rw [h, List.append_nil]⟩

/-! ### The probe -/

theorem errno_setPreferredMany (k : Kernel) (t : Task g) : (setPreferredMany k t).errno = t.errno := by
  unfold setPreferredMany
  split
  · rfl
  · dsimp only
    split
    · rfl
    · split
      · rfl
      · rfl

/-- The request of the probe: `MPOL_PREFERRED_MANY` with the nodes allowed. -/
def probeRequest (k : Kernel) (t : Task g) : Request :=
  .setMempolicy mpolPreferredMany
    (Kernel.fill g.numaAllocateNodemask (k.memsAllowed t.requests)).maskp g.nodemaskSz

/-- The request that sets the old policy again. -/
def restoreRequest (t : Task g) : Request :=
  .setMempolicy t.policy.policy (Kernel.fill g.numaAllocateNodemask t.policy.nodes).maskp (g.nodemaskSz + 1)

theorem numaGetMemsAllowed_eq (hfits : k.nrNodeIds ≤ g.nodemaskSz) (t : Task g) :
    numaGetMemsAllowed k t = (Kernel.fill g.numaAllocateNodemask (k.memsAllowed t.requests), t) := by
  rw [numaGetMemsAllowed, Kernel.getMempolicy_eq _ g.numaAllocateNodemask hfits]

theorem setPreferredMany_eq (hfits : k.nrNodeIds ≤ g.nodemaskSz) {t : Task g} (h : t.hasPreferredMany = none) :
    setPreferredMany k t =
      let probe := k.setMempolicy mpolPreferredMany
        (Kernel.fill g.numaAllocateNodemask (k.memsAllowed t.requests)).maskp g.nodemaskSz
        { t with hasPreferredMany := some false }
      if probe.1 then
        { (k.setMempolicy t.policy.policy (Kernel.fill g.numaAllocateNodemask t.policy.nodes).maskp
            (g.nodemaskSz + 1) { probe.2 with hasPreferredMany := some true }).2 with errno := t.errno }
      else { probe.2 with errno := t.errno } := by
  unfold setPreferredMany
  rw [if_neg (by rw [h]; exact Bool.false_ne_true), numaGetMemsAllowed_eq hfits]
  dsimp only
  rw [Kernel.getMempolicy_eq _ g.numaAllocateNodemask hfits]
  rfl

theorem setPreferredMany_of_some {t : Task g} {many : Bool} (h : t.hasPreferredMany = some many) :
    setPreferredMany k t = t :=
  if_pos (by rw [h]; rfl)

/-- Without room for the node ids of the kernel, neither the nodes allowed nor the old policy can be read, and
nothing is tried. -/
theorem setPreferredMany_of_lt {t : Task g} (h : t.hasPreferredMany = none)
    (hsmall : g.nodemaskSz < k.nrNodeIds) :
    ∃ errors, setPreferredMany k t = { t with hasPreferredMany := some false, errors := errors } := by
  have hsize : g.numaAllocateNodemask.size < k.nrNodeIds := hsmall
  unfold setPreferredMany numaGetMemsAllowed Kernel.getMempolicy
  rw [if_neg (by rw [h]; exact Bool.false_ne_true)]
  dsimp only
  rw [if_pos hsize]
  dsimp only
  rw [if_pos hsize]
  exact ⟨_, rfl⟩

/-- After the probe it is known whether the policy can be set. -/
theorem isSome_setPreferredMany (k : Kernel) (t : Task g) :
    (setPreferredMany k t).hasPreferredMany.isSome = true := by
  cases h : t.hasPreferredMany with
  | some many =>
      rw [setPreferredMany_of_some h, h]
      rfl
  | none =>
      by_cases hfits : k.nrNodeIds ≤ g.nodemaskSz
      · rw [setPreferredMany_eq hfits h]
        dsimp only
        split
        · rw [k.setMempolicy_frame]
          rfl
        · rw [k.setMempolicy_frame]
          rfl
      · obtain ⟨errors, heq⟩ := setPreferredMany_of_lt h (Nat.lt_of_not_le hfits)
        rw [heq]
        rfl

/-- What the probe asks. -/
theorem requests_setPreferredMany (hfits : k.nrNodeIds ≤ g.nodemaskSz) {t : Task g} (h : t.hasPreferredMany = none) :
    (setPreferredMany k t).requests = t.requests ++ [probeRequest k t] ∧
        k.refusal (t.requests ++ [probeRequest k t]) ≠ none ∨
      (setPreferredMany k t).requests = t.requests ++ [probeRequest k t, restoreRequest t] ∧
        k.refusal (t.requests ++ [probeRequest k t]) = none := by
  rw [setPreferredMany_eq hfits h]
  dsimp only
  rcases k.setMempolicy_cases mpolPreferredMany
    (Kernel.fill g.numaAllocateNodemask (k.memsAllowed t.requests)).maskp g.nodemaskSz
    { t with hasPreferredMany := some false } with ⟨hgrant, hret, -⟩ | ⟨hgrant, hret, -⟩
  · rw [if_neg (by rw [hret]; exact Bool.false_ne_true)]
    exact Or.inl ⟨k.requests_setMempolicy _ _ _ _, hgrant⟩
  · rw [if_pos hret]
    refine Or.inr ⟨?_, hgrant⟩
    dsimp only
    rw [k.requests_setMempolicy]
    dsimp only
    rw [k.requests_setMempolicy, List.append_assoc]
    rfl

/-- The probe is made once. -/
theorem numaHasPreferredMany_of_probed (k : Kernel) {t : Task g} {many : Bool}
    (h : t.hasPreferredMany = some many) : numaHasPreferredMany k t = (many, t) := by
  rw [numaHasPreferredMany, setPreferredMany_of_some h, h]
  rfl

/-- Without `strict`, memory is then bound with the mode that `numa_has_preferred_many` decides between. -/
theorem numaSetBindPolicy_false (k : Kernel) (t : Task g) :
    ∃ many, (numaSetBindPolicy k false t).hasPreferredMany = some many ∧
      (numaSetBindPolicy k false t).bindPolicy = if many then mpolPreferredMany else mpolPreferred := by
  obtain ⟨many, hmany⟩ := Option.isSome_iff_exists.mp (isSome_setPreferredMany k t)
  refine ⟨many, ?_⟩
  unfold numaSetBindPolicy
  cases many with
  | true => simp [hmany]
  | false => simp [hmany]

theorem errno_numaSetBindPolicy (k : Kernel) (strict : Bool) (t : Task g) :
    (numaSetBindPolicy k strict t).errno = t.errno := by
  have h := errno_setPreferredMany k t
  unfold numaSetBindPolicy
  dsimp only
  split
  · exact h
  · split
    · exact h
    · exact h

theorem pages_numaSetBindPolicy {k : Kernel} (hk : k.Keeps g) (strict : Bool) (t : Task g) :
    (numaSetBindPolicy k strict t).pages = t.pages := by
  have h : (setPreferredMany k t).pages = t.pages :=
    hk.setPreferredMany_rule (P := fun s => s.pages = t.pages)
      (fun policy words n s hs => (congrArg Task.pages (k.setMempolicy_frame policy words n s)).trans hs)
      (fun _ _ _ hs => hs) rfl
  unfold numaSetBindPolicy
  dsimp only
  split
  · exact h
  · split
    · exact h
    · exact h

/-! ### CPUs of nodes -/

/-- A loop over a range that only works on the numbers of a set does not see how far the range goes. -/
theorem filter_range_congr {p : Nat → Bool} {a b : Nat} (h : ∀ i, p i = true → i < a ∧ i < b) :
    (List.range a).filter p = (List.range b).filter p := by
  have hshort : ∀ {a b : Nat}, a ≤ b → (∀ i, p i = true → i < a) →
      (List.range a).filter p = (List.range b).filter p := by
    intro a b hab hlt
    induction b with
    | zero => rw [Nat.le_zero.mp hab]
    | succ b ih =>
        obtain rfl | hle := Nat.eq_or_lt_of_le hab
        · rfl
        · have hout : ¬p b = true := fun hb => by
            have := hlt b hb
            omega
          rw [List.range_succ, List.filter_append, List.filter_cons_of_neg hout, List.filter_nil,
            List.append_nil]
          exact ih (by omega)
  obtain hab | hba := Nat.le_total a b
  · exact hshort hab fun i hi => (h i hi).1
  · exact (hshort hba fun i hi => (h i hi).2).symm

/-- The loop visits the nodes of the mask in ascending order. -/
theorem nodeCpusLoop_eq (allowed bmp : Bitmask) (t : Task g) :
    nodeCpusLoop k allowed bmp t =
      ((List.range bmp.size).filter fun i => numaBitmaskIsbitset bmp i).foldl (addNodeCpus k allowed)
        { cpus := g.numaAllocateCpumask, nodecpus := g.numaAllocateCpumask, task := t } := by
  rw [List.foldl_filter]
  unfold nodeCpusLoop
  congr 1
  funext s i
  by_cases hword : bmp.maskp.getD (i / bitsperlong) 0 = 0
  · have hclear : ¬numaBitmaskIsbitset bmp i = true := by
      unfold numaBitmaskIsbitset getbit
      rw [hword]
      split <;> simp
    rw [if_pos hword, if_neg hclear]
  · rw [if_neg hword]

/-- Masks of the same nodes, whatever their lengths, give the same CPUs. -/
theorem nodeCpusLoop_congr (allowed : Bitmask) {bmp bmp' : Bitmask} (h : bmp.bits = bmp'.bits)
    (t : Task g) : nodeCpusLoop k allowed bmp t = nodeCpusLoop k allowed bmp' t := by
  have hset : (fun i => numaBitmaskIsbitset bmp i) = fun i => numaBitmaskIsbitset bmp' i := by
    funext i
    unfold numaBitmaskIsbitset
    rw [getbit_eq_decide, getbit_eq_decide, h]
  rw [nodeCpusLoop_eq, nodeCpusLoop_eq, hset]
  congr 1
  refine filter_range_congr fun i hi => ?_
  have hmem := (numaBitmaskIsbitset_eq_true bmp' i).mp hi
  exact ⟨(Bitmask.mem_bits.mp (h.symm ▸ hmem)).1, (Bitmask.mem_bits.mp hmem).1⟩

/-- The loop over the nodes touches what is cached of their CPUs, and `errno`. -/
theorem nodeCpusLoop_frame (allowed bmp : Bitmask) (t : Task g) :
    (nodeCpusLoop k allowed bmp t).task =
      { t with
        nodeCpus := (nodeCpusLoop k allowed bmp t).task.nodeCpus
        errno := (nodeCpusLoop k allowed bmp t).task.errno } := by
  have hstep : ∀ (s : NodeCpusLoop g) i, (addNodeCpus k allowed s i).task =
      { s.task with
        nodeCpus := (addNodeCpus k allowed s i).task.nodeCpus
        errno := (addNodeCpus k allowed s i).task.errno } := by
    intro s i
    unfold addNodeCpus
    dsimp only
    split
    · split
      · rfl
      · rfl
    · rfl
  rw [nodeCpusLoop_eq]
  generalize (List.range bmp.size).filter _ = is
  generalize hs : (NodeCpusLoop.mk g.numaAllocateCpumask g.numaAllocateCpumask t) = s
  obtain rfl : s.task = t := by rw [← hs]
  clear hs
  induction is generalizing s with
  | nil => rfl
  | cons i is ih =>
      rw [List.foldl_cons, ih]
      conv_lhs => rw [hstep]

/-- An affinity call touches `errno` and the requests. -/
theorem Kernel.schedSetaffinity_frame (k : Kernel) (pid len : Nat) (mask : List Word) (t : Task g) :
    (k.schedSetaffinity pid len mask t).2 =
      { t with
        errno := (k.schedSetaffinity pid len mask t).2.errno
        requests := (k.schedSetaffinity pid len mask t).2.requests } := by
  unfold Kernel.schedSetaffinity
  rcases k.ask_cases (.schedSetaffinity pid len mask) id t with ⟨e, -, hask⟩ | ⟨-, hask⟩
  · rw [hask]
  · rw [hask]
    rfl

/-- Running on nodes touches that, the errors reported and the requests. -/
theorem runOnNodeMask_frame (allowed bmp : Bitmask) (t : Task g) :
    (runOnNodeMask k allowed bmp t).2 =
      { t with
        nodeCpus := (runOnNodeMask k allowed bmp t).2.nodeCpus
        errno := (runOnNodeMask k allowed bmp t).2.errno
        errors := (runOnNodeMask k allowed bmp t).2.errors
        requests := (runOnNodeMask k allowed bmp t).2.requests } := by
  obtain ⟨nodeCpus, e, htask⟩ : ∃ nodeCpus e, (nodeCpusLoop k allowed bmp t).task =
      { t with nodeCpus := nodeCpus, errno := e } := ⟨_, _, nodeCpusLoop_frame allowed bmp t⟩
  unfold runOnNodeMask
  dsimp only
  rw [htask]
  split
  · rw [k.schedSetaffinity_frame]
  · rw [k.schedSetaffinity_frame]
    rfl

theorem requests_runOnNodeMask (allowed bmp : Bitmask) (t : Task g) :
    (runOnNodeMask k allowed bmp t).2.requests = t.requests ++
      [.schedSetaffinity 0 (numaBitmaskNbytes (nodeCpusLoop k allowed bmp t).cpus)
        (nodeCpusLoop k allowed bmp t).cpus.maskp] := by
  have hask : ∀ req, (k.ask req id (nodeCpusLoop k allowed bmp t).task).2.requests = t.requests ++ [req] := by
    intro req
    rw [k.requests_ask req id fun _ => rfl, nodeCpusLoop_frame]
  unfold runOnNodeMask Kernel.schedSetaffinity
  dsimp only
  split
  · exact hask _
  · exact hask _

end Numactl
