import Numactl.Launch
import Numactl.PolicyFrame
import Numactl.RunNodes

/-! The CPUs a command may run on (`--cpunodebind`, `--physcpubind`, `numa_run_on_node_mask_all` and
`numa_run_on_node` in `libnuma.c`). Only calls of `sched_setaffinity` bind CPUs; what they leave alone and what
leaves them alone is said once, for every property of a task that the policy calls keep. -/

namespace Numactl

open Runs (bind_eq_ok pure_eq_ok)

variable {g : Globals} {k : Kernel}

/-- An accepted option that neither sets a policy nor binds CPUs sets the flags for memory at most. -/
theorem quiet_task {h : Host} {m m' : Main g} {opt : Opt} (hbinds : opt.bindsCpus = false)
    (hsets : opt.setsPolicy = false) (hok : m.step h opt = .ok m') :
    ∃ flags, m'.task = { m.task with mbindFlags := flags } := by
  cases opt with
  | «show» => cases hok
  | hardware =>
      simp only [Main.step, bind_eq_ok, pure_eq_ok] at hok
      obtain ⟨-, -, rfl⟩ := hok
      exact ⟨_, rfl⟩
  | balancing =>
      simp only [Main.step, bind_eq_ok, pure_eq_ok] at hok
      obtain ⟨-, -, rfl⟩ := hok
      exact ⟨_, rfl⟩
  | shm arg =>
      obtain ⟨-, r, -, rfl⟩ := Main.attach_ok hok
      exact ⟨_, rfl⟩
  | file arg =>
      obtain ⟨-, r, -, rfl⟩ := Main.attach_ok hok
      exact ⟨_, rfl⟩
  | length arg =>
      simp only [Main.step, Main.noshm, bind_eq_ok, pure_eq_ok] at hok
      obtain ⟨-, ⟨-, -, rfl⟩, rfl⟩ := hok
      exact ⟨_, rfl⟩
  | shmmode arg =>
      simp only [Main.step, Main.noshm, bind_eq_ok, pure_eq_ok] at hok
      obtain ⟨-, ⟨-, -, rfl⟩, shmmode, -, rfl⟩ := hok
      exact ⟨_, rfl⟩
  | dump =>
      simp only [Main.step, bind_eq_ok, pure_eq_ok] at hok
      obtain ⟨-, -, rfl⟩ := hok
      exact ⟨_, rfl⟩
  | dumpNodes =>
      simp only [Main.step, bind_eq_ok, pure_eq_ok] at hok
      obtain ⟨-, -, rfl⟩ := hok
      exact ⟨_, rfl⟩
  | strict =>
      obtain rfl := Except.ok.inj hok
      exact ⟨_, rfl⟩
  | shmid arg =>
      simp only [Main.step, bind_eq_ok, pure_eq_ok] at hok
      obtain ⟨shmid, -, rfl⟩ := hok
      exact ⟨_, rfl⟩
  | huge =>
      simp only [Main.step, Main.noshm, bind_eq_ok, pure_eq_ok] at hok
      obtain ⟨-, ⟨-, -, rfl⟩, rfl⟩ := hok
      exact ⟨_, rfl⟩
  | offset arg =>
      simp only [Main.step, Main.noshm, bind_eq_ok, pure_eq_ok] at hok
      obtain ⟨-, ⟨-, -, rfl⟩, rfl⟩ := hok
      exact ⟨_, rfl⟩
  | touch =>
      simp only [Main.step, bind_eq_ok, pure_eq_ok] at hok
      obtain ⟨-, -, -, -, rfl⟩ := hok
      exact ⟨_, rfl⟩
  | verify =>
      obtain rfl := Main.verify_ok hok
      exact ⟨_, rfl⟩
  | all =>
      simp only [Main.step, bind_eq_ok, pure_eq_ok] at hok
      obtain ⟨-, -, rfl⟩ := hok
      exact ⟨_, rfl⟩
  | cpuCompress =>
      obtain rfl := Except.ok.inj hok
      exact ⟨_, rfl⟩
  | version =>
      simp only [Main.step, bind_eq_ok] at hok
      obtain ⟨-, -, hok⟩ := hok
      cases hok
  | unknown => cases hok
  | cpunodebind arg => cases hbinds
  | physcpubind arg => cases hbinds
  | _ => cases hsets

/-! ### What the options keep -/

/-- Every accepted option keeps the property unless it binds CPUs. -/
theorem PolicyClosed.step {h : Host} {P : Task g → Prop} (hP : PolicyClosed h.kernel P) {m m' : Main g} {opt : Opt}
    (hopt : opt.bindsCpus = false) (hok : m.step h opt = .ok m') (hm : P m.task) : P m'.task := by
  have hinterleave : ∀ {m m' : Main g} {optarg}, P m.task → m.interleave h optarg = .ok m' → P m'.task := by
    intro m m' optarg hm hok
    simp only [Main.interleave, bind_eq_ok, Main.setpolicy_eq_ok, Main.checkerror_eq_ok] at hok
    obtain ⟨-, -, ⟨mask, m1⟩, hparse, m2, ⟨-, rfl⟩, rfl, -⟩ := hok
    obtain ⟨-, s, rfl⟩ := Main.parseMask_eq_ok hparse
    dsimp only [Main.call]
    split
    · exact hP.dombind _ _ _ _ (hP.setErrno 0 hm)
    · split
      · rw [numaSetWeightedInterleaveMask_eq]
        exact hP.setpol _ _ (hP.setErrno 0 hm)
      · rw [numaSetInterleaveMaskV2_eq]
        exact hP.setpol _ _ (hP.setErrno 0 hm)
  have hpreferred : ∀ {m m' : Main g} {many optarg}, P m.task → m.preferred h many optarg = .ok m' → P m'.task := by
    intro m m' many optarg hm hok
    simp only [Main.preferred, bind_eq_ok] at hok
    obtain ⟨-, -, ⟨mask, m1⟩, hparse, hok⟩ := hok
    obtain ⟨-, s, rfl⟩ := Main.parseMask_eq_ok hparse
    have hbind : P (Numactl.numaSetBindPolicy h.kernel false { m.task with errno := 0 }) :=
      hP.numaSetBindPolicy false (hP.setErrno 0 hm)
    split at hok
    · simp only [bind_eq_ok, Main.setpolicy_eq_ok, Main.checkerror_eq_ok] at hok
      obtain ⟨m2, ⟨-, rfl⟩, rfl, -⟩ := hok
      exact hP.setPreferredMany (hP.dombind _ _ _ _ hbind)
    · split at hok
      · simp only [bind_eq_ok, Main.setpolicy_eq_ok, Main.checkerror_eq_ok] at hok
        obtain ⟨-, -, m2, ⟨-, rfl⟩, rfl, -⟩ := hok
        exact hP.numaSetPreferred _ hbind
      · simp only [bind_eq_ok, Main.setpolicy_eq_ok, Main.checkerror_eq_ok] at hok
        obtain ⟨m2, ⟨-, rfl⟩, rfl, -⟩ := hok
        exact hP.numaSetPreferredMany _ hbind
  rcases Main.step_ok hok with hsets | hquiet
  · cases opt with
    | weightedInterleave arg => exact hinterleave (m := { m with weightedInterleave := true }) hm hok
    | interleave arg => exact hinterleave hm hok
    | membind arg =>
        simp only [Main.step, Main.membind, bind_eq_ok, Main.setpolicy_eq_ok, Main.checkerror_eq_ok] at hok
        obtain ⟨-, -, m1, ⟨-, rfl⟩, ⟨mask, m2⟩, hparse, rfl, -⟩ := hok
        obtain ⟨-, s, rfl⟩ := Main.parseMask_eq_ok hparse
        dsimp only [Main.call]
        apply hP.numaSetBindPolicy
        have hbind : P (Numactl.numaSetBindPolicy h.kernel true { m.task with errno := 0 }) :=
          hP.numaSetBindPolicy true (hP.setErrno 0 hm)
        cases m.region with
        | some r => exact hP.dombind _ _ _ _ hbind
        | none =>
            cases m.numaBalancing with
            | true => exact hP.numaSetMembindBalancing _ hbind
            | false => exact hP.setpol _ _ hbind
    | preferredMany arg =>
        exact hpreferred (m := { m with task := (numaHasPreferredMany h.kernel m.task).2 })
          (hP.setPreferredMany hm) (Main.preferredMany_ok hok)
    | preferred arg => exact hpreferred hm hok
    | localalloc =>
        simp only [Main.step, Main.localalloc, bind_eq_ok, Main.setpolicy_eq_ok, Main.checkerror_eq_ok] at hok
        obtain ⟨-, -, m1, ⟨-, rfl⟩, rfl, -⟩ := hok
        dsimp only [Main.call]
        split
        · exact hP.dombind _ _ _ _ (hP.setErrno 0 hm)
        · exact hP.setpol _ _ (hP.setErrno 0 hm)
    | _ => cases hsets.setsPolicy
  · obtain ⟨flags, htask⟩ := quiet_task hopt hquiet.setsPolicy hok
    rw [htask]
    exact hP.noted _ _ _ flags _ hm

/-! ### The CPUs of the nodes allowed -/

/-- What is kept of a node is its cpumap as it is read. -/
def CachesRead (cfg : CpuConfig) (cpumap : Nat → CpumapFile) (st : NodeCpuMask (Cpumask cfg.cpumaskSz)) : Prop :=
  ∀ n old, st.slot n = some old → readCpumapV2 cfg (cpumap n) = (0, old)

/-- The CPUs of a node: none without a cpumap that can be read. -/
def cpumapCpus (cfg : CpuConfig) (cpumap : Nat → CpumapFile) (n : Nat) : Finset Nat :=
  if n ≤ cfg.maxconfigurednode ∧ (readCpumapV2 cfg (cpumap n)).1 = 0 then (readCpumapV2 cfg (cpumap n)).2.cpus else ∅

section

variable {cfg : CpuConfig} {cpumap : Nat → CpumapFile} {st : NodeCpuMask (Cpumask cfg.cpumaskSz)}

theorem readCpumapV2_ret (cfg : CpuConfig) (file : CpumapFile) :
    (readCpumapV2 cfg file).1 = 0 ∨ (readCpumapV2 cfg file).1 = -1 :=
  readCpumap_ret _ _ _ _

theorem CachesRead.update (h : CachesRead cfg cpumap st) (n : Nat) (stale : Bool) {kept : Option (Cpumask cfg.cpumaskSz)}
    (hkept : ∀ old, kept = some old → readCpumapV2 cfg (cpumap n) = (0, old)) :
    CachesRead cfg cpumap { slot := Function.update st.slot n kept, stale := stale } := by
  intro m old hold
  dsimp only at hold
  by_cases hm : m = n
  · subst hm
    rw [Function.update_self] at hold
    exact hkept old hold
  · rw [Function.update_of_ne hm] at hold
    exact h m old hold

/-- A query of a node answers as reading its cpumap does, and sets `errno` as that does where the cpumap cannot be
read. -/
theorem CachesRead.query_eq (h : CachesRead cfg cpumap st) {n : Nat} (hn : n ≤ cfg.maxconfigurednode)
    (buffer : Cpumask cfg.cpumaskSz) :
    CachesRead cfg cpumap (numaNodeToCpusV2 cfg cpumap st n buffer.toBitmask).2 ∧
      ∃ errno, (numaNodeToCpusV2 cfg cpumap st n buffer.toBitmask).1 =
          { ret := (readCpumapV2 cfg (cpumap n)).1
            errno := errno
            buffer := (readCpumapV2 cfg (cpumap n)).2.toBitmask } ∧
        (errno = none ∧ (readCpumapV2 cfg (cpumap n)).1 = 0 ∨ errno = (cpumap n).errno cfg.cpumaskSz) := by
  have hrange : ¬((n : Int) < 0 ∨ (cfg.maxconfigurednode : Int) < n) := by omega
  have hclear : numaBitmaskClearall buffer.toBitmask = buffer.clearall.toBitmask := rfl
  rw [numaNodeToCpusV2, if_neg hrange, hclear]
  dsimp only
  rw [Int.toNat_natCast]
  split
  · next old hold hstale =>
    rw [if_neg (by rw [buffer.clearall.size_eq, old.size_eq]; exact lt_irrefl _), Cpumask.copy_eq, h n old hold]
    exact ⟨h, none, rfl, Or.inl ⟨rfl, rfl⟩⟩
  · next old hold hstale =>
    rw [Cpumask.copy_eq]
    refine ⟨h.update n false fun new hnew => ?_, _, rfl, Or.inr rfl⟩
    rw [← Option.some.inj hnew, Cpumask.copyTo_eq, h n old hold]
  · next hold =>
    rw [Cpumask.copy_eq]
    refine ⟨h.update n false fun new hnew => ?_, _, rfl, Or.inr rfl⟩
    rw [Option.ite_none_right_eq_some] at hnew
    exact Prod.ext hnew.1 (Option.some.inj hnew.2)

/-- The node is not above the highest, and its cpumap can be opened. -/
def Opens (cfg : CpuConfig) (cpumap : Nat → CpumapFile) (n : Nat) : Prop :=
  n ≤ cfg.maxconfigurednode ∧ ∀ e he, cpumap n ≠ .missing e he

/-- A query answers with the CPUs of the node, or fails where they cannot be read. It sets no `errno` to 0, and leaves
it alone only if the cpumap can be opened. -/
theorem CachesRead.query (h : CachesRead cfg cpumap st) (n : Nat) (buffer : Cpumask cfg.cpumaskSz) :
    CachesRead cfg cpumap (numaNodeToCpusV2 cfg cpumap st n buffer.toBitmask).2 ∧
      (∀ e, (numaNodeToCpusV2 cfg cpumap st n buffer.toBitmask).1.errno = some e → e ≠ 0) ∧
      ((numaNodeToCpusV2 cfg cpumap st n buffer.toBitmask).1.errno = none → Opens cfg cpumap n) ∧
      ∃ nodecpus : Cpumask cfg.cpumaskSz,
        (numaNodeToCpusV2 cfg cpumap st n buffer.toBitmask).1.buffer = nodecpus.toBitmask ∧
        ((numaNodeToCpusV2 cfg cpumap st n buffer.toBitmask).1.ret < 0 ∧ cpumapCpus cfg cpumap n = ∅ ∨
          (numaNodeToCpusV2 cfg cpumap st n buffer.toBitmask).1.ret = 0 ∧ nodecpus.cpus = cpumapCpus cfg cpumap n) := by
  by_cases hn : n ≤ cfg.maxconfigurednode
  · obtain ⟨hkept, errno, hreply, herrno⟩ := h.query_eq hn buffer
    rw [hreply]
    refine ⟨hkept, fun e he => ?_, fun hnone => ⟨hn, fun e he hmissing => ?_⟩, _, rfl, ?_⟩
    · dsimp only at he
      subst he
      rcases herrno with ⟨hnone, -⟩ | hfile
      · cases hnone
      · exact CpumapFile.errno_ne_zero hfile.symm
    · -- The mask of a file that is missing is not kept.
      dsimp only at hnone
      rw [hmissing] at herrno
      rcases herrno with ⟨-, hret⟩ | hfile
      · cases hret
      · rw [hnone] at hfile
        cases hfile
    rcases readCpumapV2_ret cfg (cpumap n) with hret | hret
    · exact Or.inr ⟨hret, (if_pos ⟨hn, hret⟩).symm⟩
    · have hfailed : ¬(readCpumapV2 cfg (cpumap n)).1 = 0 := by
        rw [hret]
        decide
      exact Or.inl ⟨hret ▸ Int.negSucc_lt_zero 0, if_neg fun hboth => hfailed hboth.2⟩
  · have hquery : numaNodeToCpusV2 cfg cpumap st n buffer.toBitmask =
        ({ ret := -1, errno := some ERANGE, buffer := buffer.toBitmask }, st) :=
      if_pos (Or.inr (Int.ofNat_lt.mpr (Nat.lt_of_not_le hn)))
    rw [hquery]
    refine ⟨h, fun e he => ?_, fun hnone => ?_, buffer, rfl,
      Or.inl ⟨Int.negSucc_lt_zero 0, if_neg fun hboth => hn hboth.1⟩⟩
    · rw [← Option.some.inj he]
      exact Nat.succ_ne_zero 33
    · cases hnone

end

variable {allowed : Bitmask}

/-- The loop after the nodes `ns`, of which the allowed ones count. With `errno` still 0, all their cpumaps can be
opened. -/
def GathersAllowed (k : Kernel) (allowed : Bitmask) (ns : List Nat) (s : NodeCpusLoop g) : Prop :=
  ∃ gathered nodecpus : Cpumask g.cpuConfig.cpumaskSz,
    s.cpus = gathered.toBitmask ∧ s.nodecpus = nodecpus.toBitmask ∧
      CachesRead g.cpuConfig k.cpumap s.task.nodeCpus ∧
      gathered.cpus = (ns.toFinset.filter (· ∈ allowed.bits)).biUnion (cpumapCpus g.cpuConfig k.cpumap) ∧
      (s.task.errno = 0 → ∀ n ∈ ns.toFinset.filter (· ∈ allowed.bits), Opens g.cpuConfig k.cpumap n)

theorem gathersAllowed_addNodeCpus {ns : List Nat} {s : NodeCpusLoop g} (hs : GathersAllowed k allowed ns s) (n : Nat) :
    GathersAllowed k allowed (ns ++ [n]) (addNodeCpus k allowed s n) := by
  obtain ⟨gathered, nodecpus, hcpus, hnodecpus, hkept, hgathered, hopens⟩ := hs
  have hnodes : (ns ++ [n]).toFinset = insert n ns.toFinset := by
    rw [List.toFinset_append, Finset.union_comm]
    rfl
  rw [GathersAllowed, hnodes, Finset.filter_insert]
  unfold addNodeCpus
  by_cases hall : n ∈ allowed.bits
  · rw [if_pos ((numaBitmaskIsbitset_eq_true _ _).mpr hall), if_pos hall, Finset.biUnion_insert, ← hgathered, hnodecpus]
    obtain ⟨hkept', hset, hleft, answer, hbuffer, hanswer⟩ := hkept.query n nodecpus
    -- An `errno` of 0 is the one from before, which the query has left alone.
    have hopens' : (numaNodeToCpusV2 g.cpuConfig k.cpumap s.task.nodeCpus n nodecpus.toBitmask).1.errno.getD
        s.task.errno = 0 → ∀ i ∈ insert n (ns.toFinset.filter (· ∈ allowed.bits)), Opens g.cpuConfig k.cpumap i := by
      intro hzero i hi
      cases herrno : (numaNodeToCpusV2 g.cpuConfig k.cpumap s.task.nodeCpus n nodecpus.toBitmask).1.errno with
      | some e =>
          rw [herrno] at hzero
          exact absurd hzero (hset e herrno)
      | none =>
          rw [herrno] at hzero
          rcases Finset.mem_insert.mp hi with rfl | hi
          · exact hleft herrno
          · exact hopens hzero i hi
    dsimp only
    rcases hanswer with ⟨hret, hnone⟩ | ⟨hret, hread⟩
    · rw [if_pos hret, hnone, Finset.empty_union]
      exact ⟨gathered, answer, hcpus, hbuffer, hkept', rfl, hopens'⟩
    · rw [if_neg (by rw [hret]; exact lt_irrefl _), ← hread, Finset.union_comm, hcpus, hbuffer]
      exact ⟨gathered.add answer, answer, rfl, rfl, hkept', gathered.cpus_add answer, hopens'⟩
  · rw [if_neg (mt (numaBitmaskIsbitset_eq_true _ _).mp hall), if_neg hall]
    exact ⟨gathered, nodecpus, hcpus, hnodecpus, hkept, hgathered, hopens⟩

/-- The loop gathers the CPUs of the nodes of the mask that are allowed, and ends with `errno` 0 only if the cpumaps
of all of them can be opened. -/
theorem gathersAllowed_nodeCpusLoop (allowed bmp : Bitmask) {t : Task g}
    (hkept : CachesRead g.cpuConfig k.cpumap t.nodeCpus) :
    ∃ gathered : Cpumask g.cpuConfig.cpumaskSz, (nodeCpusLoop k allowed bmp t).cpus = gathered.toBitmask ∧
      CachesRead g.cpuConfig k.cpumap (nodeCpusLoop k allowed bmp t).task.nodeCpus ∧
      gathered.cpus = (bmp.bits ∩ allowed.bits).biUnion (cpumapCpus g.cpuConfig k.cpumap) ∧
      ((nodeCpusLoop k allowed bmp t).task.errno = 0 →
        ∀ n ∈ bmp.bits ∩ allowed.bits, Opens g.cpuConfig k.cpumap n) := by
  have hfoldl : ∀ ns : List Nat, GathersAllowed k allowed ns (ns.foldl (addNodeCpus k allowed)
      { cpus := g.numaAllocateCpumask, nodecpus := g.numaAllocateCpumask, task := t }) := by
    intro ns
    induction ns using List.reverseRecOn with
    | nil =>
        refine ⟨numaAllocateCpumask g.cpuConfig, numaAllocateCpumask g.cpuConfig, rfl, rfl, hkept, ?_, ?_⟩
        · rw [Cpumask.cpus_allocate]
          rfl
        · exact fun _ n hn => absurd (Finset.mem_filter.mp hn).1 (Finset.notMem_empty n)
    | append_singleton ns n ih =>
        rw [List.foldl_append, List.foldl_cons, List.foldl_nil]
        exact gathersAllowed_addNodeCpus ih n
  have hnodes : ((List.range bmp.size).filter fun i => numaBitmaskIsbitset bmp i).toFinset = bmp.bits := by
    apply Finset.ext
    intro i
    rw [List.mem_toFinset, List.mem_filter, List.mem_range, numaBitmaskIsbitset_eq_true]
    exact ⟨fun hi => hi.2, fun hi => ⟨(Bitmask.mem_bits.mp hi).1, hi⟩⟩
  obtain ⟨gathered, -, hcpus, -, hkept', hgathered, hopens⟩ :=
    hfoldl ((List.range bmp.size).filter fun i => numaBitmaskIsbitset bmp i)
  rw [← nodeCpusLoop_eq] at hcpus hkept' hopens
  rw [hnodes, Finset.filter_mem_eq_inter] at hgathered hopens
  exact ⟨gathered, hcpus, hkept', hgathered, hopens⟩

/-! ### The CPUs of a command -/

/-- The CPUs a mask hands to the kernel. -/
def handed (mask : Bitmask) : Finset Nat := Words.bitsBelow mask.maskp (numaBitmaskNbytes mask * 8)

theorem handed_toBitmask {n : Nat} (mask : Cpumask n) : handed mask.toBitmask = mask.cpus := by
  have hbytes : numaBitmaskNbytes mask.toBitmask * 8 = mask.maskp.length * 64 := by
    rw [numaBitmaskNbytes, mask.size_eq, mask.length_eq]
    omega
  rw [handed, hbytes, Cpumask.cpus]

theorem lastAffinity_concat_other (k : Kernel) (requests : List Request) {req : Request}
    (hreq : ∀ pid len mask, req ≠ .schedSetaffinity pid len mask) :
    lastAffinity k (requests ++ [req]) = lastAffinity k requests := by
  rw [lastAffinity, List.foldl_append, List.foldl_cons, List.foldl_nil]
  cases req with
  | schedSetaffinity pid len mask => exact absurd rfl (hreq pid len mask)
  | _ => rfl

/-- The policy calls leave the CPUs given and the cpumaps kept alone. -/
theorem policyClosed_affinity (k : Kernel) (c : Option (Finset Nat)) :
    PolicyClosed k fun s : Task g => CachesRead g.cpuConfig k.cpumap s.nodeCpus ∧ lastAffinity k s.requests = c where
  setMempolicy {policy words n t} ht := by
    rw [k.setMempolicy_frame, k.requests_setMempolicy,
      lastAffinity_concat_other k _ fun pid len mask => Request.noConfusion]
    exact ht
  mbind {start len policy words n flags t} ht := by
    have hrequests : (k.mbind start len policy words n flags t).2.requests =
        t.requests ++ [.mbind start len policy words n flags] := by
      refine k.requests_ask _ _ ?_ t
      exact fun _ => rfl
    have hkept : (k.mbind start len policy words n flags t).2.nodeCpus = t.nodeCpus := by
      unfold Kernel.mbind Kernel.ask
      dsimp only
      split
      · rfl
      · rfl
    rw [hrequests, hkept, lastAffinity_concat_other k _ fun pid len mask => Request.noConfusion]
    exact ht
  noted e many pol flags errors ht := ht

/-- A call that leaves `errno` at 0 was granted, and nothing before it has set `errno`. -/
theorem runOnNodeMask_of_errno (hb : k.NamesErrors) {bmp : Bitmask} {t : Task g}
    (h : (runOnNodeMask k allowed bmp t).2.errno = 0) :
    (runOnNodeMask k allowed bmp t).1 = 0 ∧ (nodeCpusLoop k allowed bmp t).task.errno = 0 := by
  unfold runOnNodeMask Kernel.schedSetaffinity at h ⊢
  dsimp only at h ⊢
  rcases k.ask_cases (.schedSetaffinity 0 (numaBitmaskNbytes (nodeCpusLoop k allowed bmp t).cpus)
    (nodeCpusLoop k allowed bmp t).cpus.maskp) id (nodeCpusLoop k allowed bmp t).task with ⟨e, he, hask⟩ | ⟨-, hask⟩
  · rw [hask] at h
    obtain rfl : e = 0 := h
    exact absurd he (hb _)
  · rw [hask] at h ⊢
    exact ⟨rfl, h⟩

theorem lastAffinity_runOnNodeMask (hb : k.NamesErrors) (bmp : Bitmask) {t : Task g}
    (hkept : CachesRead g.cpuConfig k.cpumap t.nodeCpus) (herrno : (runOnNodeMask k allowed bmp t).2.errno = 0) :
    CachesRead g.cpuConfig k.cpumap (runOnNodeMask k allowed bmp t).2.nodeCpus ∧
      (∀ n ∈ bmp.bits ∩ allowed.bits, Opens g.cpuConfig k.cpumap n) ∧
      lastAffinity k (runOnNodeMask k allowed bmp t).2.requests = some ((bmp.bits ∩ allowed.bits).biUnion
        (cpumapCpus g.cpuConfig k.cpumap)) := by
  obtain ⟨gathered, hcpus, hkept', hgathered, hopens⟩ := gathersAllowed_nodeCpusLoop allowed bmp hkept
  obtain ⟨hret, hloop⟩ := runOnNodeMask_of_errno hb herrno
  have hgranted := refusal_of_runOnNodeMask hret
  refine ⟨?_, hopens hloop, ?_⟩
  · have hframe : (runOnNodeMask k allowed bmp t).2.nodeCpus = (nodeCpusLoop k allowed bmp t).task.nodeCpus := by
      unfold runOnNodeMask
      dsimp only
      split
      · rw [k.schedSetaffinity_frame]
      · rw [k.schedSetaffinity_frame]
        rfl
    rw [hframe]
    exact hkept'
  · rw [requests_runOnNodeMask, lastAffinity_concat k _ _ _ _ hgranted, hcpus, ← hgathered, ← handed_toBitmask]
    rfl

namespace Opt

/-- The CPUs an option behind `pre` binds a command to: those of the nodes of its list, whose cpumaps can all be
opened, or those of its list. -/
def Binds (h : Host) (g : Globals) (pre : List Opt) (bound : Finset Nat) : Opt → Prop
  | .cpunodebind optarg => ∃ mask, Listed g h.devices pre optarg mask ∧
      (∀ n ∈ mask.bits ∩ g.numaPossibleNodesPtr.bits, Opens g.cpuConfig h.kernel.cpumap n) ∧
      bound = (mask.bits ∩ g.numaPossibleNodesPtr.bits).biUnion (cpumapCpus g.cpuConfig h.kernel.cpumap)
  | .physcpubind optarg => ∃ cpubuf, (if pre.any isAll then numaParseCpustringAll g optarg
      else numaParseCpustring g optarg) = some cpubuf ∧ bound = handed cpubuf
  | _ => False

end Opt

namespace Main

variable {h : Host} {m m' : Main g} {t : Task g} {opt : Opt}

/-- An accepted option that binds CPUs binds those it says. -/
theorem binds_step (hb : h.kernel.NamesErrors)
    {pre : List Opt} (hpre : (initial t).optionLoop h pre = .ok m) (hopt : opt.bindsCpus = true)
    (hok : m.step h opt = .ok m') (hkept : CachesRead g.cpuConfig h.kernel.cpumap m.task.nodeCpus) :
    CachesRead g.cpuConfig h.kernel.cpumap m'.task.nodeCpus ∧
      ∃ bound, lastAffinity h.kernel m'.task.requests = some bound ∧ opt.Binds h g pre bound := by
  have hmarked := marked_of_accepted hpre
  cases opt with
  | cpunodebind arg =>
      simp only [step, cpunodebind, bind_eq_ok, checkerror_eq_ok] at hok
      obtain ⟨-, -, -, -, ⟨mask, m1⟩, hparse, -, -, rfl, herrno⟩ := hok
      obtain ⟨hdenotes, s, rfl⟩ := parseMask_eq_ok hparse
      obtain ⟨hkept', hopens, hlast⟩ := lastAffinity_runOnNodeMask hb (t := { m.task with errno := 0 }) mask hkept herrno
      exact ⟨hkept', _, hlast, mask, (denotes_iff_listed hpre).mp hdenotes, hopens, rfl⟩
  | physcpubind arg =>
      simp only [step, physcpubind, bind_eq_ok] at hok
      obtain ⟨-, -, hok⟩ := hok
      split at hok
      · cases hok
      · next cpubuf hcpubuf =>
        simp only [bind_eq_ok, checkerror_eq_ok] at hok
        obtain ⟨-, -, rfl, herrno⟩ := hok
        rw [hmarked.parseAll_eq] at hcpubuf
        refine ⟨?_, handed cpubuf, ?_, cpubuf, hcpubuf, rfl⟩
        · dsimp only [call]
          rw [h.kernel.schedSetaffinity_frame]
          exact hkept
        · dsimp only [call] at herrno ⊢
          unfold Kernel.schedSetaffinity at herrno ⊢
          rcases h.kernel.ask_cases (.schedSetaffinity 0 (numaBitmaskNbytes cpubuf) cpubuf.maskp) id
            { m.task with errno := 0 } with ⟨e, he, hask⟩ | ⟨hgrant, hask⟩
          · rw [hask] at herrno
            obtain rfl : e = 0 := herrno
            exact absurd he (hb _)
          · rw [hask]
            exact lastAffinity_concat h.kernel _ _ _ _ hgrant
  | _ => cases hopt

/-- Along accepted options, what is kept of the nodes is as it is read, and the CPUs given to the kernel are those of the
last option that binds CPUs. -/
theorem affinity_of_accepted (hb : h.kernel.NamesErrors) (hkept : CachesRead g.cpuConfig h.kernel.cpumap t.nodeCpus)
    {opts : List Opt} (hok : (initial t).optionLoop h opts = .ok m) :
    CachesRead g.cpuConfig h.kernel.cpumap m.task.nodeCpus ∧ ((∀ opt ∈ opts, opt.bindsCpus = false) ∧
        lastAffinity h.kernel m.task.requests = lastAffinity h.kernel t.requests ∨
      ∃ front opt back bound, opts = front ++ opt :: back ∧ (∀ o ∈ back, o.bindsCpus = false) ∧
        lastAffinity h.kernel m.task.requests = some bound ∧ opt.Binds h g front bound) := by
  refine Runs.accepted_history_rule (I := fun pre (c : Main g) =>
    CachesRead g.cpuConfig h.kernel.cpumap c.task.nodeCpus ∧ ((∀ opt ∈ pre, opt.bindsCpus = false) ∧
        lastAffinity h.kernel c.task.requests = lastAffinity h.kernel t.requests ∨
      ∃ front opt back bound, pre = front ++ opt :: back ∧ (∀ o ∈ back, o.bindsCpus = false) ∧
        lastAffinity h.kernel c.task.requests = some bound ∧ opt.Binds h g front bound))
    ⟨hkept, Or.inl ⟨fun opt hopt => (List.not_mem_nil hopt).elim, rfl⟩⟩ (fun pre c opt d hpre hc hstep => ?_) hok
  obtain ⟨hkept, hc⟩ := hc
  cases hopt : opt.bindsCpus with
  | true =>
      obtain ⟨hkept', bound, hlast, hbinds⟩ := binds_step hb hpre hopt hstep hkept
      exact ⟨hkept', Or.inr ⟨pre, opt, [], bound, rfl, fun o ho => (List.not_mem_nil ho).elim, hlast, hbinds⟩⟩
  | false =>
      obtain ⟨hkept', hsame⟩ := (policyClosed_affinity h.kernel _).step hopt hstep ⟨hkept, rfl⟩
      refine ⟨hkept', ?_⟩
      rw [hsame]
      rcases hc with ⟨hbefore, hlast⟩ | ⟨front, last, back, bound, rfl, hback, hlast, hbinds⟩
      · refine Or.inl ⟨fun o ho => ?_, hlast⟩
        rcases List.mem_append.mp ho with ho | ho
        · exact hbefore o ho
        · exact List.mem_singleton.mp ho ▸ hopt
      · refine Or.inr ⟨front, last, back ++ [opt], bound, by rw [List.append_assoc, List.cons_append], fun o ho => ?_,
          hlast, hbinds⟩
        rcases List.mem_append.mp ho with ho | ho
        · exact hback o ho
        · exact List.mem_singleton.mp ho ▸ hopt

/-- A command is executed behind the options. -/
theorem optionLoop_of_execvp {opts : List Opt} {av command : List (List Char)}
    (hrun : run h t opts av = .ok (.execvp command m)) : (initial t).optionLoop h opts = .ok m := by
  rw [run, bind_eq_ok] at hrun
  obtain ⟨m', hok, hfinish⟩ := hrun
  obtain ⟨⟨-, rfl⟩, -⟩ := (finish_eq_execvp_iff hok).mp hfinish
  exact hok

/-- The CPUs of a command are those of the last option that binds CPUs, and those of the task without one. -/
theorem execvp_affinity (hb : h.kernel.NamesErrors)
    (hkept : CachesRead g.cpuConfig h.kernel.cpumap t.nodeCpus) {opts : List Opt}
    {av command : List (List Char)} (hrun : run h t opts av = .ok (.execvp command m)) :
    (∀ opt ∈ opts, opt.bindsCpus = false) ∧
        lastAffinity h.kernel m.task.requests = lastAffinity h.kernel t.requests ∨
      ∃ front opt back bound, opts = front ++ opt :: back ∧ (∀ o ∈ back, o.bindsCpus = false) ∧
        lastAffinity h.kernel m.task.requests = some bound ∧ opt.Binds h g front bound :=
  (affinity_of_accepted hb hkept (optionLoop_of_execvp hrun)).2

end Main

/-- `numactl --cpunodebind=2 --strict ls`. -/
theorem execvp_affinity_node2 : ∃ m : Main farCpuGlobals,
    Main.run { plainHost with kernel := farCpuKernel } (Task.initial farCpuGlobals)
        [.cpunodebind "2".toList, .strict] ["ls".toList] = .ok (.execvp ["ls".toList] m) ∧
      ∃ front opt back bound, [Opt.cpunodebind "2".toList, .strict] = front ++ opt :: back ∧
        (∀ o ∈ back, o.bindsCpus = false) ∧ lastAffinity farCpuKernel m.task.requests = some bound ∧
          opt.Binds { plainHost with kernel := farCpuKernel } farCpuGlobals front bound := by
  obtain ⟨m, hok⟩ : ∃ m, (Main.initial (Task.initial farCpuGlobals)).optionLoop
      { plainHost with kernel := farCpuKernel } [.cpunodebind "2".toList, .strict] = .ok m :=
    Main.exists_ok (by decide +kernel)
  have hrun : Main.run { plainHost with kernel := farCpuKernel } (Task.initial farCpuGlobals)
      [.cpunodebind "2".toList, .strict] ["ls".toList] = .ok (.execvp ["ls".toList] m) := by
    rw [Main.run, bind_eq_ok]
    exact ⟨m, hok, (Main.finish_eq_execvp_iff hok).mpr ⟨⟨rfl, rfl⟩, List.cons_ne_nil _ _, by decide⟩⟩
  refine ⟨m, hrun, (Main.execvp_affinity plainKernel_namesErrors (fun n old hold => by cases hold) hrun).resolve_left
    fun hnone => ?_⟩
  exact absurd (hnone.1 (.cpunodebind "2".toList) (by simp)) (by decide)

end Numactl
