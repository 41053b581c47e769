import Numactl.Show

/-! `numactl --show` as the command that `numactl` launches: the options given are shown. -/

namespace Numactl

open CString
open FieldLines (field)
open PolicyCall (NodesExist nodesExist_setMempolicy)

variable {g : Globals}

/-- The task of a program that is executed. The policy stays, and the library starts anew. -/
def Task.exec (t : Task g) : Task g := { Task.initial g with policy := t.policy, requests := t.requests }

/-- The kernel grants no policy with nodes it does not have. -/
def Kernel.GrantsExisting (k : Kernel) : Prop :=
  ∀ reqs policy words n, k.refusal (reqs ++ [.setMempolicy policy words n]) = none →
    ∀ i ∈ k.readNodes words n, i < k.nrNodeIds

/-- The policy calls leave a policy with nodes the kernel has. -/
theorem policyClosed_nodesExist {k : Kernel} (hgrants : k.GrantsExisting) :
    PolicyClosed k fun t : Task g => NodesExist k t where
  setMempolicy {policy words n t} ht := by
    unfold NodesExist
    rcases k.setMempolicy_cases policy words n t with ⟨-, -, hpolicy, -⟩ | ⟨hgrant, -, hpolicy, -⟩
    · rw [hpolicy]
      exact ht
    · rw [hpolicy]
      exact hgrants _ _ _ _ hgrant
  mbind {start len policy words n flags t} ht := by
    have hpolicy : (k.mbind start len policy words n flags t).2.policy = t.policy := by
      unfold Kernel.mbind Kernel.ask
      dsimp only
      split
      · rfl
      · rfl
    unfold NodesExist
    rw [hpolicy]
    exact ht
  noted e many pol flags errors ht := ht

namespace Main

variable {h : Host} {m : Main g} {t : Task g} {opts : List Opt} {av command : List (List Char)}

theorem nodesExist_of_accepted (hgrants : h.kernel.GrantsExisting) (hnodes : NodesExist h.kernel t)
    (hok : (initial t).optionLoop h opts = .ok m) : NodesExist h.kernel m.task := by
  refine Runs.accepted_rule (I := fun c : Main g => NodesExist h.kernel c.task) (fun c opt d hc hstep => ?_) hnodes hok
  cases hopt : opt.bindsCpus with
  | false => exact (policyClosed_nodesExist hgrants).step hopt hstep hc
  | true =>
      rcases step_ok hstep with hsets | hquiet
      · have hboth := hsets.setsPolicy
        cases opt with
        | cpunodebind arg => cases hboth
        | physcpubind arg => cases hboth
        | _ => cases hopt
      · unfold NodesExist
        rw [hquiet.policy_eq]
        exact hc

/-- What a policy option asks for is what `--show` says when it is the command: the name of the policy and the nodes on
the lines of their kind. It says so in every run but one of a weighted interleaving with a node whose weight cannot be
read, where it does not get to its end. -/
theorem show_launched (hreads : h.kernel.ReadsLow) (hb : h.kernel.NamesErrors) (hgrants : h.kernel.GrantsExisting)
    (havailable : h.kernel.available = true) (hfits : h.kernel.nrNodeIds ≤ g.nodemaskSz)
    (hpos : 0 < g.numConfiguredCpus) (hnodes : NodesExist h.kernel t) (sys : ShowSystem)
    (hfew : sys.affinity.nrCpuIds ≤ 1024 * 1024) (hrun : run h t opts av = .ok (.execvp command m)) :
    ∃ p : MemPolicy,
      ((∀ opt ∈ opts, opt.setsPolicy = false) ∧ p = t.policy ∨
        ∃ front opt back, opts = front ++ opt :: back ∧ (∀ o ∈ front ++ back, o.setsPolicy = false) ∧
          opt.setsPolicy = true ∧ opt.Installs h g front p) ∧
      ((sys.printShow h.kernel m.task.exec).isSome = true ↔ (p.policy = mpolWeightedInterleave →
        ∀ i ∈ p.nodes, i ≤ g.maxconfigurednode → (sys.weight i).isSome = true)) ∧
      ∀ out, sys.printShow h.kernel m.task.exec = some out → ShowsPolicy g p out := by
  have hok := optionLoop_of_execvp hrun
  have hexist : NodesExist h.kernel m.task.exec := nodesExist_of_accepted hgrants hnodes hok
  have hquiet : ∀ opt ∈ opts, opt.attaches = false := by
    intro opt hopt
    rw [run, Runs.bind_eq_ok] at hrun
    obtain ⟨m', hok', hfinish⟩ := hrun
    exact (((finish_eq_execvp_iff hok').mp hfinish).2.2 opt hopt).2.1
  refine ⟨m.task.policy, ?_, sys.isSome_printShow_iff havailable hfits hexist hpos hfew, fun out hout => ?_⟩
  · rcases policy_of_accepted hreads hb hok hquiet with
      ⟨hnone, -, hpolicy⟩ | ⟨front, opt, back, hopts, hothers, hopt, -, hinstalls⟩
    · exact Or.inl ⟨hnone, hpolicy⟩
    · exact Or.inr ⟨front, opt, back, hopts, hothers, hopt, hinstalls⟩
  · obtain ⟨j, -, -, hshown⟩ := sys.shown_of_printShow havailable hfits hexist hpos hfew hout
    exact hshown.toShowsPolicy

/-- What the options leave for `--show` as the command, where the kernel answers with the CPUs it was given. -/
theorem exec_of_run (hb : h.kernel.NamesErrors) (hgrants : h.kernel.GrantsExisting) (hnodes : NodesExist h.kernel t)
    (hkept : CachesRead g.cpuConfig h.kernel.cpumap t.nodeCpus) {cpus : Finset Nat}
    (hgiven : lastAffinity h.kernel m.task.requests = some cpus) (hrun : run h t opts av = .ok (.execvp command m)) :
    NodesExist h.kernel m.task.exec ∧
      ((∀ opt ∈ opts, opt.bindsCpus = false) ∧ lastAffinity h.kernel t.requests = some cpus ∨
        ∃ front opt back, opts = front ++ opt :: back ∧ (∀ o ∈ back, o.bindsCpus = false) ∧ opt.Binds h g front cpus) := by
  have hok := optionLoop_of_execvp hrun
  refine ⟨nodesExist_of_accepted hgrants hnodes hok, ?_⟩
  rcases (affinity_of_accepted hb hkept hok).2 with
    ⟨hnone, hlast⟩ | ⟨front, opt, back, bound, hopts, hback, hlast, hbinds⟩
  · exact Or.inl ⟨hnone, hlast.symm.trans hgiven⟩
  · obtain rfl := Option.some.inj (hlast.symm.trans hgiven)
    exact Or.inr ⟨front, opt, back, hopts, hback, hbinds⟩

/-- The CPUs that `numactl` binds a command to are on the line `physcpubind` of `--show` as the command, exactly if the
line is one of its own and the mask of `--show`, of the first doubling of the number of configured CPUs that the kernel
takes, has a bit for each of them. -/
theorem physcpubind_shown_iff (hb : h.kernel.NamesErrors) (hgrants : h.kernel.GrantsExisting)
    (havailable : h.kernel.available = true) (hfits : h.kernel.nrNodeIds ≤ g.nodemaskSz)
    (hpos : 0 < g.numConfiguredCpus) (hnodes : NodesExist h.kernel t)
    (hkept : CachesRead g.cpuConfig h.kernel.cpumap t.nodeCpus) {sys : ShowSystem}
    (hfew : sys.affinity.nrCpuIds ≤ 1024 * 1024) (hgiven : lastAffinity h.kernel m.task.requests = some sys.cpus)
    (hrun : run h t opts av = .ok (.execvp command m)) :
    ((∀ opt ∈ opts, opt.bindsCpus = false) ∧ lastAffinity h.kernel t.requests = some sys.cpus ∨
      ∃ front opt back, opts = front ++ opt :: back ∧ (∀ o ∈ back, o.bindsCpus = false) ∧
        opt.Binds h g front sys.cpus) ∧
    ∃ j, Doubling.StopsAt sys.Refuses (1024 * 1024) g.numConfiguredCpus j ∧
      ∀ out, sys.printShow h.kernel m.task.exec = some out →
        (field '\n' "physcpubind: ".toList out = some (numberText sys.cpus) ↔
          ShowSystem.HasCase m.task.policy.policy ∧ ∀ c ∈ sys.cpus, c < 2 ^ j * g.numConfiguredCpus) := by
  obtain ⟨hexist, hbound⟩ := exec_of_run hb hgrants hnodes hkept hgiven hrun
  refine ⟨hbound, ?_⟩
  obtain ⟨j, hstops, -, -⟩ := sys.showPhyscpubind_eq hpos hfew
  refine ⟨j, hstops, fun out hout => ?_⟩
  obtain ⟨j', hstops', -, hshown⟩ := sys.shown_of_printShow havailable hfits hexist hpos hfew hout
  obtain rfl : j' = j := hstops'.unique hstops
  have hline : field '\n' "physcpubind: ".toList out = if ShowSystem.HasCase m.task.policy.policy then
      some (numberText (sys.cpus.filter (· < 2 ^ j' * g.numConfiguredCpus))) else none := hshown.physcpubind
  rw [hline]
  by_cases hcase : ShowSystem.HasCase m.task.policy.policy
  · rw [if_pos hcase, Option.some_inj, numberText_injective.eq_iff, Finset.filter_eq_self]
    exact (and_iff_right hcase).symm
  · rw [if_neg hcase]
    exact iff_of_false (Option.some_ne_none _).symm fun hboth => hcase hboth.1

/-- The CPUs `--show` gets from the kernel. -/
theorem getaffinity_of_room {sys : ShowSystem} (hroom : sys.affinity.nrCpuIds ≤ longsperbits g.cpumaskSz * 64) :
    sys.getaffinity (numaBitmaskNbytes g.numaAllocateCpumask * 8) = .ok sys.cpus := by
  have hlen : numaBitmaskNbytes g.numaAllocateCpumask * 8 = longsperbits g.cpumaskSz * 64 := by
    rw [numaBitmaskNbytes, Nat.mul_assoc]
    rfl
  rw [hlen, ShowSystem.getaffinity, AffinityKernel.getaffinity, if_neg (Nat.not_lt.mpr hroom)]
  rfl

theorem mem_numaPossibleNodesPtr {n : Nat} :
    n ∈ g.numaPossibleNodesPtr.bits ↔ n ≤ g.maxconfigurednode ∧ n < g.cpumaskSz := by
  have hfold : (List.range (g.maxconfigurednode + 1)).foldl numaBitmaskSetbit (zeroBitmask g.cpumaskSz) =
      (List.range (g.maxconfigurednode + 1)).foldl (fun b k => setbit b k true) (zeroBitmask g.cpumaskSz) := rfl
  rw [Globals.numaPossibleNodesPtr, hfold, bits_foldl_setbit, bits_zeroBitmask, size_zeroBitmask, Finset.empty_union,
    Finset.mem_filter, List.mem_toFinset, List.mem_range, Nat.lt_succ_iff]

theorem le_of_mem_cpumapCpus {cfg : CpuConfig} {cpumap : Nat → CpumapFile} {n c : Nat}
    (h : c ∈ cpumapCpus cfg cpumap n) : n ≤ cfg.maxconfigurednode := by
  unfold cpumapCpus at h
  split at h
  · next hread => exact hread.1
  · exact absurd h (Finset.notMem_empty c)

/-- A node `--show` can find among those a command is bound to: it is allowed, its number fits a mask of CPUs, and it
has a CPU in the words that the number of configured CPUs takes. -/
def Findable (g : Globals) (cpumap : Nat → CpumapFile) (n : Nat) : Prop :=
  n ∈ g.numaAllNodesPtr.bits ∧ n < g.cpumaskSz ∧
    ∃ c ∈ cpumapCpus g.cpuConfig cpumap n, c < cpuLongs g.numConfiguredCpus * 64

/-- The nodes found are those of the list that can be found. -/
theorem mem_runNodes_of_bound {k : Kernel} (hreadable : ReadableNodes g k.cpumap (cpumapCpus g.cpuConfig k.cpumap))
    {mask : Bitmask} {s : Task g} (hkept : KeepsCpumaps g.cpuConfig k.cpumap s.nodeCpus) {sys : ShowSystem}
    (hroom : sys.affinity.nrCpuIds ≤ longsperbits g.cpumaskSz * 64)
    (hbound : sys.cpus = (mask.bits ∩ g.numaPossibleNodesPtr.bits).biUnion (cpumapCpus g.cpuConfig k.cpumap)) (n : Nat) :
    n ∈ (numaGetRunNodeMaskV2 k (.ok sys.cpus) s).1.bits ↔ n ∈ mask.bits ∧ Findable g k.cpumap n := by
  rw [mem_numaGetRunNodeMaskV2 hreadable sys.cpus hkept, Found, Findable]
  refine ⟨fun hn => ?_, fun hn => ?_⟩
  · obtain ⟨-, hall, hsize, c, hc, hlongs, hgiven⟩ := hn
    have hmem := (Finset.mem_filter.mp hgiven).1
    rw [hbound] at hmem
    obtain ⟨m, hm, hcm⟩ := Finset.mem_biUnion.mp hmem
    -- the CPU is on one node only, so the node it was given for is this one
    obtain rfl : m = n := by
      by_contra hne
      exact Finset.disjoint_left.mp (hreadable.disjoint m n hne) hcm hc
    exact ⟨(Finset.mem_inter.mp hm).1, hall, hsize, c, hc, hlongs⟩
  · obtain ⟨hmask, hall, hsize, c, hc, hlongs⟩ := hn
    have hle : n ≤ g.maxconfigurednode := le_of_mem_cpumapCpus hc
    have hgiven : c ∈ sys.cpus := by
      rw [hbound]
      exact Finset.mem_biUnion.mpr ⟨n, Finset.mem_inter.mpr ⟨hmask, mem_numaPossibleNodesPtr.mpr ⟨hle, hsize⟩⟩, hc⟩
    exact ⟨hle, hall, hsize, c, hc, hlongs, Finset.mem_filter.mpr ⟨hgiven, (sys.cpus_lt c hgiven).trans_le hroom⟩⟩

/-- The line `nodebind` of `--show` as the command has those nodes of the last option that binds CPUs that can be found,
and no others; so it has the nodes of the option exactly if all of them can be found. -/
theorem nodebind_shown_iff (hb : h.kernel.NamesErrors) (hgrants : h.kernel.GrantsExisting)
    (havailable : h.kernel.available = true) (hfits : h.kernel.nrNodeIds ≤ g.nodemaskSz)
    (hpos : 0 < g.numConfiguredCpus) (hnodes : NodesExist h.kernel t)
    (hkept : CachesRead g.cpuConfig h.kernel.cpumap t.nodeCpus)
    (hreadable : ReadableNodes g h.kernel.cpumap (cpumapCpus g.cpuConfig h.kernel.cpumap)) {sys : ShowSystem}
    (hfew : sys.affinity.nrCpuIds ≤ 1024 * 1024) (hroom : sys.affinity.nrCpuIds ≤ longsperbits g.cpumaskSz * 64)
    (hgiven : lastAffinity h.kernel m.task.requests = some sys.cpus) (hnodebind : opts.any Opt.bindsCpus = true)
    (hrun : run h t opts av = .ok (.execvp command m)) :
    ∃ front opt back, opts = front ++ opt :: back ∧ (∀ o ∈ back, o.bindsCpus = false) ∧ opt.Binds h g front sys.cpus ∧
      ∀ optarg, opt = .cpunodebind optarg → ∃ mask, Listed g h.devices front optarg mask ∧
        ∀ out, sys.printShow h.kernel m.task.exec = some out →
          ∃ shown : Finset Nat, field '\n' "nodebind: ".toList out = some (numberText shown) ∧
            (∀ n, n ∈ shown ↔ n ∈ mask.bits ∧ Findable g h.kernel.cpumap n) ∧
            (shown = mask.bits ↔ ∀ n ∈ mask.bits, Findable g h.kernel.cpumap n) := by
  obtain ⟨hexist, ⟨hnone, -⟩ | ⟨front, opt, back, hopts, hback, hbinds⟩⟩ :=
    exec_of_run hb hgrants hnodes hkept hgiven hrun
  · obtain ⟨opt, hopt, hbinds⟩ := List.any_eq_true.mp hnodebind
    rw [hnone opt hopt] at hbinds
    cases hbinds
  refine ⟨front, opt, back, hopts, hback, hbinds, ?_⟩
  rintro optarg rfl
  obtain ⟨mask, hlisted, -, hbound⟩ := hbinds
  refine ⟨mask, hlisted, fun out hout => ?_⟩
  obtain ⟨j, -, -, hshown⟩ := sys.shown_of_printShow havailable hfits hexist hpos hfew hout
  have hfresh : KeepsCpumaps g.cpuConfig h.kernel.cpumap m.task.exec.nodeCpus := fun n _ old _ hold => by cases hold
  have hfound := mem_runNodes_of_bound hreadable hfresh hroom hbound
  rw [hshown.nodebind, getaffinity_of_room hroom]
  refine ⟨_, rfl, hfound, fun heq n hn => ((hfound n).mp (heq ▸ hn)).2, fun hall => ?_⟩
  apply Finset.ext
  intro n
  exact (hfound n).trans ⟨fun hn => hn.1, fun hn => ⟨hn, hall n hn⟩⟩

end Main

/-! ### Runs on two machines -/

theorem lowKernel_grantsExisting : EntryPoint.lowKernel.GrantsExisting := by
  intro reqs policy words n hgrant i hi
  simp only [EntryPoint.lowKernel, plainKernel, List.getLast?_append, List.getLast?_singleton, Option.some_or] at hgrant
  split at hgrant
  · next hlt =>
    have hbit : i < n - 1 ∧ Words.bit words i = true := Words.mem_bitsBelow.mp hi
    exact hlt i (Words.mem_bitsBelow.mpr ⟨hbit.1.trans_le (Nat.sub_le n 1), hbit.2⟩)
  · cases hgrant

theorem four_le_room : 4 ≤ 8 * 8 := by decide

/-- Four CPUs, all of them for the task. -/
def showFour : ShowSystem where
  affinity := { nrCpuIds := 4, cpumaskBytes := 8, room := four_le_room, pos := Nat.succ_pos 3 }
  cpus := Finset.range 4
  cpus_lt _ hc := Finset.mem_range.mp hc
  interleaveNode := some 0
  weight _ := some "1\n".toList

/-- `numactl --strict --interleave=0,2 numactl --show`. -/
theorem show_launched_interleave : ∃ m : Main gapGlobals,
    Main.run lowHost (Task.initial gapGlobals) [.strict, .interleave "0,2".toList] ["numactl".toList, "--show".toList] =
        .ok (.execvp ["numactl".toList, "--show".toList] m) ∧
    ∃ p : MemPolicy,
      ((∀ opt ∈ [Opt.strict, .interleave "0,2".toList], opt.setsPolicy = false) ∧
          p = (Task.initial gapGlobals).policy ∨
        ∃ front opt back, [Opt.strict, .interleave "0,2".toList] = front ++ opt :: back ∧
          (∀ o ∈ front ++ back, o.setsPolicy = false) ∧ opt.setsPolicy = true ∧
          opt.Installs lowHost gapGlobals front p) ∧
      ((showFour.printShow lowHost.kernel m.task.exec).isSome = true ↔ (p.policy = mpolWeightedInterleave →
        ∀ i ∈ p.nodes, i ≤ gapGlobals.maxconfigurednode → (showFour.weight i).isSome = true)) ∧
      ∀ out, showFour.printShow lowHost.kernel m.task.exec = some out → ShowsPolicy gapGlobals p out := by
  obtain ⟨m, hok⟩ : ∃ m, (Main.initial (Task.initial gapGlobals)).optionLoop lowHost
      [.strict, .interleave "0,2".toList] = .ok m := Main.exists_ok (by decide +kernel)
  have hrun : Main.run lowHost (Task.initial gapGlobals) [.strict, .interleave "0,2".toList]
      ["numactl".toList, "--show".toList] = .ok (.execvp ["numactl".toList, "--show".toList] m) := by
    rw [Main.run, Runs.bind_eq_ok]
    exact ⟨m, hok, (Main.finish_eq_execvp_iff hok).mpr ⟨⟨rfl, rfl⟩, List.cons_ne_nil _ _, by decide⟩⟩
  have hnodes : NodesExist lowHost.kernel (Task.initial gapGlobals) := fun i hi => absurd hi (Finset.notMem_empty i)
  exact ⟨m, hrun, Main.show_launched (fun _ _ => rfl) plainKernel_namesErrors lowKernel_grantsExisting rfl (by decide)
    (by decide) hnodes showFour (by decide) hrun⟩

/-- Options that are accepted, with CPUs given to the kernel, as the run comes out. -/
theorem exists_bound {h : Host} {opts : List Opt} {cpus : Finset Nat} {t : Task g}
    (hrun : (match (Main.initial t).optionLoop h opts with
      | .ok m => decide (lastAffinity h.kernel m.task.requests = some cpus)
      | .error _ => false) = true) :
    ∃ m, (Main.initial t).optionLoop h opts = .ok m ∧ lastAffinity h.kernel m.task.requests = some cpus := by
  split at hrun
  · next m hok => exact ⟨m, hok, of_decide_eq_true hrun⟩
  · cases hrun

/-- Two CPUs of four. -/
def showTwo : ShowSystem := { showFour with cpus := {1, 3}, cpus_lt := by decide }

theorem plainKernel_grantsExisting : plainKernel.GrantsExisting := plainKernel_keeps.granted_lt

/-- `numactl --physcpubind=1,3 numactl --show`. -/
theorem physcpubind_shown_two : ∃ m : Main gapGlobals,
    Main.run plainHost (Task.initial gapGlobals) [.physcpubind "1,3".toList] ["numactl".toList, "--show".toList] =
        .ok (.execvp ["numactl".toList, "--show".toList] m) ∧
      ∃ j, Doubling.StopsAt showTwo.Refuses (1024 * 1024) gapGlobals.numConfiguredCpus j ∧
        ∀ out, showTwo.printShow plainHost.kernel m.task.exec = some out →
          (field '\n' "physcpubind: ".toList out = some (numberText showTwo.cpus) ↔
            ShowSystem.HasCase m.task.policy.policy ∧ ∀ c ∈ showTwo.cpus, c < 2 ^ j * gapGlobals.numConfiguredCpus) := by
  obtain ⟨m, hok, hgiven⟩ : ∃ m, (Main.initial (Task.initial gapGlobals)).optionLoop plainHost
      [.physcpubind "1,3".toList] = .ok m ∧ lastAffinity plainHost.kernel m.task.requests = some showTwo.cpus :=
    exists_bound (by decide +kernel)
  have hrun : Main.run plainHost (Task.initial gapGlobals) [.physcpubind "1,3".toList]
      ["numactl".toList, "--show".toList] = .ok (.execvp ["numactl".toList, "--show".toList] m) := by
    rw [Main.run, Runs.bind_eq_ok]
    exact ⟨m, hok, (Main.finish_eq_execvp_iff hok).mpr ⟨⟨rfl, rfl⟩, List.cons_ne_nil _ _, by decide⟩⟩
  have hnodes : NodesExist plainHost.kernel (Task.initial gapGlobals) := fun i hi => absurd hi (Finset.notMem_empty i)
  exact ⟨m, hrun, (Main.physcpubind_shown_iff plainKernel_namesErrors plainKernel_grantsExisting rfl (by decide)
    (by decide) hnodes (fun n old hold => by cases hold) (by decide) hgiven hrun).2⟩

/-- The machine of the nodes 0 and 2, where a CPU of node 2 is not below 64. -/
def showFar : ShowSystem where
  affinity := { nrCpuIds := 65, cpumaskBytes := 16, room := by decide, pos := by decide }
  cpus := {64}
  cpus_lt := by decide
  interleaveNode := none
  weight _ := none

theorem cpumapCpus_far : cpumapCpus farCpuGlobals.cpuConfig farCpumap = farCpus := by
  funext n
  match n with
  | 0 => decide +kernel
  | 1 => decide +kernel
  | 2 => decide +kernel
  | n + 3 =>
      have hpast : ¬n + 3 ≤ farCpuGlobals.cpuConfig.maxconfigurednode := by
        show ¬n + 3 ≤ 2
        omega
      exact if_neg fun hboth => hpast hboth.1

/-- `numactl --cpunodebind=2 numactl --show`, which does not show the node. -/
theorem nodebind_shown_far : ∃ m : Main farCpuGlobals,
    Main.run { plainHost with kernel := farCpuKernel } (Task.initial farCpuGlobals) [.cpunodebind "2".toList]
        ["numactl".toList, "--show".toList] = .ok (.execvp ["numactl".toList, "--show".toList] m) ∧
      ∃ front opt back, [Opt.cpunodebind "2".toList] = front ++ opt :: back ∧ (∀ o ∈ back, o.bindsCpus = false) ∧
        opt.Binds { plainHost with kernel := farCpuKernel } farCpuGlobals front showFar.cpus ∧
        ∀ optarg, opt = .cpunodebind optarg → ∃ mask, Listed farCpuGlobals noDevices front optarg mask ∧
          ∀ out, showFar.printShow farCpuKernel m.task.exec = some out →
            ∃ shown : Finset Nat, field '\n' "nodebind: ".toList out = some (numberText shown) ∧
              (∀ n, n ∈ shown ↔ n ∈ mask.bits ∧ Main.Findable farCpuGlobals farCpumap n) ∧
              (shown = mask.bits ↔ ∀ n ∈ mask.bits, Main.Findable farCpuGlobals farCpumap n) := by
  obtain ⟨m, hok, hgiven⟩ : ∃ m, (Main.initial (Task.initial farCpuGlobals)).optionLoop
      { plainHost with kernel := farCpuKernel } [.cpunodebind "2".toList] = .ok m ∧
        lastAffinity farCpuKernel m.task.requests = some showFar.cpus :=
    exists_bound (by decide +kernel)
  have hrun : Main.run { plainHost with kernel := farCpuKernel } (Task.initial farCpuGlobals)
      [.cpunodebind "2".toList] ["numactl".toList, "--show".toList] =
        .ok (.execvp ["numactl".toList, "--show".toList] m) := by
    rw [Main.run, Runs.bind_eq_ok]
    exact ⟨m, hok, (Main.finish_eq_execvp_iff hok).mpr ⟨⟨rfl, rfl⟩, List.cons_ne_nil _ _, by decide⟩⟩
  have hnodes : NodesExist farCpuKernel (Task.initial farCpuGlobals) := fun i hi => absurd hi (Finset.notMem_empty i)
  have hreadable : ReadableNodes farCpuGlobals farCpuKernel.cpumap
      (cpumapCpus farCpuGlobals.cpuConfig farCpuKernel.cpumap) := by
    rw [show cpumapCpus farCpuGlobals.cpuConfig farCpuKernel.cpumap = farCpus from cpumapCpus_far]
    exact readableNodes_farCpus
  exact ⟨m, hrun, Main.nodebind_shown_iff plainKernel_namesErrors plainKernel_grantsExisting rfl (by decide)
    (by decide) hnodes (fun n old hold => by cases hold) hreadable (by decide) (by decide) hgiven rfl hrun⟩

end Numactl
