import Numactl.PolicyConflict

/-! CPU bindings and shared regions on one command line. `check_cpubind` tests one flag in the options that
attach a region and another in those that bind CPUs, and nothing ever sets the second; what stops a CPU
binding after a region is `dontshm`, which looks only at the options that describe a region. -/

namespace Numactl

open Runs (bind_eq_ok bind_eq_error pure_eq_ok)

variable {g : Globals}

namespace Main

/-- The list of a CPU binding option is one its parser accepts. -/
def ValidList (dv : Devices) (m : Main g) : Opt → Prop
  | .cpunodebind optarg => ∃ mask, m.Denotes dv optarg mask
  | .physcpubind optarg =>
      ∃ cpus, (if m.parseAll then numaParseCpustringAll g optarg else numaParseCpustring g optarg) = some cpus
  | _ => True

variable {h : Host} {t : Task g} {m m' : Main g} {opt : Opt} {pre : List Opt}

/-- What the flags say about the options accepted so far. -/
structure FlagsOf (pre : List Opt) (m : Main g) : Prop where
  didCpubind_eq : m.didCpubind = pre.any Opt.bindsCpus
  shmoption_eq : m.shmoption.isSome = pre.any Opt.describesRegion
  doShm_eq : m.doShm = false

theorem flagsOf_of_accepted (hok : (initial t).optionLoop h pre = .ok m) : FlagsOf pre m := by
  refine Runs.accepted_history_rule (I := fun pre m => FlagsOf pre m) ⟨rfl, rfl, rfl⟩
    (fun pre c opt d _ hc hstep => ?_) hok
  have hflag := leaves_step hstep
  refine ⟨?_, ?_, hflag.doShm_eq.trans hc.doShm_eq⟩
  · rw [hflag.didCpubind_eq, hc.didCpubind_eq, List.any_append, List.any_cons, List.any_nil, Bool.or_false]
  · rw [hflag.shmoption_eq, hc.shmoption_eq, List.any_append, List.any_cons, List.any_nil, Bool.or_false]

/-- The command line is rejected at `opt` with a usage message, whatever comes after it, in a state in which
`opt` has bound no CPUs and attached no region. -/
def RejectedAt (h : Host) (t : Task g) (pre : List Opt) (opt : Opt) (m : Main g) : Prop :=
  ∃ message m', (∀ post, (initial t).optionLoop h (pre ++ opt :: post) = .error ⟨.usage (some message), m'⟩) ∧
    m'.task = m.task ∧ m'.region = m.region

/-- After an accepted prefix, the command line goes on with the option. -/
theorem optionLoop_append (hok : (initial t).optionLoop h pre = .ok m) (post : List Opt) :
    (initial t).optionLoop h (pre ++ opt :: post) = (m.step h opt >>= fun m => m.optionLoop h post) := by
  unfold optionLoop at hok ⊢
  rw [List.foldlM_append, hok]
  rfl

theorem rejectedAt_of_step (hok : (initial t).optionLoop h pre = .ok m) {message : String}
    (hstep : m.step h opt = .error ⟨.usage (some message), m⟩) : RejectedAt h t pre opt m := by
  refine ⟨message, m, fun post => ?_, rfl, rfl⟩
  rw [optionLoop_append hok, hstep]
  exact bind_eq_error.mpr (Or.inl rfl)

/-- A rejection at the option is one by its step. -/
theorem RejectedAt.step_eq (hok : (initial t).optionLoop h pre = .ok m) (hrej : RejectedAt h t pre opt m) :
    ∃ message m', m.step h opt = .error ⟨.usage (some message), m'⟩ := by
  obtain ⟨message, m', hpost, -⟩ := hrej
  have hlast := hpost []
  rw [optionLoop_append hok, bind_eq_error] at hlast
  rcases hlast with hstep | ⟨m₁, -, hnil⟩
  · exact ⟨message, m', hstep⟩
  · cases hnil

theorem attach_bound (hbound : m.didCpubind = true) (attached : ShmArgs → Option Region) :
    m.attach attached = .error ⟨.usage (some "cannot do --cpubind on shared memory\n"), m⟩ := by
  rw [attach, bind_eq_error]
  exact Or.inl (stopIf_eq_error.mpr ⟨hbound, rfl⟩)

theorem dontshm_eq_error {name shmoption : String} (hsome : m.shmoption = some shmoption) :
    m.dontshm name = .error ⟨.usage (some (shmoption ++ " shm option is not allowed before " ++ name)), m⟩ := by
  simp only [dontshm, hsome]

/-- A CPU binding is rejected after an option that describes a region. -/
theorem bindsCpus_described (hopt : opt.bindsCpus = true) (hsome : m.shmoption.isSome = true) :
    ∃ message, m.step h opt = .error ⟨.usage (some message), m⟩ := by
  obtain ⟨shmoption, hshm⟩ := Option.isSome_iff_exists.mp hsome
  cases opt with
  | cpunodebind arg => exact ⟨_, bind_eq_error.mpr (Or.inl (dontshm_eq_error hshm))⟩
  | physcpubind arg => exact ⟨_, bind_eq_error.mpr (Or.inl (dontshm_eq_error hshm))⟩
  | _ => cases hopt

theorem dontshm_ok (hnone : m.shmoption = none) (name : String) : m.dontshm name = .ok () := by
  simp only [dontshm, hnone]

theorem checkCpubind_ok (m : Main g) : m.checkCpubind false = .ok () :=
  stopIf_eq_ok.mpr (by decide)

/-- The last check of an option ends the program with an error number at most. -/
theorem checkerror_ne_usage {s : String} {message : Option String} :
    m.checkerror s ≠ .error ⟨.usage message, m'⟩ := by
  intro herr
  rw [checkerror, bind_eq_error, stopIf_eq_error] at herr
  rcases herr with ⟨-, heq⟩ | ⟨-, -, heq⟩
  · cases heq
  · cases heq

/-- Without one, a CPU binding with a valid list is not: `do_shm` is clear. -/
theorem bindsCpus_undescribed (hopt : opt.bindsCpus = true) (hvalid : m.ValidList h.devices opt)
    (hnone : m.shmoption = none) (hshm : m.doShm = false) (message : String) :
    m.step h opt ≠ .error ⟨.usage (some message), m'⟩ := by
  intro hstep
  cases opt with
  | cpunodebind arg =>
      obtain ⟨mask, s, htext, hparse⟩ := hvalid
      rw [step, cpunodebind, dontshm_ok hnone, Runs.ok_bind, bind_eq_error, checknuma, stopIf_eq_error] at hstep
      rcases hstep with ⟨-, heq⟩ | ⟨-, -, hstep⟩
      · cases heq
      have hmask : m.parseMask h.devices arg = .ok (mask, { m with last := some s, mask := some mask }) := by
        simp only [parseMask, htext, hparse]
      rw [hmask, Runs.ok_bind] at hstep
      dsimp only at hstep
      rw [hshm, checkCpubind_ok, Runs.ok_bind] at hstep
      exact checkerror_ne_usage hstep
  | physcpubind arg =>
      obtain ⟨cpus, hparse⟩ := hvalid
      rw [step, physcpubind, dontshm_ok hnone, Runs.ok_bind, hparse] at hstep
      dsimp only at hstep
      rw [hshm, checkCpubind_ok, Runs.ok_bind] at hstep
      exact checkerror_ne_usage hstep
  | _ => cases hopt

theorem attaches_bound (hopt : opt.attaches = true) (hbound : m.didCpubind = true) :
    m.step h opt = .error ⟨.usage (some "cannot do --cpubind on shared memory\n"), m⟩ := by
  cases opt with
  | shm arg => exact attach_bound hbound _
  | file arg => exact attach_bound hbound _
  | _ => cases hopt

theorem attaches_eq_false (hopt : opt.bindsCpus = true) : opt.attaches = false := by
  cases opt with
  | cpunodebind arg => rfl
  | physcpubind arg => rfl
  | _ => cases hopt

/-- The second of a CPU binding and a region on a command line is rejected exactly if it is the region, or an
option that describes a region stands before it. -/
theorem rejectedAt_iff (hok : (initial t).optionLoop h pre = .ok m)
    (hsecond : opt.bindsCpus = true ∧ pre.any Opt.attaches = true ∨
      opt.attaches = true ∧ pre.any Opt.bindsCpus = true)
    (hvalid : m.ValidList h.devices opt) :
    RejectedAt h t pre opt m ↔ opt.attaches = true ∨ pre.any Opt.describesRegion = true := by
  have hflags := flagsOf_of_accepted hok
  rcases hsecond with ⟨hbinds, -⟩ | ⟨hattaches, hbound⟩
  · rw [attaches_eq_false hbinds, or_iff_right Bool.false_ne_true]
    cases hdescribed : pre.any Opt.describesRegion with
    | true =>
        obtain ⟨message, hstep⟩ := @bindsCpus_described _ h m opt hbinds (hflags.shmoption_eq.trans hdescribed)
        exact iff_of_true (rejectedAt_of_step hok hstep) rfl
    | false =>
        have hnone : m.shmoption = none :=
          Option.isNone_iff_eq_none.mp (Option.isSome_eq_false_iff.mp (hflags.shmoption_eq.trans hdescribed))
        refine iff_of_false (fun hrej => ?_) Bool.false_ne_true
        obtain ⟨message, m', hstep⟩ := hrej.step_eq hok
        exact bindsCpus_undescribed hbinds hvalid hnone hflags.doShm_eq message hstep
  · have hstep := @attaches_bound _ h m opt hattaches (hflags.didCpubind_eq.trans hbound)
    exact iff_of_true (rejectedAt_of_step hok hstep) (Or.inl hattaches)

end Main

/-- With `--length` before it, `--shm` keeps a CPU binding out. -/
theorem rejectedAt_described :
    ∃ m, (Main.initial (Task.initial gapGlobals)).optionLoop plainHost
        [.length "4k".toList, .shm "queue".toList] = .ok m ∧
      Main.RejectedAt plainHost (Task.initial gapGlobals) [.length "4k".toList, .shm "queue".toList]
        (.physcpubind "0".toList) m := by
  obtain ⟨m, hpre⟩ : ∃ m, (Main.initial (Task.initial gapGlobals)).optionLoop plainHost
      [.length "4k".toList, .shm "queue".toList] = .ok m := Main.exists_ok (by decide +kernel)
  obtain ⟨cpus, hcpus⟩ : ∃ cpus, numaParseCpustring gapGlobals "0".toList = some cpus :=
    Option.isSome_iff_exists.mp (by decide +kernel)
  have hparseAll : m.parseAll = false := by
    cases hpre
    rfl
  have hvalid : m.ValidList plainHost.devices (.physcpubind "0".toList) := by
    refine ⟨cpus, ?_⟩
    rw [hparseAll]
    exact hcpus
  exact ⟨m, hpre, (Main.rejectedAt_iff hpre (Or.inl ⟨rfl, rfl⟩) hvalid).mpr (Or.inr rfl)⟩

/-- A CPU binding after a region alone is accepted. -/
theorem not_rejectedAt_undescribed :
    ∃ m, (Main.initial (Task.initial gapGlobals)).optionLoop plainHost [.shm "queue".toList] = .ok m ∧
      m.ValidList plainHost.devices (.physcpubind "0".toList) ∧
      ¬Main.RejectedAt plainHost (Task.initial gapGlobals) [.shm "queue".toList] (.physcpubind "0".toList) m := by
  obtain ⟨cpus, hcpus⟩ : ∃ cpus, numaParseCpustring gapGlobals "0".toList = some cpus :=
    Option.isSome_iff_exists.mp (by decide +kernel)
  have hvalid : attachedMain.ValidList plainHost.devices (.physcpubind "0".toList) := ⟨cpus, hcpus⟩
  refine ⟨attachedMain, optionLoop_shm, hvalid, fun hrej => ?_⟩
  obtain ⟨message, m', hstep⟩ := hrej.step_eq optionLoop_shm
  exact Main.bindsCpus_undescribed rfl hvalid rfl rfl message hstep

end Numactl
