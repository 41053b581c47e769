import Numactl.Options
import Numactl.Requests

/-! What an accepted option does. Every memory policy option needs that no policy is recorded and records
one; all other options leave the policies of the task and its memory alone. -/

namespace Numactl

open Runs (bind_eq_ok pure_eq_ok)

variable {g : Globals}

namespace Main

@[simp] theorem stopIf_eq_ok {m : Main g} {condition : Prop} [Decidable condition] {exit : Exit} {u : Unit} :
    m.stopIf condition exit = .ok u ↔ ¬condition := by
  unfold stopIf
  by_cases h : condition <;> simp [h]

theorem checkerror_eq_ok {s : String} {m m' : Main g} :
    m.checkerror s = .ok m' ↔ m' = m ∧ m.task.errno = 0 := by
  unfold checkerror
  simp only [bind_eq_ok, stopIf_eq_ok, pure_eq_ok]
  refine ⟨fun h => ?_, fun h => ⟨(), not_not.mpr h.2, h.1.symm⟩⟩
  obtain ⟨-, herrno, rfl⟩ := h
  exact ⟨rfl, not_not.mp herrno⟩

theorem setpolicy_eq_ok {pol : Nat} {m m' : Main g} :
    m.setpolicy pol = .ok m' ↔ m.setPolicy = none ∧ m' = { m with setPolicy := some pol } := by
  unfold setpolicy
  simp only [bind_eq_ok, stopIf_eq_ok, pure_eq_ok]
  refine ⟨fun h => ?_, fun h => ⟨(), not_not.mpr h.1, h.2.symm⟩⟩
  obtain ⟨-, hunset, rfl⟩ := h
  exact ⟨not_not.mp hunset, rfl⟩

/-- The mask an option's argument stands for. -/
def Denotes (dv : Devices) (m : Main g) (optarg : List Char) (mask : Bitmask) : Prop :=
  ∃ s, m.listText optarg = some s ∧ nodeParser g dv m.parseAll s = some mask

theorem parseMask_eq_ok {dv : Devices} {optarg : List Char} {m m' : Main g} {mask : Bitmask}
    (h : m.parseMask dv optarg = .ok (mask, m')) :
    m.Denotes dv optarg mask ∧ ∃ s, m' = { m with last := some s, mask := some mask } := by
  unfold parseMask at h
  cases htext : m.listText optarg with
  | none =>
      rw [htext] at h
      cases h
  | some s =>
      rw [htext] at h
      dsimp only at h
      cases hparse : nodeParser g dv m.parseAll s with
      | none =>
          rw [hparse] at h
          cases h
      | some mask' =>
          rw [hparse] at h
          cases h
          exact ⟨⟨s, htext, hparse⟩, s, rfl⟩

/-- What every accepted memory policy option with a node list does. -/
structure Accepted (dv : Devices) (m m' : Main g) (optarg : List Char) (mask : Bitmask) : Prop where
  denotes : m.Denotes dv optarg mask
  unset : m.setPolicy = none
  mask_eq : m'.mask = some mask
  region_eq : m'.region = m.region
  weighted_eq : m'.weightedInterleave = m.weightedInterleave
  errno_eq : m'.task.errno = 0

variable {h : Host} {m m' : Main g} {optarg : List Char}

theorem interleave_ok (hok : m.interleave h optarg = .ok m') :
    ∃ mask, Accepted h.devices m m' optarg mask ∧
      m'.setPolicy = some (if m.weightedInterleave then mpolWeightedInterleave else mpolInterleave) ∧
      ∀ r, m.region = some r →
        m'.task = numaInterleaveMemoryV2 h.kernel r.shmptr r.shmlen mask { m.task with errno := 0 } := by
  simp only [interleave, checknuma, bind_eq_ok, setpolicy_eq_ok, checkerror_eq_ok] at hok
  obtain ⟨-, -, ⟨mask, m1⟩, hparse, m2, ⟨hunset, rfl⟩, rfl, herrno⟩ := hok
  obtain ⟨hdenotes, s, rfl⟩ := parseMask_eq_ok hparse
  refine ⟨mask, ⟨hdenotes, hunset, rfl, rfl, rfl, herrno⟩, rfl, fun r hr => ?_⟩
  simp only [call, hr]

theorem membind_ok (hok : m.membind h optarg = .ok m') :
    ∃ mask, Accepted h.devices m m' optarg mask ∧ m'.setPolicy = some mpolBind ∧
      ∀ r, m.region = some r →
        m'.task = numaSetBindPolicy h.kernel false (numaTonodemaskMemoryV2 h.kernel r.shmptr r.shmlen mask
          (numaSetBindPolicy h.kernel true { m.task with errno := 0 })) := by
  simp only [membind, checknuma, bind_eq_ok, setpolicy_eq_ok, checkerror_eq_ok] at hok
  obtain ⟨-, -, m1, ⟨hunset, rfl⟩, ⟨mask, m2⟩, hparse, rfl, herrno⟩ := hok
  obtain ⟨hdenotes, s, rfl⟩ := parseMask_eq_ok hparse
  refine ⟨mask, ⟨hdenotes, hunset, rfl, rfl, rfl, herrno⟩, rfl, fun r hr => ?_⟩
  simp only [call, hr]

/-- The task in which `-p` and `-P` bind the region. -/
def preferring (h : Host) (m : Main g) : Task g := numaSetBindPolicy h.kernel false { m.task with errno := 0 }

theorem preferred_ok {many : Bool} (hok : m.preferred h many optarg = .ok m') :
    ∃ mask, Accepted h.devices m m' optarg mask ∧ m'.setPolicy.isSome = true ∧
      ∀ r, m.region = some r →
        let t := numaTonodeMemory h.kernel r.shmptr r.shmlen (numaFindFirst mask) (preferring h m)
        m'.task = (numaHasPreferredMany h.kernel t).2 ∧
          m'.setPolicy = some (if (numaHasPreferredMany h.kernel t).1 then mpolPreferredMany
            else mpolPreferred) := by
  simp only [preferred, checknuma, bind_eq_ok] at hok
  obtain ⟨-, -, ⟨mask, m1⟩, hparse, hok⟩ := hok
  obtain ⟨hdenotes, s, rfl⟩ := parseMask_eq_ok hparse
  cases hregion : m.region with
  | some r =>
      simp only [call, hregion, bind_eq_ok, setpolicy_eq_ok, checkerror_eq_ok] at hok
      obtain ⟨m2, ⟨hunset, rfl⟩, rfl, herrno⟩ := hok
      refine ⟨mask, ⟨hdenotes, hunset, rfl, hregion.symm ▸ rfl, rfl, herrno⟩, rfl, fun r' hr => ?_⟩
      cases hr
      exact ⟨rfl, rfl⟩
  | none =>
      simp only [call, hregion] at hok
      split at hok
      · simp only [bind_eq_ok, setpolicy_eq_ok, checkerror_eq_ok] at hok
        obtain ⟨-, -, m2, ⟨hunset, rfl⟩, rfl, herrno⟩ := hok
        exact ⟨mask, ⟨hdenotes, hunset, rfl, hregion.symm ▸ rfl, rfl, herrno⟩, rfl, fun r hr => by cases hr⟩
      · simp only [bind_eq_ok, setpolicy_eq_ok, checkerror_eq_ok] at hok
        obtain ⟨m2, ⟨hunset, rfl⟩, rfl, herrno⟩ := hok
        exact ⟨mask, ⟨hdenotes, hunset, rfl, hregion.symm ▸ rfl, rfl, herrno⟩, rfl, fun r hr => by cases hr⟩

theorem preferredMany_ok (hok : m.preferredMany h optarg = .ok m') :
    { m with task := (numaHasPreferredMany h.kernel m.task).2 }.preferred h true optarg = .ok m' := by
  simp only [preferredMany, bind_eq_ok] at hok
  obtain ⟨-, -, hok⟩ := hok
  exact hok

theorem attach_ok {attached : ShmArgs → Option Region} (hok : m.attach attached = .ok m') :
    m.setPolicy = none ∧ ∃ r, attached m.shmArgs = some r ∧ m' = { m with
      region := some r, shmArgs := { m.shmArgs with shmlen := r.shmlen }, shmattached := true } := by
  simp only [attach, nopolicy, bind_eq_ok, stopIf_eq_ok] at hok
  obtain ⟨-, -, -, hunset, hok⟩ := hok
  split at hok
  · cases hok
  · next r hr => exact ⟨not_not.mp hunset, r, hr, (Except.ok.inj hok).symm⟩

theorem verify_ok (hok : m.verify h = .ok m') : m' = m := by
  simp only [verify, bind_eq_ok] at hok
  obtain ⟨-, -, hok⟩ := hok
  split at hok
  · cases hok
  · simp only [bind_eq_ok] at hok
    obtain ⟨-, -, hok⟩ := hok
    split at hok
    · split at hok
      · cases hok
      · exact (Except.ok.inj hok).symm
    · cases hok

theorem localalloc_ok (hok : m.localalloc h = .ok m') :
    m.setPolicy = none ∧ m'.setPolicy.isSome = true ∧ m'.region = m.region := by
  simp only [localalloc, bind_eq_ok, setpolicy_eq_ok, checkerror_eq_ok] at hok
  obtain ⟨-, -, m1, ⟨hunset, rfl⟩, rfl, -⟩ := hok
  exact ⟨hunset, rfl, rfl⟩

end Main

/-- The memory policy options. -/
def Opt.setsPolicy : Opt → Bool
  | .weightedInterleave _ => true
  | .interleave _ => true
  | .membind _ => true
  | .preferredMany _ => true
  | .preferred _ => true
  | .localalloc => true
  | _ => false

/-- The options that attach a region. -/
def Opt.attaches : Opt → Bool
  | .shm _ => true
  | .file _ => true
  | _ => false

/-- The CPU binding options. -/
def Opt.bindsCpus : Opt → Bool
  | .cpunodebind _ => true
  | .physcpubind _ => true
  | _ => false

/-- The options that go through `noshm`: they describe the region a later option attaches. -/
def Opt.describesRegion : Opt → Bool
  | .length _ => true
  | .shmmode _ => true
  | .huge => true
  | .offset _ => true
  | _ => false

/-- The argument of `--length`. -/
def Opt.lengthText : Opt → Option (List Char)
  | .length optarg => some optarg
  | _ => none

/-- The argument of `--offset`. -/
def Opt.offsetText : Opt → Option (List Char)
  | .offset optarg => some optarg
  | _ => none

namespace Main

variable {h : Host} {m m' : Main g} {opt : Opt}

/-- An accepted memory policy option. -/
structure Sets (opt : Opt) (m m' : Main g) : Prop where
  setsPolicy : opt.setsPolicy = true
  unset : m.setPolicy = none
  isSome : m'.setPolicy.isSome = true
  region_eq : m'.region = m.region

/-- Any other accepted option: it leaves the policies, the record of one and the probe alone, and attaches a
region only before a policy is recorded. -/
structure Quiet (opt : Opt) (m m' : Main g) : Prop where
  setsPolicy : opt.setsPolicy = false
  setPolicy_eq : m'.setPolicy = m.setPolicy
  weighted_eq : m'.weightedInterleave = m.weightedInterleave
  policy_eq : m'.task.policy = m.task.policy
  pages_eq : m'.task.pages = m.task.pages
  probed_eq : m'.task.hasPreferredMany = m.task.hasPreferredMany
  attached : opt.attaches = true → m.setPolicy = none ∧ m'.region.isSome = true
  region_eq : opt.attaches = false → m'.region = m.region

theorem Quiet.of_same (hopt : opt.setsPolicy = false ∧ opt.attaches = false)
    (hmain : m'.setPolicy = m.setPolicy ∧ m'.weightedInterleave = m.weightedInterleave ∧
      m'.region = m.region)
    (htask : m'.task.policy = m.task.policy ∧ m'.task.pages = m.task.pages ∧
      m'.task.hasPreferredMany = m.task.hasPreferredMany) : Quiet opt m m' where
  setsPolicy := hopt.1
  setPolicy_eq := hmain.1
  weighted_eq := hmain.2.1
  policy_eq := htask.1
  pages_eq := htask.2.1
  probed_eq := htask.2.2
  attached hattaches := Bool.noConfusion (hattaches.symm.trans hopt.2)
  region_eq _ := hmain.2.2

/-- Every accepted option is of one kind or the other. -/
theorem step_ok (hok : m.step h opt = .ok m') : Sets opt m m' ∨ Quiet opt m m' := by
  cases opt with
  | «show» => cases hok
  | hardware =>
      simp only [step, bind_eq_ok, pure_eq_ok] at hok
      obtain ⟨-, -, rfl⟩ := hok
      exact Or.inr (.of_same ⟨rfl, rfl⟩ ⟨rfl, rfl, rfl⟩ ⟨rfl, rfl, rfl⟩)
  | balancing =>
      simp only [step, bind_eq_ok, pure_eq_ok] at hok
      obtain ⟨-, -, rfl⟩ := hok
      exact Or.inr (.of_same ⟨rfl, rfl⟩ ⟨rfl, rfl, rfl⟩ ⟨rfl, rfl, rfl⟩)
  | weightedInterleave arg =>
      obtain ⟨mask, hacc, hpolicy, -⟩ := interleave_ok hok
      exact Or.inl ⟨rfl, hacc.unset, by rw [hpolicy]; rfl, hacc.region_eq⟩
  | interleave arg =>
      obtain ⟨mask, hacc, hpolicy, -⟩ := interleave_ok hok
      exact Or.inl ⟨rfl, hacc.unset, by rw [hpolicy]; rfl, hacc.region_eq⟩
  | cpunodebind arg =>
      simp only [step, cpunodebind, bind_eq_ok, checkerror_eq_ok] at hok
      obtain ⟨-, -, -, -, ⟨mask, m1⟩, hparse, -, -, rfl, -⟩ := hok
      obtain ⟨-, s, rfl⟩ := parseMask_eq_ok hparse
      have hframe := runOnNodeMask_frame (k := h.kernel) g.numaPossibleNodesPtr mask { m.task with errno := 0 }
      exact Or.inr (.of_same ⟨rfl, rfl⟩ ⟨rfl, rfl, rfl⟩
        ⟨(congrArg Task.policy hframe :), (congrArg Task.pages hframe :),
          (congrArg Task.hasPreferredMany hframe :)⟩)
  | physcpubind arg =>
      simp only [step, physcpubind, bind_eq_ok] at hok
      obtain ⟨-, -, hok⟩ := hok
      split at hok
      · cases hok
      · next cpubuf _ =>
        simp only [bind_eq_ok, checkerror_eq_ok] at hok
        obtain ⟨-, -, rfl, -⟩ := hok
        have hframe := h.kernel.schedSetaffinity_frame 0 (numaBitmaskNbytes cpubuf) cpubuf.maskp
          { m.task with errno := 0 }
        exact Or.inr (.of_same ⟨rfl, rfl⟩ ⟨rfl, rfl, rfl⟩
          ⟨(congrArg Task.policy hframe :), (congrArg Task.pages hframe :),
            (congrArg Task.hasPreferredMany hframe :)⟩)
  | membind arg =>
      obtain ⟨mask, hacc, hpolicy, -⟩ := membind_ok hok
      exact Or.inl ⟨rfl, hacc.unset, by rw [hpolicy]; rfl, hacc.region_eq⟩
  | preferredMany arg =>
      obtain ⟨mask, hacc, hsome, -⟩ := preferred_ok (preferredMany_ok hok)
      exact Or.inl ⟨rfl, hacc.unset, hsome, hacc.region_eq⟩
  | preferred arg =>
      obtain ⟨mask, hacc, hsome, -⟩ := preferred_ok hok
      exact Or.inl ⟨rfl, hacc.unset, hsome, hacc.region_eq⟩
  | localalloc =>
      obtain ⟨hunset, hsome, hregion⟩ := localalloc_ok hok
      exact Or.inl ⟨rfl, hunset, hsome, hregion⟩
  | shm arg =>
      obtain ⟨hunset, r, -, rfl⟩ := attach_ok hok
      exact Or.inr ⟨rfl, rfl, rfl, rfl, rfl, rfl, fun _ => ⟨hunset, rfl⟩, fun hattaches => by cases hattaches⟩
  | file arg =>
      obtain ⟨hunset, r, -, rfl⟩ := attach_ok hok
      exact Or.inr ⟨rfl, rfl, rfl, rfl, rfl, rfl, fun _ => ⟨hunset, rfl⟩, fun hattaches => by cases hattaches⟩
  | length arg =>
      simp only [step, noshm, bind_eq_ok, pure_eq_ok] at hok
      obtain ⟨-, ⟨-, -, rfl⟩, rfl⟩ := hok
      exact Or.inr (.of_same ⟨rfl, rfl⟩ ⟨rfl, rfl, rfl⟩ ⟨rfl, rfl, rfl⟩)
  | shmmode arg =>
      simp only [step, noshm, bind_eq_ok, pure_eq_ok] at hok
      obtain ⟨-, ⟨-, -, rfl⟩, shmmode, -, rfl⟩ := hok
      exact Or.inr (.of_same ⟨rfl, rfl⟩ ⟨rfl, rfl, rfl⟩ ⟨rfl, rfl, rfl⟩)
  | dump =>
      simp only [step, bind_eq_ok, pure_eq_ok] at hok
      obtain ⟨-, -, rfl⟩ := hok
      exact Or.inr (.of_same ⟨rfl, rfl⟩ ⟨rfl, rfl, rfl⟩ ⟨rfl, rfl, rfl⟩)
  | dumpNodes =>
      simp only [step, bind_eq_ok, pure_eq_ok] at hok
      obtain ⟨-, -, rfl⟩ := hok
      exact Or.inr (.of_same ⟨rfl, rfl⟩ ⟨rfl, rfl, rfl⟩ ⟨rfl, rfl, rfl⟩)
  | strict =>
      obtain rfl := Except.ok.inj hok
      exact Or.inr (.of_same ⟨rfl, rfl⟩ ⟨rfl, rfl, rfl⟩ ⟨rfl, rfl, rfl⟩)
  | shmid arg =>
      simp only [step, bind_eq_ok, pure_eq_ok] at hok
      obtain ⟨shmid, -, rfl⟩ := hok
      exact Or.inr (.of_same ⟨rfl, rfl⟩ ⟨rfl, rfl, rfl⟩ ⟨rfl, rfl, rfl⟩)
  | huge =>
      simp only [step, noshm, bind_eq_ok, pure_eq_ok] at hok
      obtain ⟨-, ⟨-, -, rfl⟩, rfl⟩ := hok
      exact Or.inr (.of_same ⟨rfl, rfl⟩ ⟨rfl, rfl, rfl⟩ ⟨rfl, rfl, rfl⟩)
  | offset arg =>
      simp only [step, noshm, bind_eq_ok, pure_eq_ok] at hok
      obtain ⟨-, ⟨-, -, rfl⟩, rfl⟩ := hok
      exact Or.inr (.of_same ⟨rfl, rfl⟩ ⟨rfl, rfl, rfl⟩ ⟨rfl, rfl, rfl⟩)
  | touch =>
      simp only [step, bind_eq_ok, pure_eq_ok] at hok
      obtain ⟨-, -, -, -, rfl⟩ := hok
      exact Or.inr (.of_same ⟨rfl, rfl⟩ ⟨rfl, rfl, rfl⟩ ⟨rfl, rfl, rfl⟩)
  | verify =>
      obtain rfl := verify_ok hok
      exact Or.inr (.of_same ⟨rfl, rfl⟩ ⟨rfl, rfl, rfl⟩ ⟨rfl, rfl, rfl⟩)
  | all =>
      simp only [step, bind_eq_ok, pure_eq_ok] at hok
      obtain ⟨-, -, rfl⟩ := hok
      exact Or.inr (.of_same ⟨rfl, rfl⟩ ⟨rfl, rfl, rfl⟩ ⟨rfl, rfl, rfl⟩)
  | cpuCompress =>
      obtain rfl := Except.ok.inj hok
      exact Or.inr (.of_same ⟨rfl, rfl⟩ ⟨rfl, rfl, rfl⟩ ⟨rfl, rfl, rfl⟩)
  | version =>
      simp only [step, bind_eq_ok] at hok
      obtain ⟨-, -, hok⟩ := hok
      cases hok
  | unknown => cases hok

/-- The variables of an accepted option that keep CPU bindings and regions apart, or describe the region. -/
structure Leaves (opt : Opt) (m m' : Main g) : Prop where
  didCpubind_eq : m'.didCpubind = (m.didCpubind || opt.bindsCpus)
  shmoption_eq : m'.shmoption.isSome = (m.shmoption.isSome || opt.describesRegion)
  doShm_eq : m'.doShm = m.doShm
  shmlen_eq : opt.attaches = false → m'.shmArgs.shmlen = opt.lengthText.elim m.shmArgs.shmlen memsize
  shmoffset_eq : m'.shmArgs.shmoffset = opt.offsetText.elim m.shmArgs.shmoffset memsize

/-- An option that leaves all of them as they were. -/
structure SameVars (m m' : Main g) : Prop where
  didCpubind_eq : m'.didCpubind = m.didCpubind
  shmoption_eq : m'.shmoption = m.shmoption
  doShm_eq : m'.doShm = m.doShm
  shmArgs_eq : m'.shmArgs = m.shmArgs

theorem SameVars.leaves (hsame : SameVars m m') (hopt : opt.bindsCpus = false ∧ opt.describesRegion = false)
    (htext : opt.lengthText = none ∧ opt.offsetText = none) : Leaves opt m m' where
  didCpubind_eq := by rw [hopt.1, Bool.or_false, hsame.didCpubind_eq]
  shmoption_eq := by rw [hopt.2, Bool.or_false, hsame.shmoption_eq]
  doShm_eq := hsame.doShm_eq
  shmlen_eq _ := by rw [htext.1, hsame.shmArgs_eq]; rfl
  shmoffset_eq := by rw [htext.2, hsame.shmArgs_eq]; rfl

theorem interleave_sameVars {optarg : List Char} (hok : m.interleave h optarg = .ok m') : SameVars m m' := by
  simp only [interleave, checknuma, bind_eq_ok, setpolicy_eq_ok, checkerror_eq_ok] at hok
  obtain ⟨-, -, ⟨mask, m1⟩, hparse, m2, ⟨-, rfl⟩, rfl, -⟩ := hok
  obtain ⟨-, s, rfl⟩ := parseMask_eq_ok hparse
  exact ⟨rfl, rfl, rfl, rfl⟩

theorem membind_sameVars {optarg : List Char} (hok : m.membind h optarg = .ok m') : SameVars m m' := by
  simp only [membind, checknuma, bind_eq_ok, setpolicy_eq_ok, checkerror_eq_ok] at hok
  obtain ⟨-, -, m1, ⟨-, rfl⟩, ⟨mask, m2⟩, hparse, rfl, -⟩ := hok
  obtain ⟨-, s, rfl⟩ := parseMask_eq_ok hparse
  exact ⟨rfl, rfl, rfl, rfl⟩

theorem preferred_sameVars {many : Bool} {optarg : List Char} (hok : m.preferred h many optarg = .ok m') :
    SameVars m m' := by
  simp only [preferred, checknuma, bind_eq_ok] at hok
  obtain ⟨-, -, ⟨mask, m1⟩, hparse, hok⟩ := hok
  obtain ⟨-, s, rfl⟩ := parseMask_eq_ok hparse
  cases hregion : m.region with
  | some r =>
      simp only [call, hregion, bind_eq_ok, setpolicy_eq_ok, checkerror_eq_ok] at hok
      obtain ⟨m2, ⟨-, rfl⟩, rfl, -⟩ := hok
      exact ⟨rfl, rfl, rfl, rfl⟩
  | none =>
      simp only [call, hregion] at hok
      split at hok
      · simp only [bind_eq_ok, setpolicy_eq_ok, checkerror_eq_ok] at hok
        obtain ⟨-, -, m2, ⟨-, rfl⟩, rfl, -⟩ := hok
        exact ⟨rfl, rfl, rfl, rfl⟩
      · simp only [bind_eq_ok, setpolicy_eq_ok, checkerror_eq_ok] at hok
        obtain ⟨m2, ⟨-, rfl⟩, rfl, -⟩ := hok
        exact ⟨rfl, rfl, rfl, rfl⟩

/-- Only the options that bind CPUs, describe a region or attach one touch these variables. -/
theorem leaves_step (hok : m.step h opt = .ok m') : Leaves opt m m' := by
  cases opt with
  | «show» => cases hok
  | hardware =>
      simp only [step, bind_eq_ok, pure_eq_ok] at hok
      obtain ⟨-, -, rfl⟩ := hok
      exact SameVars.leaves ⟨rfl, rfl, rfl, rfl⟩ ⟨rfl, rfl⟩ ⟨rfl, rfl⟩
  | balancing =>
      simp only [step, bind_eq_ok, pure_eq_ok] at hok
      obtain ⟨-, -, rfl⟩ := hok
      exact SameVars.leaves ⟨rfl, rfl, rfl, rfl⟩ ⟨rfl, rfl⟩ ⟨rfl, rfl⟩
  | weightedInterleave arg =>
      obtain ⟨hdid, hshm, hdo, hargs⟩ :=
        @interleave_sameVars _ h { m with weightedInterleave := true } m' arg hok
      exact SameVars.leaves ⟨hdid, hshm, hdo, hargs⟩ ⟨rfl, rfl⟩ ⟨rfl, rfl⟩
  | interleave arg => exact (interleave_sameVars hok).leaves ⟨rfl, rfl⟩ ⟨rfl, rfl⟩
  | cpunodebind arg =>
      simp only [step, cpunodebind, bind_eq_ok, checkerror_eq_ok] at hok
      obtain ⟨-, -, -, -, ⟨mask, m1⟩, hparse, -, -, rfl, -⟩ := hok
      obtain ⟨-, s, rfl⟩ := parseMask_eq_ok hparse
      exact ⟨(Bool.or_true _).symm, (Bool.or_false _).symm, rfl, fun _ => rfl, rfl⟩
  | physcpubind arg =>
      simp only [step, physcpubind, bind_eq_ok] at hok
      obtain ⟨-, -, hok⟩ := hok
      split at hok
      · cases hok
      · simp only [bind_eq_ok, checkerror_eq_ok] at hok
        obtain ⟨-, -, rfl, -⟩ := hok
        exact ⟨(Bool.or_true _).symm, (Bool.or_false _).symm, rfl, fun _ => rfl, rfl⟩
  | membind arg => exact (membind_sameVars hok).leaves ⟨rfl, rfl⟩ ⟨rfl, rfl⟩
  | preferredMany arg =>
      obtain ⟨hdid, hshm, hdo, hargs⟩ := preferred_sameVars (preferredMany_ok hok)
      exact SameVars.leaves ⟨hdid, hshm, hdo, hargs⟩ ⟨rfl, rfl⟩ ⟨rfl, rfl⟩
  | preferred arg => exact (preferred_sameVars hok).leaves ⟨rfl, rfl⟩ ⟨rfl, rfl⟩
  | localalloc =>
      simp only [step, localalloc, bind_eq_ok, setpolicy_eq_ok, checkerror_eq_ok] at hok
      obtain ⟨-, -, m1, ⟨-, rfl⟩, rfl, -⟩ := hok
      exact SameVars.leaves ⟨rfl, rfl, rfl, rfl⟩ ⟨rfl, rfl⟩ ⟨rfl, rfl⟩
  | shm arg =>
      obtain ⟨-, r, -, rfl⟩ := attach_ok hok
      exact ⟨(Bool.or_false _).symm, (Bool.or_false _).symm, rfl, (fun hattaches => by cases hattaches), rfl⟩
  | file arg =>
      obtain ⟨-, r, -, rfl⟩ := attach_ok hok
      exact ⟨(Bool.or_false _).symm, (Bool.or_false _).symm, rfl, (fun hattaches => by cases hattaches), rfl⟩
  | length arg =>
      simp only [step, noshm, bind_eq_ok, pure_eq_ok] at hok
      obtain ⟨-, ⟨-, -, rfl⟩, rfl⟩ := hok
      exact ⟨(Bool.or_false _).symm, (Bool.or_true _).symm, rfl, fun _ => rfl, rfl⟩
  | shmmode arg =>
      simp only [step, noshm, bind_eq_ok, pure_eq_ok] at hok
      obtain ⟨-, ⟨-, -, rfl⟩, shmmode, -, rfl⟩ := hok
      exact ⟨(Bool.or_false _).symm, (Bool.or_true _).symm, rfl, fun _ => rfl, rfl⟩
  | dump =>
      simp only [step, bind_eq_ok, pure_eq_ok] at hok
      obtain ⟨-, -, rfl⟩ := hok
      exact SameVars.leaves ⟨rfl, rfl, rfl, rfl⟩ ⟨rfl, rfl⟩ ⟨rfl, rfl⟩
  | dumpNodes =>
      simp only [step, bind_eq_ok, pure_eq_ok] at hok
      obtain ⟨-, -, rfl⟩ := hok
      exact SameVars.leaves ⟨rfl, rfl, rfl, rfl⟩ ⟨rfl, rfl⟩ ⟨rfl, rfl⟩
  | strict =>
      obtain rfl := Except.ok.inj hok
      exact SameVars.leaves ⟨rfl, rfl, rfl, rfl⟩ ⟨rfl, rfl⟩ ⟨rfl, rfl⟩
  | shmid arg =>
      simp only [step, bind_eq_ok, pure_eq_ok] at hok
      obtain ⟨shmid, -, rfl⟩ := hok
      exact ⟨(Bool.or_false _).symm, (Bool.or_false _).symm, rfl, fun _ => rfl, rfl⟩
  | huge =>
      simp only [step, noshm, bind_eq_ok, pure_eq_ok] at hok
      obtain ⟨-, ⟨-, -, rfl⟩, rfl⟩ := hok
      exact ⟨(Bool.or_false _).symm, (Bool.or_true _).symm, rfl, fun _ => rfl, rfl⟩
  | offset arg =>
      simp only [step, noshm, bind_eq_ok, pure_eq_ok] at hok
      obtain ⟨-, ⟨-, -, rfl⟩, rfl⟩ := hok
      exact ⟨(Bool.or_false _).symm, (Bool.or_true _).symm, rfl, fun _ => rfl, rfl⟩
  | touch =>
      simp only [step, bind_eq_ok, pure_eq_ok] at hok
      obtain ⟨-, -, -, -, rfl⟩ := hok
      exact SameVars.leaves ⟨rfl, rfl, rfl, rfl⟩ ⟨rfl, rfl⟩ ⟨rfl, rfl⟩
  | verify =>
      obtain rfl := verify_ok hok
      exact SameVars.leaves ⟨rfl, rfl, rfl, rfl⟩ ⟨rfl, rfl⟩ ⟨rfl, rfl⟩
  | all =>
      simp only [step, bind_eq_ok, pure_eq_ok] at hok
      obtain ⟨-, -, rfl⟩ := hok
      exact SameVars.leaves ⟨rfl, rfl, rfl, rfl⟩ ⟨rfl, rfl⟩ ⟨rfl, rfl⟩
  | cpuCompress =>
      obtain rfl := Except.ok.inj hok
      exact SameVars.leaves ⟨rfl, rfl, rfl, rfl⟩ ⟨rfl, rfl⟩ ⟨rfl, rfl⟩
  | version =>
      simp only [step, bind_eq_ok] at hok
      obtain ⟨-, -, hok⟩ := hok
      cases hok
  | unknown => cases hok

/-- The flag of `-w` is only set with a policy, which the options never unset. -/
def WeightedRecorded (m : Main g) : Prop := m.weightedInterleave = true → m.setPolicy.isSome = true

/-- Every accepted option keeps the invariant. -/
theorem weightedRecorded_step (hm : WeightedRecorded m) (hok : m.step h opt = .ok m') :
    WeightedRecorded m' := by
  rcases step_ok hok with hsets | hquiet
  · exact fun _ => hsets.isSome
  · intro hw
    rw [hquiet.setPolicy_eq]
    exact hm (hquiet.weighted_eq ▸ hw)

end Main

end Numactl
