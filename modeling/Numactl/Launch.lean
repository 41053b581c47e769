import Numactl.MaskBits
import Numactl.PolicyConflict

/-! What a command is launched with (`main` of `numactl.c` behind its option loop). The program prints the
hardware, ends, or replaces itself by the command; the command inherits the policy of the task. The variables
that decide about it are read off the options given, and the policy off the only option that sets one. -/

namespace Numactl

open Runs (bind_eq_ok pure_eq_ok)

variable {g : Globals}

/-- How the program goes on behind the option loop: it prints the hardware and ends, ends with the `exitcode` of
`shm.c`, or executes a command. -/
inductive Launch (g : Globals) where
  | hardware (main : Main g)
  | exitcode (main : Main g)
  | execvp (av : List (List Char)) (main : Main g)

namespace Main

/-- `main` behind the loop, with the arguments left. The warning about `--strict` is not modelled. -/
def finish (av : List (List Char)) (m : Main g) : Except (Stopped g) (Launch g) :=
  if m.doHardware = true then .ok (.hardware m)
  else if m.region.isSome = true then do
    m.stopIf (av ≠ []) (.usage none)
    return .exitcode m
  else do
    m.stopIf (m.doDump = true) (.usage (some "cannot do --dump|--dump-shm for process"))
    match m.shmoption with
    | some shmoption => .error ⟨.usage (some ("shm related option " ++ shmoption ++ " for process")), m⟩
    | none =>
        m.stopIf (av = []) (.usage none)
        return .execvp av m

/-- `main`, from the options and the arguments behind them. -/
def run (h : Host) (t : Task g) (opts : List Opt) (av : List (List Char)) : Except (Stopped g) (Launch g) :=
  (initial t).optionLoop h opts >>= finish av

end Main

/-! ### The variables, from the options -/

namespace Opt

def isHardware : Opt → Bool
  | .hardware => true
  | _ => false

def isBalancing : Opt → Bool
  | .balancing => true
  | _ => false

def isAll : Opt → Bool
  | .all => true
  | _ => false

def isCpuCompress : Opt → Bool
  | .cpuCompress => true
  | _ => false

def dumps : Opt → Bool
  | .dump => true
  | .dumpNodes => true
  | _ => false

/-- The node list of an option that has one. -/
def nodeText : Opt → Option (List Char)
  | .weightedInterleave optarg => some optarg
  | .interleave optarg => some optarg
  | .cpunodebind optarg => some optarg
  | .membind optarg => some optarg
  | .preferredMany optarg => some optarg
  | .preferred optarg => some optarg
  | _ => none

/-- `same` stands for the list before it. -/
def resolve (last : Option (List Char)) (optarg : List Char) : Option (List Char) :=
  if optarg = same then last else some optarg

end Opt

/-- The last node list of the options. -/
def lastNodeText (opts : List Opt) : Option (List Char) :=
  opts.foldl (fun last opt => opt.nodeText.elim last (Opt.resolve last)) none

/-- The mask a node list behind the options `pre` stands for. -/
def Listed (g : Globals) (dv : Devices) (pre : List Opt) (optarg : List Char) (mask : Bitmask) : Prop :=
  ∃ s, Opt.resolve (lastNodeText pre) optarg = some s ∧ nodeParser g dv (pre.any Opt.isAll) s = some mask

namespace Main

/-- What an accepted option leaves in the variables that decide about the launch. -/
structure Marks (opt : Opt) (m m' : Main g) : Prop where
  doHardware_eq : m'.doHardware = (m.doHardware || opt.isHardware)
  numaBalancing_eq : m'.numaBalancing = (m.numaBalancing || opt.isBalancing)
  parseAll_eq : m'.parseAll = (m.parseAll || opt.isAll)
  cpuCompress_eq : m'.cpuCompress = (m.cpuCompress || opt.isCpuCompress)
  last_eq : m'.last = opt.nodeText.elim m.last (Opt.resolve m.last)
  doDump_eq : m'.doDump = (m.doDump || opt.dumps)
  dumped : opt.dumps = true → m.region.isSome = true

/-- An option that leaves all of them as they were, except for the last node list. -/
theorem Marks.of_same {opt : Opt} {m m' : Main g}
    (hopt : opt.isHardware = false ∧ opt.isBalancing = false ∧ opt.isAll = false ∧
      opt.isCpuCompress = false ∧ opt.dumps = false)
    (hsame : m'.doHardware = m.doHardware ∧ m'.numaBalancing = m.numaBalancing ∧ m'.parseAll = m.parseAll ∧
      m'.cpuCompress = m.cpuCompress ∧ m'.doDump = m.doDump)
    (hlast : m'.last = opt.nodeText.elim m.last (Opt.resolve m.last)) : Marks opt m m' where
  doHardware_eq := by rw [hopt.1, Bool.or_false, hsame.1]
  numaBalancing_eq := by rw [hopt.2.1, Bool.or_false, hsame.2.1]
  parseAll_eq := by rw [hopt.2.2.1, Bool.or_false, hsame.2.2.1]
  cpuCompress_eq := by rw [hopt.2.2.2.1, Bool.or_false, hsame.2.2.2.1]
  last_eq := hlast
  doDump_eq := by rw [hopt.2.2.2.2, Bool.or_false, hsame.2.2.2.2]
  dumped hdumps := Bool.noConfusion (hdumps.symm.trans hopt.2.2.2.2)

variable {h : Host} {m m' : Main g} {optarg : List Char} {opt : Opt}

theorem listText_eq (optarg : List Char) (m : Main g) : m.listText optarg = Opt.resolve m.last optarg := rfl

/-- A parsed node list is the last one afterwards. -/
theorem parseMask_last {dv : Devices} {mask : Bitmask} (hparse : m.parseMask dv optarg = .ok (mask, m')) :
    m' = { m with last := Opt.resolve m.last optarg, mask := some mask } := by
  unfold parseMask at hparse
  rw [← listText_eq]
  cases htext : m.listText optarg with
  | none =>
      rw [htext] at hparse
      cases hparse
  | some s =>
      rw [htext] at hparse
      dsimp only at hparse
      cases hmask : nodeParser g dv m.parseAll s with
      | none =>
          rw [hmask] at hparse
          cases hparse
      | some mask' =>
          rw [hmask] at hparse
          cases hparse
          rfl

/-- The five variables an option with a node list leaves alone, and the one it sets. -/
structure Keeps (optarg : List Char) (m m' : Main g) : Prop where
  doHardware_eq : m'.doHardware = m.doHardware
  numaBalancing_eq : m'.numaBalancing = m.numaBalancing
  parseAll_eq : m'.parseAll = m.parseAll
  cpuCompress_eq : m'.cpuCompress = m.cpuCompress
  doDump_eq : m'.doDump = m.doDump
  last_eq : m'.last = Opt.resolve m.last optarg

theorem Keeps.marks (hkeeps : Keeps optarg m m') (htext : opt.nodeText = some optarg)
    (hopt : opt.isHardware = false ∧ opt.isBalancing = false ∧ opt.isAll = false ∧
      opt.isCpuCompress = false ∧ opt.dumps = false) :
    Marks opt m m' :=
  .of_same hopt ⟨hkeeps.doHardware_eq, hkeeps.numaBalancing_eq, hkeeps.parseAll_eq, hkeeps.cpuCompress_eq,
    hkeeps.doDump_eq⟩
    (by rw [htext]; exact hkeeps.last_eq)

theorem interleave_keeps (hok : m.interleave h optarg = .ok m') : Keeps optarg m m' := by
  simp only [interleave, checknuma, bind_eq_ok, setpolicy_eq_ok, checkerror_eq_ok] at hok
  obtain ⟨-, -, ⟨mask, m1⟩, hparse, m2, ⟨-, rfl⟩, rfl, -⟩ := hok
  obtain rfl := parseMask_last hparse
  exact ⟨rfl, rfl, rfl, rfl, rfl, rfl⟩

theorem membind_keeps (hok : m.membind h optarg = .ok m') : Keeps optarg m m' := by
  simp only [membind, checknuma, bind_eq_ok, setpolicy_eq_ok, checkerror_eq_ok] at hok
  obtain ⟨-, -, m1, ⟨-, rfl⟩, ⟨mask, m2⟩, hparse, rfl, -⟩ := hok
  obtain rfl := parseMask_last hparse
  exact ⟨rfl, rfl, rfl, rfl, rfl, rfl⟩

theorem preferred_keeps {many : Bool} (hok : m.preferred h many optarg = .ok m') : Keeps optarg m m' := by
  simp only [preferred, checknuma, bind_eq_ok] at hok
  obtain ⟨-, -, ⟨mask, m1⟩, hparse, hok⟩ := hok
  obtain rfl := parseMask_last hparse
  cases hregion : m.region with
  | some r =>
      simp only [call, hregion, bind_eq_ok, setpolicy_eq_ok, checkerror_eq_ok] at hok
      obtain ⟨m2, ⟨-, rfl⟩, rfl, -⟩ := hok
      exact ⟨rfl, rfl, rfl, rfl, rfl, rfl⟩
  | none =>
      simp only [call, hregion] at hok
      split at hok
      · simp only [bind_eq_ok, setpolicy_eq_ok, checkerror_eq_ok] at hok
        obtain ⟨-, -, m2, ⟨-, rfl⟩, rfl, -⟩ := hok
        exact ⟨rfl, rfl, rfl, rfl, rfl, rfl⟩
      · simp only [bind_eq_ok, setpolicy_eq_ok, checkerror_eq_ok] at hok
        obtain ⟨m2, ⟨-, rfl⟩, rfl, -⟩ := hok
        exact ⟨rfl, rfl, rfl, rfl, rfl, rfl⟩

theorem cpunodebind_keeps (hok : m.cpunodebind h optarg = .ok m') : Keeps optarg m m' := by
  simp only [cpunodebind, bind_eq_ok, checkerror_eq_ok] at hok
  obtain ⟨-, -, -, -, ⟨mask, m1⟩, hparse, -, -, rfl, -⟩ := hok
  obtain rfl := parseMask_last hparse
  exact ⟨rfl, rfl, rfl, rfl, rfl, rfl⟩

/-- An option without a node list that leaves everything but its own variables. -/
theorem Marks.of_unchanged (hopt : opt.isHardware = false ∧ opt.isBalancing = false ∧ opt.isAll = false ∧
    opt.isCpuCompress = false ∧ opt.dumps = false) (htext : opt.nodeText = none)
    (hsame : m'.doHardware = m.doHardware ∧ m'.numaBalancing = m.numaBalancing ∧ m'.parseAll = m.parseAll ∧
      m'.cpuCompress = m.cpuCompress ∧ m'.doDump = m.doDump) (hlast : m'.last = m.last) : Marks opt m m' :=
  .of_same hopt hsame (by rw [htext]; exact hlast)

/-- Every accepted option marks what it says. -/
theorem marks_step (hok : m.step h opt = .ok m') : Marks opt m m' := by
  cases opt with
  | «show» => cases hok
  | hardware =>
      simp only [step, bind_eq_ok, pure_eq_ok] at hok
      obtain ⟨-, -, rfl⟩ := hok
      exact ⟨(Bool.or_true _).symm, (Bool.or_false _).symm, (Bool.or_false _).symm, (Bool.or_false _).symm, rfl,
        (Bool.or_false _).symm, fun hdumps => by cases hdumps⟩
  | balancing =>
      simp only [step, bind_eq_ok, pure_eq_ok] at hok
      obtain ⟨-, -, rfl⟩ := hok
      exact ⟨(Bool.or_false _).symm, (Bool.or_true _).symm, (Bool.or_false _).symm, (Bool.or_false _).symm, rfl,
        (Bool.or_false _).symm, fun hdumps => by cases hdumps⟩
  | weightedInterleave arg =>
      obtain ⟨hhardware, hbalancing, hall, hcompress, hdump, hlast⟩ :=
        @interleave_keeps _ h { m with weightedInterleave := true } m' arg hok
      exact Keeps.marks ⟨hhardware, hbalancing, hall, hcompress, hdump, hlast⟩ rfl ⟨rfl, rfl, rfl, rfl, rfl⟩
  | interleave arg => exact (interleave_keeps hok).marks rfl ⟨rfl, rfl, rfl, rfl, rfl⟩
  | cpunodebind arg => exact (cpunodebind_keeps hok).marks rfl ⟨rfl, rfl, rfl, rfl, rfl⟩
  | physcpubind arg =>
      simp only [step, physcpubind, bind_eq_ok] at hok
      obtain ⟨-, -, hok⟩ := hok
      split at hok
      · cases hok
      · simp only [bind_eq_ok, checkerror_eq_ok] at hok
        obtain ⟨-, -, rfl, -⟩ := hok
        exact .of_unchanged ⟨rfl, rfl, rfl, rfl, rfl⟩ rfl ⟨rfl, rfl, rfl, rfl, rfl⟩ rfl
  | membind arg => exact (membind_keeps hok).marks rfl ⟨rfl, rfl, rfl, rfl, rfl⟩
  | preferredMany arg =>
      obtain ⟨hhardware, hbalancing, hall, hcompress, hdump, hlast⟩ := preferred_keeps (preferredMany_ok hok)
      exact Keeps.marks ⟨hhardware, hbalancing, hall, hcompress, hdump, hlast⟩ rfl ⟨rfl, rfl, rfl, rfl, rfl⟩
  | preferred arg => exact (preferred_keeps hok).marks rfl ⟨rfl, rfl, rfl, rfl, rfl⟩
  | localalloc =>
      simp only [step, localalloc, bind_eq_ok, setpolicy_eq_ok, checkerror_eq_ok] at hok
      obtain ⟨-, -, m1, ⟨-, rfl⟩, rfl, -⟩ := hok
      exact .of_unchanged ⟨rfl, rfl, rfl, rfl, rfl⟩ rfl ⟨rfl, rfl, rfl, rfl, rfl⟩ rfl
  | shm arg =>
      obtain ⟨-, r, -, rfl⟩ := attach_ok hok
      exact .of_unchanged ⟨rfl, rfl, rfl, rfl, rfl⟩ rfl ⟨rfl, rfl, rfl, rfl, rfl⟩ rfl
  | file arg =>
      obtain ⟨-, r, -, rfl⟩ := attach_ok hok
      exact .of_unchanged ⟨rfl, rfl, rfl, rfl, rfl⟩ rfl ⟨rfl, rfl, rfl, rfl, rfl⟩ rfl
  | length arg =>
      simp only [step, noshm, bind_eq_ok, pure_eq_ok] at hok
      obtain ⟨-, ⟨-, -, rfl⟩, rfl⟩ := hok
      exact .of_unchanged ⟨rfl, rfl, rfl, rfl, rfl⟩ rfl ⟨rfl, rfl, rfl, rfl, rfl⟩ rfl
  | shmmode arg =>
      simp only [step, noshm, bind_eq_ok, pure_eq_ok] at hok
      obtain ⟨-, ⟨-, -, rfl⟩, shmmode, -, rfl⟩ := hok
      exact .of_unchanged ⟨rfl, rfl, rfl, rfl, rfl⟩ rfl ⟨rfl, rfl, rfl, rfl, rfl⟩ rfl
  | dump =>
      simp only [step, bind_eq_ok, stopIf_eq_ok, pure_eq_ok] at hok
      obtain ⟨-, hregion, rfl⟩ := hok
      exact ⟨(Bool.or_false _).symm, (Bool.or_false _).symm, (Bool.or_false _).symm, (Bool.or_false _).symm, rfl,
        (Bool.or_true _).symm, fun _ => Option.isSome_iff_ne_none.mpr fun hnone => hregion (by rw [hnone]; rfl)⟩
  | dumpNodes =>
      simp only [step, bind_eq_ok, stopIf_eq_ok, pure_eq_ok] at hok
      obtain ⟨-, hregion, rfl⟩ := hok
      exact ⟨(Bool.or_false _).symm, (Bool.or_false _).symm, (Bool.or_false _).symm, (Bool.or_false _).symm, rfl,
        (Bool.or_true _).symm, fun _ => Option.isSome_iff_ne_none.mpr fun hnone => hregion (by rw [hnone]; rfl)⟩
  | strict =>
      obtain rfl := Except.ok.inj hok
      exact .of_unchanged ⟨rfl, rfl, rfl, rfl, rfl⟩ rfl ⟨rfl, rfl, rfl, rfl, rfl⟩ rfl
  | shmid arg =>
      simp only [step, bind_eq_ok, pure_eq_ok] at hok
      obtain ⟨shmid, -, rfl⟩ := hok
      exact .of_unchanged ⟨rfl, rfl, rfl, rfl, rfl⟩ rfl ⟨rfl, rfl, rfl, rfl, rfl⟩ rfl
  | huge =>
      simp only [step, noshm, bind_eq_ok, pure_eq_ok] at hok
      obtain ⟨-, ⟨-, -, rfl⟩, rfl⟩ := hok
      exact .of_unchanged ⟨rfl, rfl, rfl, rfl, rfl⟩ rfl ⟨rfl, rfl, rfl, rfl, rfl⟩ rfl
  | offset arg =>
      simp only [step, noshm, bind_eq_ok, pure_eq_ok] at hok
      obtain ⟨-, ⟨-, -, rfl⟩, rfl⟩ := hok
      exact .of_unchanged ⟨rfl, rfl, rfl, rfl, rfl⟩ rfl ⟨rfl, rfl, rfl, rfl, rfl⟩ rfl
  | touch =>
      simp only [step, bind_eq_ok, pure_eq_ok] at hok
      obtain ⟨-, -, -, -, rfl⟩ := hok
      exact .of_unchanged ⟨rfl, rfl, rfl, rfl, rfl⟩ rfl ⟨rfl, rfl, rfl, rfl, rfl⟩ rfl
  | verify =>
      obtain rfl := verify_ok hok
      exact .of_unchanged ⟨rfl, rfl, rfl, rfl, rfl⟩ rfl ⟨rfl, rfl, rfl, rfl, rfl⟩ rfl
  | all =>
      simp only [step, bind_eq_ok, pure_eq_ok] at hok
      obtain ⟨-, -, rfl⟩ := hok
      exact ⟨(Bool.or_false _).symm, (Bool.or_false _).symm, (Bool.or_true _).symm, (Bool.or_false _).symm, rfl,
        (Bool.or_false _).symm, fun hdumps => by cases hdumps⟩
  | cpuCompress =>
      obtain rfl := Except.ok.inj hok
      exact ⟨(Bool.or_false _).symm, (Bool.or_false _).symm, (Bool.or_false _).symm, (Bool.or_true _).symm, rfl,
        (Bool.or_false _).symm, fun hdumps => by cases hdumps⟩
  | version =>
      simp only [step, bind_eq_ok] at hok
      obtain ⟨-, -, hok⟩ := hok
      cases hok
  | unknown => cases hok

variable {t : Task g} {pre : List Opt}

/-- The variables after any accepted options. -/
structure Marked (pre : List Opt) (m : Main g) : Prop where
  doHardware_eq : m.doHardware = pre.any Opt.isHardware
  numaBalancing_eq : m.numaBalancing = pre.any Opt.isBalancing
  parseAll_eq : m.parseAll = pre.any Opt.isAll
  cpuCompress_eq : m.cpuCompress = pre.any Opt.isCpuCompress
  last_eq : m.last = lastNodeText pre
  shmoption_eq : m.shmoption.isSome = pre.any Opt.describesRegion
  region_eq : m.region.isSome = pre.any Opt.attaches
  dumped : m.doDump = true → m.region.isSome = true

theorem marked_of_accepted (hok : (initial t).optionLoop h pre = .ok m) : Marked pre m := by
  refine Runs.accepted_history_rule (I := fun pre m => Marked pre m)
    ⟨rfl, rfl, rfl, rfl, rfl, rfl, rfl, fun hdump => by cases hdump⟩ (fun pre c opt d hpre hc hstep => ?_) hok
  have hmarks := marks_step hstep
  have hregion : (pre ++ [opt]).any Opt.attaches = d.region.isSome :=
    (region_of_accepted (by rw [optionLoop, List.foldlM_append]; exact (bind_eq_ok.mpr ⟨c, hpre, by
      simpa only [List.foldlM_cons, List.foldlM_nil, bind_pure] using hstep⟩))).symm
  have hany : ∀ p : Opt → Bool, (pre ++ [opt]).any p = (pre.any p || p opt) := by
    intro p
    rw [List.any_append, List.any_cons, List.any_nil, Bool.or_false]
  have hkept : c.region.isSome = true → d.region.isSome = true := by
    intro hsome
    rw [← hregion, hany, ← hc.region_eq, hsome, Bool.true_or]
  refine ⟨?_, ?_, ?_, ?_, ?_, ?_, hregion.symm, fun hdump => ?_⟩
  · rw [hany, ← hc.doHardware_eq, hmarks.doHardware_eq]
  · rw [hany, ← hc.numaBalancing_eq, hmarks.numaBalancing_eq]
  · rw [hany, ← hc.parseAll_eq, hmarks.parseAll_eq]
  · rw [hany, ← hc.cpuCompress_eq, hmarks.cpuCompress_eq]
  · rw [lastNodeText, List.foldl_append, List.foldl_cons, List.foldl_nil, ← lastNodeText, ← hc.last_eq, hmarks.last_eq]
  · rw [hany, ← hc.shmoption_eq, (leaves_step hstep).shmoption_eq]
  · rw [hmarks.doDump_eq, Bool.or_eq_true] at hdump
    exact hkept (hdump.elim hc.dumped hmarks.dumped)

/-- What a node list stands for is decided by the options before it. -/
theorem denotes_iff_listed (hok : (initial t).optionLoop h pre = .ok m) {dv : Devices} {mask : Bitmask} :
    m.Denotes dv optarg mask ↔ Listed g dv pre optarg mask := by
  have hmarked := marked_of_accepted hok
  rw [Denotes, Listed, listText_eq, hmarked.last_eq, hmarked.parseAll_eq]

/-- A command is executed exactly if there is one and no option asks for the hardware or for a region. -/
theorem finish_eq_execvp_iff (hok : (initial t).optionLoop h pre = .ok m) {av command : List (List Char)} :
    finish av m = .ok (.execvp command m') ↔ (command = av ∧ m' = m) ∧ av ≠ [] ∧
      ∀ opt ∈ pre, opt.isHardware = false ∧ opt.attaches = false ∧ opt.describesRegion = false := by
  have hmarked := marked_of_accepted hok
  have hquiet : (m.doHardware = false ∧ m.region.isSome = false ∧ m.shmoption.isSome = false) ↔
      ∀ opt ∈ pre, opt.isHardware = false ∧ opt.attaches = false ∧ opt.describesRegion = false := by
    rw [hmarked.doHardware_eq, hmarked.region_eq, hmarked.shmoption_eq]
    simp only [List.any_eq_false, Bool.not_eq_true]
    exact ⟨fun hnone opt hopt => ⟨hnone.1 opt hopt, hnone.2.1 opt hopt, hnone.2.2 opt hopt⟩,
      fun hnone => ⟨fun opt hopt => (hnone opt hopt).1, fun opt hopt => (hnone opt hopt).2.1,
        fun opt hopt => (hnone opt hopt).2.2⟩⟩
  rw [← hquiet, finish]
  by_cases hhardware : m.doHardware = true
  · rw [if_pos hhardware]
    refine iff_of_false (fun heq => by cases heq) fun hcond => ?_
    rw [hhardware] at hcond
    cases hcond.2.2.1
  · rw [if_neg hhardware]
    by_cases hregion : m.region.isSome = true
    · rw [if_pos hregion]
      refine iff_of_false (fun heq => ?_) fun hcond => ?_
      · simp only [bind_eq_ok, pure_eq_ok] at heq
        obtain ⟨-, -, heq⟩ := heq
        cases heq
      · rw [hregion] at hcond
        cases hcond.2.2.2.1
    · -- without a region nothing is dumped
      have hdump : ¬m.doDump = true := fun hdump => hregion (hmarked.dumped hdump)
      rw [if_neg hregion]
      cases hshm : m.shmoption with
      | some shmoption =>
          refine iff_of_false (fun heq => ?_) fun hcond => by cases hcond.2.2.2.2
          simp only [bind_eq_ok] at heq
          obtain ⟨-, -, heq⟩ := heq
          cases heq
      | none =>
          simp only [bind_eq_ok, stopIf_eq_ok, pure_eq_ok]
          refine ⟨fun heq => ?_, fun hcond => ?_⟩
          · obtain ⟨-, -, -, hav, heq⟩ := heq
            cases heq
            exact ⟨⟨rfl, rfl⟩, hav, Bool.not_eq_true _ ▸ hhardware, Bool.not_eq_true _ ▸ hregion, rfl⟩
          · obtain ⟨⟨rfl, rfl⟩, hav, -⟩ := hcond
            exact ⟨(), hdump, (), hav, rfl⟩

end Main

/-! ### The policy set by an option -/

/-- What a kernel that reads one bit less receives of a mask passed with the size of the node masks. -/
def received (g : Globals) (nodes : Finset Nat) : Finset Nat := nodes.filter (· < g.nodemaskSz - 1)

theorem readNodes_size {k : Kernel} (hreads : k.ReadsLow) {bmp : Bitmask} (hsize : bmp.size = g.nodemaskSz) :
    k.readNodes bmp.maskp bmp.size = received g bmp.bits := by
  rw [hreads, hsize]
  apply Finset.ext
  intro i
  rw [received, Finset.mem_filter, Words.mem_bitsBelow, Bitmask.mem_bits, hsize]
  exact ⟨fun hi => ⟨⟨by omega, hi.2⟩, hi.1⟩, fun hi => ⟨hi.2, hi.1.2⟩⟩

/-- With `errno` still 0 afterwards, the policy asked for has been set. -/
theorem setMempolicy_of_errno {k : Kernel} (hb : k.NamesErrors) {policy n : Nat} {words : List Word} {t : Task g}
    (h : (k.setMempolicy policy words n t).2.errno = 0) :
    (k.setMempolicy policy words n t).1 = true ∧
      (k.setMempolicy policy words n t).2.policy = ⟨policy, k.readNodes words n⟩ := by
  unfold Kernel.setMempolicy at h ⊢
  rcases k.ask_cases (.setMempolicy policy words n) (fun t => { t with policy := ⟨policy, k.readNodes words n⟩ }) t
    with ⟨e, he, hask⟩ | ⟨-, hask⟩
  · rw [hask] at h
    obtain rfl : e = 0 := h
    exact absurd he (hb _)
  · rw [hask]
    exact ⟨rfl, rfl⟩

theorem setpol_of_errno {k : Kernel} (hb : k.NamesErrors) {policy : Nat} {bmp : Bitmask} {t : Task g}
    (h : (setpol k policy bmp t).errno = 0) :
    (setpol k policy bmp t).policy = ⟨policy, k.readNodes bmp.maskp bmp.size⟩ := by
  have hset : (k.setMempolicy policy bmp.maskp bmp.size t).2.errno = 0 := by
    unfold setpol at h
    dsimp only at h
    split at h
    · exact h
    · exact h
  obtain ⟨hret, hpolicy⟩ := setMempolicy_of_errno hb hset
  unfold setpol
  dsimp only
  rw [if_pos hret]
  exact hpolicy

theorem numaBitmaskEqual_noNodes {bmp : Bitmask} : numaBitmaskEqual bmp g.numaNoNodesPtr = true ↔ bmp.bits = ∅ := by
  have hnone : g.numaNoNodesPtr.bits = ∅ := bits_zeroBitmask _
  rw [numaBitmaskEqual_iff, hnone]

/-- Interleaving over no nodes is the default policy. -/
theorem numaSetInterleaveMaskV2_eq (k : Kernel) (bmp : Bitmask) (t : Task g) :
    numaSetInterleaveMaskV2 k bmp t = setpol k (if bmp.bits = ∅ then mpolDefault else mpolInterleave) bmp t := by
  unfold numaSetInterleaveMaskV2
  by_cases hnone : bmp.bits = ∅
  · rw [if_pos hnone, if_pos (numaBitmaskEqual_noNodes.mpr hnone)]
  · rw [if_neg hnone, if_neg (mt numaBitmaskEqual_noNodes.mp hnone)]

theorem numaSetWeightedInterleaveMask_eq (k : Kernel) (bmp : Bitmask) (t : Task g) :
    numaSetWeightedInterleaveMask k bmp t =
      setpol k (if bmp.bits = ∅ then mpolDefault else mpolWeightedInterleave) bmp t := by
  unfold numaSetWeightedInterleaveMask
  by_cases hnone : bmp.bits = ∅
  · rw [if_pos hnone, if_pos (numaBitmaskEqual_noNodes.mpr hnone)]
  · rw [if_neg hnone, if_neg (mt numaBitmaskEqual_noNodes.mp hnone)]

/-- Preferring the only node of a mask. -/
theorem numaSetPreferred_only (k : Kernel) {mask : Bitmask} (hsize : mask.size = g.nodemaskSz)
    (hone : numaBitmaskWeight mask = 1) (t : Task g) :
    ∃ bmp, bmp.size = g.nodemaskSz ∧ bmp.bits = mask.bits ∧
      numaSetPreferred k (numaFindFirst mask) t = setpol k mpolPreferred bmp t := by
  have hcard : mask.bits.card = 1 := (numaBitmaskWeight_eq mask).symm.trans hone
  have hbits := (bits_firstNode_eq_iff hsize).mpr hcard.le
  refine ⟨_, size_numaBitmaskSetbit _ _, hbits, ?_⟩
  rw [numaSetPreferred_eq, numaBitmaskWeight_eq, hbits, hcard, if_pos Nat.one_ne_zero]

/-- The bind with the flag for balancing, or without it where the kernel does not know the flag. -/
theorem numaSetMembindBalancing_of_errno {k : Kernel} (hreads : k.ReadsLow) (hb : k.NamesErrors) {mask : Bitmask}
    (hsize : mask.size = g.nodemaskSz) {t : Task g} (h : (numaSetMembindBalancing k mask t).errno = 0) :
    (numaSetMembindBalancing k mask t).policy = ⟨balancedBind, mask.bits⟩ ∨
      (∃ reqs, k.refusal (reqs ++ [.setMempolicy balancedBind mask.maskp (mask.size + 1)]) = some EINVAL) ∧
        (numaSetMembindBalancing k mask t).policy = ⟨mpolBind, received g mask.bits⟩ := by
  unfold numaSetMembindBalancing Kernel.setMempolicy at h ⊢
  rcases k.ask_cases (.setMempolicy balancedBind mask.maskp (mask.size + 1))
    (fun t => { t with policy := ⟨balancedBind, k.readNodes mask.maskp (mask.size + 1)⟩ }) t
    with ⟨e, he, hask⟩ | ⟨-, hask⟩
  · rw [hask] at h ⊢
    dsimp only at h ⊢
    rw [if_neg Bool.false_ne_true] at h ⊢
    by_cases hinval : e = EINVAL
    · rw [if_pos hinval] at h ⊢
      refine Or.inr ⟨⟨t.requests, hinval ▸ he⟩, ?_⟩
      rw [← readNodes_size hreads hsize]
      exact setpol_of_errno hb h
    · rw [if_neg hinval] at h
      obtain rfl : e = 0 := h
      exact absurd he (hb _)
  · rw [hask]
    dsimp only
    rw [if_pos rfl, hreads]
    exact Or.inl rfl

namespace Opt

/-- The mode an option asks for with the nodes of its list. -/
def mode (nodes : Finset Nat) : Opt → Nat
  | .weightedInterleave _ => if nodes = ∅ then mpolDefault else mpolWeightedInterleave
  | .interleave _ => if nodes = ∅ then mpolDefault else mpolInterleave
  | .membind _ => mpolBind
  | .preferredMany _ => mpolPreferredMany
  | .preferred _ => mpolPreferred
  | _ => mpolLocal

/-- The request of `--membind` behind `--balancing` that the kernel may not know. -/
def balancedRequest (mask : Bitmask) : Request := .setMempolicy balancedBind mask.maskp (mask.size + 1)

/-- The policies an option behind `pre` may leave, without a region: the mode with the nodes the kernel receives, or
with the flag for balancing and all the nodes. -/
def Installs (h : Host) (g : Globals) (pre : List Opt) (p : MemPolicy) : Opt → Prop
  | .localalloc => p = ⟨mpolLocal, ∅⟩
  | .membind optarg => ∃ mask, Listed g h.devices pre optarg mask ∧
      (pre.any isBalancing = true ∧ p = ⟨balancedBind, mask.bits⟩ ∨
        (pre.any isBalancing = true → ∃ reqs, h.kernel.refusal (reqs ++ [balancedRequest mask]) = some EINVAL) ∧
          p = ⟨mpolBind, received g mask.bits⟩)
  | opt => ∃ optarg mask, opt.nodeList = some optarg ∧ Listed g h.devices pre optarg mask ∧
      p = ⟨opt.mode mask.bits, received g mask.bits⟩

end Opt

namespace Main

variable {h : Host} {m m' : Main g} {optarg : List Char}

theorem Denotes.size_eq {dv : Devices} {mask : Bitmask} (hdenotes : m.Denotes dv optarg mask) :
    mask.size = g.nodemaskSz := by
  obtain ⟨s, -, hparse⟩ := hdenotes
  exact (clean_nodeParser hparse).2

/-- Without a region, `-i` and `-w` set the policy of the task. -/
theorem interleave_policy (hreads : h.kernel.ReadsLow) (hb : h.kernel.NamesErrors) (hregion : m.region = none)
    (hok : m.interleave h optarg = .ok m') : ∃ mask, m.Denotes h.devices optarg mask ∧
      m'.task.policy = ⟨if mask.bits = ∅ then mpolDefault
        else if m.weightedInterleave then mpolWeightedInterleave else mpolInterleave, received g mask.bits⟩ := by
  simp only [interleave, checknuma, bind_eq_ok, setpolicy_eq_ok, checkerror_eq_ok] at hok
  obtain ⟨-, -, ⟨mask, m1⟩, hparse, m2, ⟨-, rfl⟩, rfl, herrno⟩ := hok
  obtain ⟨hdenotes, s, rfl⟩ := parseMask_eq_ok hparse
  refine ⟨mask, hdenotes, ?_⟩
  dsimp only [call] at herrno ⊢
  rw [hregion] at herrno ⊢
  rw [← readNodes_size hreads hdenotes.size_eq]
  cases hweighted : m.weightedInterleave with
  | true =>
      simp only [hweighted, if_true, numaSetWeightedInterleaveMask_eq] at herrno ⊢
      exact setpol_of_errno hb herrno
  | false =>
      simp only [hweighted, Bool.false_eq_true, if_false, numaSetInterleaveMaskV2_eq] at herrno ⊢
      exact setpol_of_errno hb herrno

theorem policy_numaSetBindPolicy_of_probed (k : Kernel) (strict : Bool) {t : Task g}
    (hprobed : t.hasPreferredMany.isSome = true) : (numaSetBindPolicy k strict t).policy = t.policy := by
  obtain ⟨pol, heq⟩ := numaSetBindPolicy_of_probed k strict hprobed
  rw [heq]

theorem hasPreferredMany_numaSetMembindBalancing (k : Kernel) (mask : Bitmask) (t : Task g) :
    (numaSetMembindBalancing k mask t).hasPreferredMany = t.hasPreferredMany := by
  have hfirst : (k.setMempolicy balancedBind mask.maskp (mask.size + 1) t).2.hasPreferredMany =
      t.hasPreferredMany := by
    rw [k.setMempolicy_frame]
  unfold numaSetMembindBalancing
  dsimp only
  split
  · exact hfirst
  · split
    · exact (hasPreferredMany_setpol k _ _ _).trans hfirst
    · exact hfirst

/-- Without a region, `-m` sets the policy of the task; the way memory is bound is put back behind it. -/
theorem membind_policy (hreads : h.kernel.ReadsLow) (hb : h.kernel.NamesErrors) (hregion : m.region = none)
    (hok : m.membind h optarg = .ok m') : ∃ mask, m.Denotes h.devices optarg mask ∧
      (m.numaBalancing = true ∧ m'.task.policy = ⟨balancedBind, mask.bits⟩ ∨
        (m.numaBalancing = true →
          ∃ reqs, h.kernel.refusal (reqs ++ [Opt.balancedRequest mask]) = some EINVAL) ∧
          m'.task.policy = ⟨mpolBind, received g mask.bits⟩) := by
  simp only [membind, checknuma, bind_eq_ok, setpolicy_eq_ok, checkerror_eq_ok] at hok
  obtain ⟨-, -, m1, ⟨-, rfl⟩, ⟨mask, m2⟩, hparse, rfl, herrno⟩ := hok
  obtain ⟨hdenotes, s, rfl⟩ := parseMask_eq_ok hparse
  have hsize : mask.size = g.nodemaskSz := hdenotes.size_eq
  refine ⟨mask, hdenotes, ?_⟩
  have hprobed := isSome_numaSetBindPolicy h.kernel true { m.task with errno := 0 }
  dsimp only [call] at herrno ⊢
  rw [errno_numaSetBindPolicy, hregion] at herrno
  rw [hregion]
  cases hbalancing : m.numaBalancing with
  | true =>
      simp only [hbalancing, if_true] at herrno ⊢
      rw [policy_numaSetBindPolicy_of_probed h.kernel false
        ((congrArg Option.isSome (hasPreferredMany_numaSetMembindBalancing _ _ _)).trans hprobed)]
      rcases numaSetMembindBalancing_of_errno hreads hb hsize herrno with hflag | ⟨hrefused, hpolicy⟩
      · exact Or.inl ⟨trivial, hflag⟩
      · exact Or.inr ⟨fun _ => hrefused, hpolicy⟩
  | false =>
      simp only [hbalancing, Bool.false_eq_true, if_false, numaSetMembindV2] at herrno ⊢
      rw [policy_numaSetBindPolicy_of_probed h.kernel false
        ((congrArg Option.isSome (hasPreferredMany_setpol _ _ _ _)).trans hprobed)]
      refine Or.inr ⟨fun hfalse => hfalse.elim, ?_⟩
      rw [← readNodes_size hreads hsize]
      exact setpol_of_errno hb herrno

/-- Without a region, `-p` sets the policy for its only node, and `-P` for its list. -/
theorem preferred_policy (hreads : h.kernel.ReadsLow) (hb : h.kernel.NamesErrors) {many : Bool}
    (hregion : m.region = none) (hmany : many = true → m.task.hasPreferredMany = some true)
    (hok : m.preferred h many optarg = .ok m') : ∃ mask, m.Denotes h.devices optarg mask ∧
      m'.task.policy = ⟨if many then mpolPreferredMany else mpolPreferred, received g mask.bits⟩ := by
  simp only [preferred, checknuma, bind_eq_ok] at hok
  obtain ⟨-, -, ⟨mask, m1⟩, hparse, hok⟩ := hok
  obtain ⟨hdenotes, s, rfl⟩ := parseMask_eq_ok hparse
  have hsize : mask.size = g.nodemaskSz := hdenotes.size_eq
  refine ⟨mask, hdenotes, ?_⟩
  rw [← readNodes_size hreads hsize]
  simp only [call, hregion] at hok
  cases many with
  | false =>
      simp only [if_true, bind_eq_ok, stopIf_eq_ok, setpolicy_eq_ok, checkerror_eq_ok] at hok
      obtain ⟨-, hweight, m2, ⟨-, rfl⟩, rfl, herrno⟩ := hok
      obtain ⟨bmp, hbmp, hbits, hset⟩ := numaSetPreferred_only h.kernel hsize (not_not.mp hweight)
        (numaSetBindPolicy h.kernel false { m.task with errno := 0 })
      dsimp only at herrno ⊢
      rw [hset] at herrno ⊢
      rw [if_neg Bool.false_ne_true, readNodes_size hreads hsize, ← hbits, ← readNodes_size hreads hbmp]
      exact setpol_of_errno hb herrno
  | true =>
      simp only [Bool.true_eq_false, if_false, bind_eq_ok, setpolicy_eq_ok, checkerror_eq_ok] at hok
      obtain ⟨m2, ⟨-, rfl⟩, rfl, herrno⟩ := hok
      obtain ⟨pol, hbind⟩ := numaSetBindPolicy_of_probed h.kernel false
        (show ({ m.task with errno := 0 } : Task g).hasPreferredMany.isSome = true by
          exact congrArg Option.isSome (hmany rfl))
      have hprobed : (numaSetBindPolicy h.kernel false { m.task with errno := 0 }).hasPreferredMany = some true := by
        rw [hbind]
        exact hmany rfl
      dsimp only at herrno ⊢
      unfold numaSetPreferredMany at herrno ⊢
      rw [setPreferredMany_of_some hprobed] at herrno ⊢
      simp only [hprobed, Option.getD_some, if_true] at herrno ⊢
      exact setpol_of_errno hb herrno

theorem localalloc_policy (hreads : h.kernel.ReadsLow) (hb : h.kernel.NamesErrors) (hregion : m.region = none)
    (hok : m.localalloc h = .ok m') : m'.task.policy = ⟨mpolLocal, ∅⟩ := by
  simp only [localalloc, checknuma, bind_eq_ok, setpolicy_eq_ok, checkerror_eq_ok] at hok
  obtain ⟨-, -, m1, ⟨-, rfl⟩, rfl, herrno⟩ := hok
  dsimp only [call] at herrno ⊢
  simp only [hregion] at herrno ⊢
  have hnone : received g g.numaNoNodesPtr.bits = ∅ := by
    rw [show g.numaNoNodesPtr.bits = ∅ from bits_zeroBitmask _, received, Finset.filter_empty]
  have hnodes : h.kernel.readNodes g.numaNoNodesPtr.maskp g.numaNoNodesPtr.size = received g g.numaNoNodesPtr.bits :=
    readNodes_size hreads rfl
  rw [← hnone, ← hnodes]
  exact setpol_of_errno hb herrno

/-- `-P` goes on where the probe has found that the mode can be set. -/
theorem preferredMany_policy (hreads : h.kernel.ReadsLow) (hb : h.kernel.NamesErrors) (hregion : m.region = none)
    (hok : m.preferredMany h optarg = .ok m') : ∃ mask, m.Denotes h.devices optarg mask ∧
      m'.task.policy = ⟨mpolPreferredMany, received g mask.bits⟩ := by
  simp only [preferredMany, bind_eq_ok, stopIf_eq_ok] at hok
  obtain ⟨-, hhas, hok⟩ := hok
  refine preferred_policy (m := { m with task := (numaHasPreferredMany h.kernel m.task).2 }) hreads hb hregion
    (fun _ => ?_) hok
  obtain ⟨found, hfound⟩ := Option.isSome_iff_exists.mp (isSome_setPreferredMany h.kernel m.task)
  have hanswer : numaHasPreferredMany h.kernel m.task = (found, setPreferredMany h.kernel m.task) := by
    rw [numaHasPreferredMany, hfound]
    rfl
  rw [hanswer] at hhas ⊢
  rw [hfound]
  exact congrArg some ((Bool.not_eq_false found).mp hhas)

/-- Each memory policy option installs what it says, if no region is attached. -/
theorem installs_step (hreads : h.kernel.ReadsLow) (hb : h.kernel.NamesErrors) {t : Task g} {pre : List Opt}
    {opt : Opt} (hpre : (initial t).optionLoop h pre = .ok m) (hregion : m.region = none)
    (hopt : opt.setsPolicy = true) (hok : m.step h opt = .ok m') : opt.Installs h g pre m'.task.policy := by
  have hmarked := marked_of_accepted hpre
  have hweighted : WeightedRecorded m :=
    Runs.accepted_rule (fun _ _ _ hm hstep => weightedRecorded_step hm hstep) (fun hw => by cases hw) hpre
  cases opt with
  | weightedInterleave arg =>
      obtain ⟨mask, hdenotes, hpolicy⟩ :=
        interleave_policy (m := { m with weightedInterleave := true }) hreads hb hregion hok
      exact ⟨arg, mask, rfl, (denotes_iff_listed hpre).mp hdenotes, hpolicy⟩
  | interleave arg =>
      obtain ⟨mask, hdenotes, hpolicy⟩ := interleave_policy hreads hb hregion hok
      obtain ⟨mask', hacc, -⟩ := interleave_ok hok
      -- the flag of `-w` comes with a policy, and there is none yet
      have hflag : m.weightedInterleave = false := by
        rw [Bool.eq_false_iff]
        intro hw
        have hset := hweighted hw
        rw [hacc.unset] at hset
        cases hset
      rw [hflag] at hpolicy
      exact ⟨arg, mask, rfl, (denotes_iff_listed hpre).mp hdenotes, hpolicy⟩
  | membind arg =>
      obtain ⟨mask, hdenotes, hpolicy⟩ := membind_policy hreads hb hregion hok
      rw [hmarked.numaBalancing_eq] at hpolicy
      exact ⟨mask, (denotes_iff_listed hpre).mp hdenotes, hpolicy⟩
  | preferredMany arg =>
      obtain ⟨mask, hdenotes, hpolicy⟩ := preferredMany_policy hreads hb hregion hok
      exact ⟨arg, mask, rfl, (denotes_iff_listed hpre).mp hdenotes, hpolicy⟩
  | preferred arg =>
      obtain ⟨mask, hdenotes, hpolicy⟩ :=
        preferred_policy hreads hb hregion (fun hmany => Bool.noConfusion hmany) hok
      exact ⟨arg, mask, rfl, (denotes_iff_listed hpre).mp hdenotes, hpolicy⟩
  | localalloc => exact localalloc_policy hreads hb hregion hok
  | _ => cases hopt

/-- Along accepted options without a region, the policy of the task is the one it had, or the one the only memory
policy option has installed. -/
theorem policy_of_accepted (hreads : h.kernel.ReadsLow) (hb : h.kernel.NamesErrors) {t : Task g} {opts : List Opt}
    (hok : (initial t).optionLoop h opts = .ok m) (hregion : ∀ opt ∈ opts, opt.attaches = false) :
    (∀ opt ∈ opts, opt.setsPolicy = false) ∧ m.setPolicy = none ∧ m.task.policy = t.policy ∨
      ∃ front opt back, opts = front ++ opt :: back ∧ (∀ o ∈ front ++ back, o.setsPolicy = false) ∧
        opt.setsPolicy = true ∧ m.setPolicy.isSome = true ∧ opt.Installs h g front m.task.policy := by
  refine Runs.accepted_history_rule (I := fun pre (c : Main g) => (∀ opt ∈ pre, opt.attaches = false) →
    ((∀ opt ∈ pre, opt.setsPolicy = false) ∧ c.setPolicy = none ∧ c.task.policy = t.policy ∨
      ∃ front opt back, pre = front ++ opt :: back ∧ (∀ o ∈ front ++ back, o.setsPolicy = false) ∧
        opt.setsPolicy = true ∧ c.setPolicy.isSome = true ∧ opt.Installs h g front c.task.policy))
    ?_ (fun pre c opt d hpre hc hstep hattaches => ?_) hok hregion
  · exact fun _ => Or.inl ⟨fun opt hopt => (List.not_mem_nil hopt).elim, rfl, rfl⟩
  · have hc := hc fun o ho => hattaches o (List.mem_append_left _ ho)
    have hnone : c.region = none := by
      have hregion := (marked_of_accepted hpre).region_eq
      rw [List.any_eq_false.mpr fun o ho => Bool.eq_false_iff.mp (hattaches o (List.mem_append_left _ ho))] at hregion
      exact Option.not_isSome_iff_eq_none.mp (Bool.eq_false_iff.mp hregion)
    rcases step_ok hstep with hsets | hquiet
    · -- no policy has been recorded, so no option before this one has set any
      rcases hc with ⟨hbefore, -, -⟩ | ⟨-, -, -, -, -, -, hset, -⟩
      · refine Or.inr ⟨pre, opt, [], rfl, by rwa [List.append_nil], hsets.setsPolicy, hsets.isSome, ?_⟩
        exact installs_step hreads hb hpre hnone hsets.setsPolicy hstep
      · rw [hsets.unset] at hset
        cases hset
    · rcases hc with ⟨hbefore, hunset, hpolicy⟩ | ⟨front, first, back, rfl, hothers, hfirst, hset, hinstalls⟩
      · refine Or.inl ⟨fun o ho => ?_, hquiet.setPolicy_eq.trans hunset, hquiet.policy_eq.trans hpolicy⟩
        rcases List.mem_append.mp ho with ho | ho
        · exact hbefore o ho
        · exact List.mem_singleton.mp ho ▸ hquiet.setsPolicy
      · refine Or.inr ⟨front, first, back ++ [opt], by rw [List.append_assoc, List.cons_append], fun o ho => ?_,
          hfirst, hquiet.setPolicy_eq ▸ hset, hquiet.policy_eq ▸ hinstalls⟩
        rw [← List.append_assoc] at ho
        rcases List.mem_append.mp ho with ho | ho
        · exact hothers o ho
        · exact List.mem_singleton.mp ho ▸ hquiet.setsPolicy

/-- A command is executed exactly if the options are accepted, there is a command, and none of them has asked for the
hardware or for a region. Its memory policy is then the one of the task, or the one of the only memory policy option
among the options. -/
theorem execvp_policy (hreads : h.kernel.ReadsLow) (hb : h.kernel.NamesErrors) (t : Task g) (opts : List Opt)
    (av command : List (List Char)) (m : Main g) :
    (run h t opts av = .ok (.execvp command m) ↔ (initial t).optionLoop h opts = .ok m ∧ command = av ∧ av ≠ [] ∧
      ∀ opt ∈ opts, opt.isHardware = false ∧ opt.attaches = false ∧ opt.describesRegion = false) ∧
    (run h t opts av = .ok (.execvp command m) →
      (∀ opt ∈ opts, opt.setsPolicy = false) ∧ m.task.policy = t.policy ∨
      ∃ front opt back, opts = front ++ opt :: back ∧ (∀ o ∈ front ++ back, o.setsPolicy = false) ∧
        opt.setsPolicy = true ∧ opt.Installs h g front m.task.policy) := by
  have hiff : run h t opts av = .ok (.execvp command m) ↔ (initial t).optionLoop h opts = .ok m ∧ command = av ∧
      av ≠ [] ∧ ∀ opt ∈ opts, opt.isHardware = false ∧ opt.attaches = false ∧ opt.describesRegion = false := by
    rw [run, bind_eq_ok]
    refine ⟨fun hrun => ?_, fun hrun => ?_⟩
    · obtain ⟨m', hok, hfinish⟩ := hrun
      obtain ⟨⟨rfl, rfl⟩, hrest⟩ := (finish_eq_execvp_iff hok).mp hfinish
      exact ⟨hok, rfl, hrest⟩
    · obtain ⟨hok, rfl, hrest⟩ := hrun
      exact ⟨m, hok, (finish_eq_execvp_iff hok).mpr ⟨⟨rfl, rfl⟩, hrest⟩⟩
  refine ⟨hiff, fun hrun => ?_⟩
  obtain ⟨hok, -, -, hquiet⟩ := hiff.mp hrun
  rcases policy_of_accepted hreads hb hok fun opt hopt => (hquiet opt hopt).2.1 with
    ⟨hnone, -, hpolicy⟩ | ⟨front, opt, back, hopts, hothers, hopt, -, hinstalls⟩
  · exact Or.inl ⟨hnone, hpolicy⟩
  · exact Or.inr ⟨front, opt, back, hopts, hothers, hopt, hinstalls⟩

end Main

/-- A system whose kernel reads one bit less. -/
def lowHost : Host := { plainHost with kernel := EntryPoint.lowKernel }

/-- `numactl --strict --interleave=0,2 ls`. -/
theorem execvp_policy_interleave : ∃ m, Main.run lowHost (Task.initial gapGlobals)
      [.strict, .interleave "0,2".toList] ["ls".toList] = .ok (.execvp ["ls".toList] m) ∧
    ∃ front opt back, [Opt.strict, .interleave "0,2".toList] = front ++ opt :: back ∧
      (∀ o ∈ front ++ back, o.setsPolicy = false) ∧ opt.setsPolicy = true ∧
        opt.Installs lowHost gapGlobals front m.task.policy := by
  obtain ⟨m, hok⟩ : ∃ m, (Main.initial (Task.initial gapGlobals)).optionLoop lowHost
      [.strict, .interleave "0,2".toList] = .ok m := Main.exists_ok (by decide +kernel)
  have hlaunch := Main.execvp_policy (h := lowHost) (fun _ _ => rfl) plainKernel_namesErrors
    (Task.initial gapGlobals) [.strict, .interleave "0,2".toList] ["ls".toList] ["ls".toList] m
  have hrun := hlaunch.1.mpr ⟨hok, rfl, List.cons_ne_nil _ _, by decide⟩
  refine ⟨m, hrun, (hlaunch.2 hrun).resolve_left fun hnone => ?_⟩
  exact absurd (hnone.1 (.interleave "0,2".toList) (by simp)) (by decide)

end Numactl
