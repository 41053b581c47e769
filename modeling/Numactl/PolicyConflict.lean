import Numactl.RegionPolicy

/-! Runs of numactl that are rejected for conflicting policies. Each memory policy option checks for a policy
already recorded at a place of its own, before or after it has asked something of the kernel, so the state a
rejected option stops in is compared with the state the first policy option left. -/

namespace Numactl

open Runs (bind_eq_ok bind_eq_error pure_eq_ok)

variable {g : Globals}

/-- How `setpolicy` ends the program. -/
def Exit.conflict : Exit := .usage (some "Conflicting policies")

namespace Main

theorem stopIf_eq_error {m : Main g} {condition : Prop} [Decidable condition] {exit : Exit} {e : Stopped g} :
    m.stopIf condition exit = .error e ↔ condition ∧ e = ⟨exit, m⟩ := by
  unfold stopIf
  by_cases h : condition
  · rw [if_pos h, Except.error.injEq]
    exact ⟨fun heq => ⟨h, heq.symm⟩, fun heq => heq.2.symm⟩
  · rw [if_neg h]
    exact iff_of_false (fun heq => by cases heq) fun heq => h heq.1

theorem setpolicy_eq_error {pol : Nat} {m : Main g} {e : Stopped g} :
    m.setpolicy pol = .error e ↔ m.setPolicy ≠ none ∧ e = ⟨.conflict, m⟩ := by
  unfold setpolicy
  rw [bind_eq_error, stopIf_eq_error]
  refine or_iff_left fun h => ?_
  obtain ⟨-, -, h⟩ := h
  cases h

/-- The computation does not end the program with a conflict. -/
def Unconflicted {α : Type} (x : Except (Stopped g) α) : Prop := ∀ m', x ≠ .error ⟨.conflict, m'⟩

namespace Unconflicted

variable {α β : Type}

theorem ok (a : α) : Unconflicted (.ok a : Except (Stopped g) α) := fun _ h => by cases h

theorem error {exit : Exit} (hexit : exit ≠ .conflict) (m : Main g) :
    Unconflicted (.error ⟨exit, m⟩ : Except (Stopped g) α) := by
  intro m' h
  injection h with h
  injection h with h
  exact hexit h

theorem bind {x : Except (Stopped g) α} {f : α → Except (Stopped g) β} (hx : Unconflicted x)
    (hf : ∀ a, Unconflicted (f a)) : Unconflicted (x >>= f) := by
  intro m' h
  rw [bind_eq_error] at h
  rcases h with h | ⟨a, -, h⟩
  · exact hx m' h
  · exact hf a m' h

/-- The conflict comes from behind a computation that makes none. -/
theorem of_bind {x : Except (Stopped g) α} {f : α → Except (Stopped g) β} {m' : Main g} (hx : Unconflicted x)
    (hrej : (x >>= f) = .error ⟨.conflict, m'⟩) : ∃ a, x = .ok a ∧ f a = .error ⟨.conflict, m'⟩ :=
  Runs.exists_of_bind_eq_error (hx m') hrej

theorem stopIf {condition : Prop} [Decidable condition] {exit : Exit} (hexit : exit ≠ .conflict)
    (m : Main g) : Unconflicted (m.stopIf condition exit) := by
  unfold Main.stopIf
  split
  · exact error hexit m
  · exact ok ()

end Unconflicted

theorem checkerror_unconflicted (s : String) (m : Main g) : Unconflicted (m.checkerror s) :=
  .bind (.stopIf (by simp [Exit.conflict]) m) fun _ => .ok m

theorem checknuma_unconflicted (k : Kernel) (m : Main g) : Unconflicted (m.checknuma k) :=
  .stopIf (by simp [Exit.conflict]) m

theorem nopolicy_unconflicted (m : Main g) : Unconflicted m.nopolicy :=
  .stopIf (by simp [Exit.conflict]) m

theorem checkCpubind_unconflicted (flag : Bool) (m : Main g) : Unconflicted (m.checkCpubind flag) :=
  .stopIf (by simp [Exit.conflict]) m

theorem checkShmbeyond_unconflicted (message : String) (m : Main g) :
    Unconflicted (m.checkShmbeyond message) :=
  .stopIf (by simp [Exit.conflict]) m

/-- A message with a long middle part is not that of a conflict. -/
theorem usage_append_ne_conflict {a b c : String} (hb : 20 < b.length) :
    Exit.usage (some (a ++ b ++ c)) ≠ .conflict := by
  intro h
  injection h with h
  injection h with h
  have hlen := congrArg String.length h
  rw [String.length_append, String.length_append] at hlen
  have hmessage : "Conflicting policies".length = 20 := by decide
  omega

theorem noshm_unconflicted (opt : String) (m : Main g) : Unconflicted (m.noshm opt) := by
  refine .bind (.stopIf ?_ m) fun _ => .ok _
  have h := usage_append_ne_conflict (a := opt) (b := " must be before shared memory specification") (c := "")
    (by decide)
  rwa [String.append_empty] at h

theorem dontshm_unconflicted (opt : String) (m : Main g) : Unconflicted (m.dontshm opt) := by
  unfold dontshm
  split
  · exact .error (usage_append_ne_conflict (by decide)) m
  · exact .ok ()

theorem needshm_unconflicted (opt : String) (m : Main g) : Unconflicted (m.needshm opt) := by
  refine .stopIf ?_ m
  have h := usage_append_ne_conflict (a := opt) (b := " must be after shared memory specification") (c := "")
    (by decide)
  rwa [String.append_empty] at h

theorem parseMask_unconflicted (dv : Devices) (optarg : List Char) (m : Main g) :
    Unconflicted (m.parseMask dv optarg) := by
  unfold parseMask
  split
  · exact .error (by simp [Exit.conflict]) m
  · split
    · exact .error (by simp [Exit.conflict]) _
    · exact .ok _

theorem readNumber_unconflicted (base : Nat) (optarg : List Char) (m : Main g) :
    Unconflicted (m.readNumber base optarg) :=
  .bind (.stopIf (by simp [Exit.conflict]) m) fun _ => .ok _

variable {h : Host} {m m' : Main g} {optarg : List Char}

/-- Where nothing behind the check of the policy makes a conflict, it is this check that does. -/
theorem conflict_of_setpolicy {β : Type} {pol : Nat} {f : Main g → Except (Stopped g) β}
    (hf : ∀ m, Unconflicted (f m)) (hrej : (m.setpolicy pol >>= f) = .error ⟨.conflict, m'⟩) :
    m.setPolicy ≠ none ∧ m' = m := by
  rw [bind_eq_error, setpolicy_eq_error] at hrej
  rcases hrej with ⟨hset, heq⟩ | ⟨m1, -, hrej⟩
  · cases heq
    exact ⟨hset, rfl⟩
  · exact (hf m1 m' hrej).elim

/-- `-i` and `-w` check before the call. -/
theorem interleave_conflict (hrej : m.interleave h optarg = .error ⟨.conflict, m'⟩) :
    m.setPolicy ≠ none ∧ m'.region = m.region ∧ m'.task = { m.task with errno := 0 } := by
  obtain ⟨-, -, hrej⟩ := (checknuma_unconflicted _ m).of_bind hrej
  obtain ⟨⟨mask, m1⟩, hparse, hrej⟩ := (parseMask_unconflicted _ _ m).of_bind hrej
  obtain ⟨-, s, rfl⟩ := parseMask_eq_ok hparse
  obtain ⟨hset, rfl⟩ := conflict_of_setpolicy (fun _ => checkerror_unconflicted _ _) hrej
  exact ⟨hset, rfl, rfl⟩

/-- `-m` checks before everything else. -/
theorem membind_conflict (hrej : m.membind h optarg = .error ⟨.conflict, m'⟩) :
    m.setPolicy ≠ none ∧ m' = m := by
  obtain ⟨-, -, hrej⟩ := (checknuma_unconflicted _ m).of_bind hrej
  apply conflict_of_setpolicy ?_ hrej
  exact fun m1 => .bind (parseMask_unconflicted _ _ m1) fun _ => checkerror_unconflicted _ _

/-- So does `-l`. -/
theorem localalloc_conflict (hrej : m.localalloc h = .error ⟨.conflict, m'⟩) :
    m.setPolicy ≠ none ∧ m' = m := by
  obtain ⟨-, -, hrej⟩ := (checknuma_unconflicted _ m).of_bind hrej
  apply conflict_of_setpolicy ?_ hrej
  exact fun _ => checkerror_unconflicted _ _

/-- `-p` and `-P` have set the way memory is bound before they check, and for a region they have bound it. -/
theorem preferred_conflict {many : Bool} (hrej : m.preferred h many optarg = .error ⟨.conflict, m'⟩) :
    m.setPolicy ≠ none ∧ m'.region = m.region ∧ (m.region = none → m'.task = preferring h m) ∧
      ∀ r, m.region = some r → ∃ node, m'.task = (numaHasPreferredMany h.kernel
        (numaTonodeMemory h.kernel r.shmptr r.shmlen node (preferring h m))).2 := by
  obtain ⟨-, -, hrej⟩ := (checknuma_unconflicted _ m).of_bind hrej
  obtain ⟨⟨mask, m1⟩, hparse, hrej⟩ := (parseMask_unconflicted _ _ m).of_bind hrej
  obtain ⟨-, s, rfl⟩ := parseMask_eq_ok hparse
  cases hregion : m.region with
  | some r =>
      simp only [call, hregion] at hrej
      obtain ⟨hset, rfl⟩ := conflict_of_setpolicy (fun _ => checkerror_unconflicted _ _) hrej
      refine ⟨hset, rfl, fun hnone => (Option.some_ne_none r hnone).elim, fun r' hr => ?_⟩
      cases hr
      exact ⟨numaFindFirst mask, rfl⟩
  | none =>
      simp only [call, hregion] at hrej
      split at hrej
      · obtain ⟨-, -, hrej⟩ := Unconflicted.of_bind (.stopIf (by simp [Exit.conflict]) _) hrej
        obtain ⟨hset, rfl⟩ := conflict_of_setpolicy (fun _ => checkerror_unconflicted _ _) hrej
        exact ⟨hset, rfl, fun _ => rfl, fun r hr => by cases hr⟩
      · obtain ⟨hset, rfl⟩ := conflict_of_setpolicy (fun _ => checkerror_unconflicted _ _) hrej
        exact ⟨hset, rfl, fun _ => rfl, fun r hr => by cases hr⟩

theorem preferredMany_conflict (hrej : m.preferredMany h optarg = .error ⟨.conflict, m'⟩) :
    { m with task := (numaHasPreferredMany h.kernel m.task).2 }.preferred h true optarg =
      .error ⟨.conflict, m'⟩ := by
  obtain ⟨-, -, hrej⟩ := Unconflicted.of_bind (.stopIf (by simp [Exit.conflict]) _) hrej
  exact hrej

/-- Only memory policy options conflict. -/
theorem setsPolicy_of_conflict {opt : Opt} (hrej : m.step h opt = .error ⟨.conflict, m'⟩) :
    opt.setsPolicy = true := by
  by_contra hopt
  suffices hsuff : Unconflicted (m.step h opt) from hsuff m' hrej
  cases opt with
  | «show» => exact .error (by simp [Exit.conflict]) m
  | hardware => exact .bind (nopolicy_unconflicted m) fun _ => .ok _
  | balancing => exact .bind (nopolicy_unconflicted m) fun _ => .ok _
  | cpunodebind arg =>
      exact .bind (dontshm_unconflicted _ m) fun _ => .bind (checknuma_unconflicted _ m) fun _ =>
        .bind (parseMask_unconflicted _ _ m) fun _ => .bind (checkCpubind_unconflicted _ _) fun _ =>
          checkerror_unconflicted _ _
  | physcpubind arg =>
      refine .bind (dontshm_unconflicted _ m) fun _ => ?_
      dsimp only
      split
      · exact .error (by simp [Exit.conflict]) m
      · exact .bind (checkCpubind_unconflicted _ _) fun _ => checkerror_unconflicted _ _
  | shm arg =>
      refine .bind (checkCpubind_unconflicted _ m) fun _ => .bind (nopolicy_unconflicted m) fun _ => ?_
      dsimp only
      split
      · exact .error (by simp [Exit.conflict]) m
      · exact .ok _
  | file arg =>
      refine .bind (checkCpubind_unconflicted _ m) fun _ => .bind (nopolicy_unconflicted m) fun _ => ?_
      dsimp only
      split
      · exact .error (by simp [Exit.conflict]) m
      · exact .ok _
  | length arg => exact .bind (noshm_unconflicted _ m) fun _ => .ok _
  | shmmode arg =>
      exact .bind (noshm_unconflicted _ m) fun _ => .bind (readNumber_unconflicted _ _ _) fun _ => .ok _
  | dump => exact .bind (.stopIf (by simp [Exit.conflict]) m) fun _ => .ok _
  | dumpNodes => exact .bind (.stopIf (by simp [Exit.conflict]) m) fun _ => .ok _
  | strict => exact .ok _
  | shmid arg => exact .bind (readNumber_unconflicted _ _ m) fun _ => .ok _
  | huge => exact .bind (noshm_unconflicted _ m) fun _ => .ok _
  | offset arg => exact .bind (noshm_unconflicted _ m) fun _ => .ok _
  | touch =>
      exact .bind (needshm_unconflicted _ m) fun _ => .bind (checkShmbeyond_unconflicted _ m) fun _ => .ok _
  | verify =>
      refine .bind (needshm_unconflicted _ m) fun _ => ?_
      split
      · exact .error (by simp [Exit.conflict]) m
      · refine .bind (checkShmbeyond_unconflicted _ m) fun _ => ?_
        split
        · split
          · exact .error (by simp [Exit.conflict]) m
          · exact .ok _
        · exact .error (by simp [Exit.conflict]) m
  | all => exact .bind (.stopIf (by simp [Exit.conflict]) m) fun _ => .ok _
  | cpuCompress => exact .ok _
  | version =>
      exact .bind (nopolicy_unconflicted m) fun _ => .error (by simp [Exit.conflict]) m
  | unknown => exact .error (by simp [Exit.conflict]) m
  | _ => exact absurd rfl hopt

end Main

/-! ### The probe along the options -/

/-- The options that make the probe if it has not been made. -/
def Opt.probes : Opt → Bool
  | .membind _ => true
  | .preferredMany _ => true
  | .preferred _ => true
  | _ => false

theorem hasPreferredMany_setpol (k : Kernel) (policy : Nat) (bmp : Bitmask) (t : Task g) :
    (setpol k policy bmp t).hasPreferredMany = t.hasPreferredMany :=
  (congrArg Task.hasPreferredMany (setpol_frame (k := k) policy bmp t) :)

theorem hasPreferredMany_numaSetPreferred (k : Kernel) (node : Int) (t : Task g) :
    (numaSetPreferred k node t).hasPreferredMany = t.hasPreferredMany := by
  rw [numaSetPreferred_eq]
  exact hasPreferredMany_setpol _ _ _ _

theorem hasPreferredMany_dombind (k : Kernel) (mem size pol : Nat) (bmp : Option Bitmask) (t : Task g) :
    (dombind k mem size pol bmp t).2.hasPreferredMany = t.hasPreferredMany :=
  (congrArg Task.hasPreferredMany (dombind_frame (k := k) mem size pol bmp t) :)

theorem isSome_numaSetBindPolicy (k : Kernel) (strict : Bool) (t : Task g) :
    (numaSetBindPolicy k strict t).hasPreferredMany.isSome = true := by
  have hprobe := isSome_setPreferredMany k t
  unfold numaSetBindPolicy
  dsimp only
  split
  · exact hprobe
  · split
    · exact hprobe
    · exact hprobe

namespace Main

variable {h : Host} {m m' : Main g} {optarg : List Char} {opt : Opt}

theorem interleave_probed (hok : m.interleave h optarg = .ok m') :
    m'.task.hasPreferredMany = m.task.hasPreferredMany := by
  simp only [interleave, bind_eq_ok, setpolicy_eq_ok, checkerror_eq_ok] at hok
  obtain ⟨-, -, ⟨mask, m1⟩, hparse, m2, ⟨-, rfl⟩, rfl, -⟩ := hok
  obtain ⟨-, s, rfl⟩ := parseMask_eq_ok hparse
  dsimp only [call]
  split
  · exact hasPreferredMany_dombind _ _ _ _ _ _
  · split
    · unfold numaSetWeightedInterleaveMask
      split
      · exact hasPreferredMany_setpol _ _ _ _
      · exact hasPreferredMany_setpol _ _ _ _
    · unfold numaSetInterleaveMaskV2
      split
      · exact hasPreferredMany_setpol _ _ _ _
      · exact hasPreferredMany_setpol _ _ _ _

theorem localalloc_probed (hok : m.localalloc h = .ok m') :
    m'.task.hasPreferredMany = m.task.hasPreferredMany := by
  simp only [localalloc, bind_eq_ok, setpolicy_eq_ok, checkerror_eq_ok] at hok
  obtain ⟨-, -, m1, ⟨-, rfl⟩, rfl, -⟩ := hok
  dsimp only [call]
  split
  · exact hasPreferredMany_dombind _ _ _ _ _ _
  · exact hasPreferredMany_setpol _ _ _ _

theorem membind_probed (hok : m.membind h optarg = .ok m') :
    m'.task.hasPreferredMany.isSome = true := by
  simp only [membind, bind_eq_ok, setpolicy_eq_ok, checkerror_eq_ok] at hok
  obtain ⟨-, -, m1, -, ⟨mask, m2⟩, -, rfl, -⟩ := hok
  exact isSome_numaSetBindPolicy _ false _

theorem preferred_probed {many : Bool} (hok : m.preferred h many optarg = .ok m') :
    m'.task.hasPreferredMany.isSome = true := by
  simp only [preferred, bind_eq_ok] at hok
  obtain ⟨-, -, ⟨mask, m1⟩, hparse, hok⟩ := hok
  obtain ⟨-, s, rfl⟩ := parseMask_eq_ok hparse
  split at hok
  · simp only [bind_eq_ok, setpolicy_eq_ok, checkerror_eq_ok] at hok
    obtain ⟨m2, ⟨-, rfl⟩, rfl, -⟩ := hok
    exact isSome_setPreferredMany _ _
  · split at hok
    · simp only [bind_eq_ok, setpolicy_eq_ok, checkerror_eq_ok] at hok
      obtain ⟨-, -, m2, ⟨-, rfl⟩, rfl, -⟩ := hok
      dsimp only [call]
      rw [hasPreferredMany_numaSetPreferred]
      exact isSome_numaSetBindPolicy _ false _
    · simp only [bind_eq_ok, setpolicy_eq_ok, checkerror_eq_ok] at hok
      obtain ⟨m2, ⟨-, rfl⟩, rfl, -⟩ := hok
      dsimp only [call, numaSetPreferredMany]
      split
      · rw [hasPreferredMany_setpol]
        exact isSome_setPreferredMany _ _
      · rw [hasPreferredMany_numaSetPreferred]
        exact isSome_setPreferredMany _ _

/-- Every accepted option makes the probe exactly if it says so. -/
theorem probed_step (hok : m.step h opt = .ok m') :
    m'.task.hasPreferredMany.isSome = (m.task.hasPreferredMany.isSome || opt.probes) := by
  rcases step_ok hok with hsets | hquiet
  · cases opt with
    | weightedInterleave arg => exact interleave_probed hok ▸ (Bool.or_false _).symm
    | interleave arg => exact interleave_probed hok ▸ (Bool.or_false _).symm
    | localalloc => exact localalloc_probed hok ▸ (Bool.or_false _).symm
    | membind arg => exact (membind_probed hok).trans (Bool.or_true _).symm
    | preferredMany arg => exact (preferred_probed (preferredMany_ok hok)).trans (Bool.or_true _).symm
    | preferred arg => exact (preferred_probed hok).trans (Bool.or_true _).symm
    | _ => cases hsets.setsPolicy
  · have hprobes : opt.probes = false := by
      have hsets := hquiet.setsPolicy
      cases opt with
      | membind arg => cases hsets
      | preferredMany arg => cases hsets
      | preferred arg => cases hsets
      | _ => rfl
    rw [hquiet.probed_eq, hprobes, Bool.or_false]

end Main

/-! ### Requests to set a policy -/

def Request.setsPolicy : Request → Bool
  | .setMempolicy .. => true
  | .mbind .. => true
  | _ => false

/-- The requests to set a policy that have been made. -/
def Task.policyRequests (t : Task g) : List Request := t.requests.filter Request.setsPolicy

theorem policyRequests_dombind (k : Kernel) (mem size pol : Nat) (bmp : Bitmask) (t : Task g) :
    (dombind k mem size pol (some bmp) t).2.policyRequests.length = t.policyRequests.length + 1 := by
  unfold Task.policyRequests
  rw [requests_dombind, List.filter_append, List.length_append]
  rfl

/-- The probe only adds requests, and does add some if it has not been made. -/
theorem policyRequests_setPreferredMany {k : Kernel} (hfits : k.nrNodeIds ≤ g.nodemaskSz) (t : Task g) :
    t.policyRequests.length + (if t.hasPreferredMany.isSome = true then 0 else 1) ≤
      (setPreferredMany k t).policyRequests.length := by
  unfold Task.policyRequests
  cases hprobed : t.hasPreferredMany with
  | some many =>
      have heq : setPreferredMany k t = t := if_pos (by rw [hprobed]; rfl)
      rw [heq]
      exact le_rfl
  | none =>
      rcases requests_setPreferredMany hfits hprobed with ⟨hreqs, -⟩ | ⟨hreqs, -⟩
      · rw [hreqs, List.filter_append, List.length_append]
        exact le_rfl
      · rw [hreqs, List.filter_append, List.length_append]
        exact Nat.add_le_add_left (Nat.le_succ 1) _

theorem requests_numaSetBindPolicy (k : Kernel) (strict : Bool) (t : Task g) :
    (numaSetBindPolicy k strict t).requests = (setPreferredMany k t).requests := by
  unfold numaSetBindPolicy
  dsimp only
  split
  · rfl
  · split
    · rfl
    · rfl

/-- Once the probe has been made, only the way memory is bound changes. -/
theorem numaSetBindPolicy_of_probed (k : Kernel) (strict : Bool) {t : Task g}
    (h : t.hasPreferredMany.isSome = true) : ∃ pol, numaSetBindPolicy k strict t = { t with bindPolicy := pol } := by
  have heq : setPreferredMany k t = t := if_pos h
  unfold numaSetBindPolicy
  rw [heq]
  dsimp only
  split
  · exact ⟨_, rfl⟩
  · split
    · exact ⟨_, rfl⟩
    · exact ⟨_, rfl⟩

/-! ### Rejected runs -/

/-- An option that has checked for a conflict before it asks for a policy, after the options `pre`: every
option but `-p` and `-P`, and these where no region is attached and the probe has been made. -/
def Opt.AsksAfterCheck (pre : List Opt) : Opt → Prop
  | .preferredMany _ => (∀ opt ∈ pre, opt.attaches = false) ∧ ∃ opt ∈ pre, opt.probes = true
  | .preferred _ => (∀ opt ∈ pre, opt.attaches = false) ∧ ∃ opt ∈ pre, opt.probes = true
  | _ => True

namespace Main

variable {h : Host} {t : Task g} {pre : List Opt} {m m' : Main g} {opt : Opt}

/-- The first memory policy option of `pre` has left the policies of the task and the region of `m'`. -/
def FirstInstalled (h : Host) (t : Task g) (pre : List Opt) (m' : Main g) : Prop :=
  ∃ front first back m₀ m₁, pre = front ++ first :: back ∧ (initial t).optionLoop h front = .ok m₀ ∧
    m₀.setPolicy = none ∧ first.setsPolicy = true ∧ m₀.step h first = .ok m₁ ∧
    m'.region = m₁.region ∧ m'.task.policy = m₁.task.policy ∧
    ∀ r, m'.region = some r → ∀ a, r.shmptr ≤ a → a < r.shmptr + r.shmlen → m'.task.pages a = m₁.task.pages a

/-- The program stops in `m'` at an option rejected in `m`, and only the first memory policy option before it
has taken effect: its policies are there, and the rejected option has asked for none. -/
structure OnlyFirst (h : Host) (t : Task g) (pre : List Opt) (m m' : Main g) : Prop where
  first : FirstInstalled h t pre m'
  silent : m'.task.policyRequests = m.task.policyRequests

theorem FirstInstalled.of_frame (hm : FirstInstalled h t pre m) (hregion : m'.region = m.region)
    (hpolicy : m'.task.policy = m.task.policy) (hpages : m'.task.pages = m.task.pages) :
    FirstInstalled h t pre m' := by
  obtain ⟨front, first, back, m₀, m₁, hpre, hfront, hunset, hfirst, hstep, hregion₁, hpolicy₁, hpages₁⟩ := hm
  refine ⟨front, first, back, m₀, m₁, hpre, hfront, hunset, hfirst, hstep, hregion.trans hregion₁,
    hpolicy.trans hpolicy₁, fun r hr a hlo hhi => ?_⟩
  rw [hpages]
  exact hpages₁ r (hregion ▸ hr) a hlo hhi

/-- While a policy is recorded, the accepted options leave alone what the first policy option has done. -/
theorem firstInstalled_of_accepted (hok : (initial t).optionLoop h pre = .ok m) :
    m.setPolicy = none ∨ FirstInstalled h t pre m := by
  refine Runs.accepted_history_rule (I := fun pre m => m.setPolicy = none ∨ FirstInstalled h t pre m)
    (Or.inl rfl) (fun pre c opt d hpre hc hstep => ?_) hok
  rcases step_ok hstep with hsets | hquiet
  · exact Or.inr ⟨pre, opt, [], c, d, rfl, hpre, hsets.unset, hsets.setsPolicy, hstep, rfl, rfl,
      fun _ _ _ _ _ => rfl⟩
  · by_cases hunset : c.setPolicy = none
    · exact Or.inl (hquiet.setPolicy_eq.trans hunset)
    · have hattaches : opt.attaches = false :=
        Bool.eq_false_iff.mpr fun hattaches => hunset (hquiet.attached hattaches).1
      obtain ⟨front, first, back, m₀, m₁, rfl, hrest⟩ := (hc.resolve_left hunset).of_frame
        (hquiet.region_eq hattaches) hquiet.policy_eq hquiet.pages_eq
      exact Or.inr ⟨front, first, back ++ [opt], m₀, m₁, by rw [List.append_assoc, List.cons_append], hrest⟩

/-- A region is attached by the options that say so. -/
theorem region_of_accepted (hok : (initial t).optionLoop h pre = .ok m) :
    m.region.isSome = pre.any Opt.attaches := by
  refine Runs.accepted_history_rule (I := fun pre m => m.region.isSome = pre.any Opt.attaches) rfl
    (fun pre c opt d _ hc hstep => ?_) hok
  rw [List.any_append, ← hc, List.any_cons, List.any_nil, Bool.or_false]
  rcases step_ok hstep with hsets | hquiet
  · have hattaches : opt.attaches = false := by
      have hpolicy := hsets.setsPolicy
      cases opt with
      | shm arg => cases hpolicy
      | file arg => cases hpolicy
      | _ => rfl
    rw [hsets.region_eq, hattaches, Bool.or_false]
  · cases hattaches : opt.attaches with
    | true => rw [(hquiet.attached hattaches).2, Bool.or_true]
    | false => rw [hquiet.region_eq hattaches, Bool.or_false]

/-- The probe is made by the options that say so. -/
theorem probed_of_accepted (ht : t.hasPreferredMany = none)
    (hok : (initial t).optionLoop h pre = .ok m) : m.task.hasPreferredMany.isSome = pre.any Opt.probes := by
  refine Runs.accepted_history_rule (I := fun pre m => m.task.hasPreferredMany.isSome = pre.any Opt.probes)
    ?_ (fun pre c opt d _ hc hstep => ?_) hok
  · exact congrArg Option.isSome ht
  · rw [List.any_append, ← hc, List.any_cons, List.any_nil, Bool.or_false]
    exact probed_step hstep

/-- A conflict at `-p` or `-P`, in a state in which `-P` may have made the probe: a policy is asked for unless no
region is attached and the probe has been made before. -/
theorem onlyFirst_preferred (hfits : h.kernel.nrNodeIds ≤ g.nodemaskSz) {n : Main g} {many : Bool}
    {optarg : List Char} (hfirst : FirstInstalled h t pre m) (hregion : n.region = m.region)
    (hprobe : n.task = m.task ∨ n.task = setPreferredMany h.kernel m.task)
    (hrej : n.preferred h many optarg = .error ⟨.conflict, m'⟩) :
    OnlyFirst h t pre m m' ↔ m.region = none ∧ m.task.hasPreferredMany.isSome = true := by
  obtain ⟨-, hregion', hnone, hsome⟩ := preferred_conflict hrej
  have hcount : m.task.policyRequests.length + (if m.task.hasPreferredMany.isSome = true then 0 else 1) ≤
      (preferring h n).policyRequests.length := by
    have hpreferring : (preferring h n).policyRequests.length =
        (setPreferredMany h.kernel { n.task with errno := 0 }).policyRequests.length := by
      unfold Task.policyRequests preferring
      rw [requests_numaSetBindPolicy]
    have hagain := policyRequests_setPreferredMany hfits { n.task with errno := 0 }
    rw [hpreferring]
    rcases hprobe with heq | heq
    · rw [heq] at hagain ⊢
      exact hagain
    · rw [heq] at hagain ⊢
      exact (policyRequests_setPreferredMany hfits m.task).trans ((Nat.le_add_right _ _).trans hagain)
  refine ⟨fun honly => ?_, fun hcond => ?_⟩
  · have hsilent := congrArg List.length honly.silent
    cases hr : m.region with
    | some r =>
        obtain ⟨node, htask⟩ := hsome r (hregion.trans hr)
        have hbound := policyRequests_dombind h.kernel r.shmptr r.shmlen (preferring h n).bindPolicy
          (numaBitmaskSetbit g.numaAllocateNodemask (BitVec.ofInt 32 node).toNat) (preferring h n)
        have hlast := policyRequests_setPreferredMany hfits
          (numaTonodeMemory h.kernel r.shmptr r.shmlen node (preferring h n))
        rw [htask, numaHasPreferredMany] at hsilent
        unfold numaTonodeMemory at hlast hsilent
        rw [hbound] at hlast
        dsimp only at hsilent
        omega
    | none =>
        refine ⟨rfl, ?_⟩
        rw [hnone (hregion.trans hr)] at hsilent
        by_contra hprobed
        rw [if_neg hprobed] at hcount
        omega
  · obtain ⟨hr, hprobed⟩ := hcond
    have heq : n.task = m.task := by
      rcases hprobe with heq | heq
      · exact heq
      · rw [heq]
        exact if_pos hprobed
    obtain ⟨pol, hpol⟩ := numaSetBindPolicy_of_probed h.kernel false
      (show ({ m.task with errno := 0 } : Task g).hasPreferredMany.isSome = true from hprobed)
    have htask := hnone (hregion.trans hr)
    rw [preferring, heq, hpol] at htask
    refine ⟨hfirst.of_frame (hregion'.trans hregion) ?_ ?_, ?_⟩
    · rw [htask]
    · rw [htask]
    · rw [htask]
      rfl

/-- A run that is rejected for conflicting policies has asked for no second policy exactly if the rejected
option checks first. -/
theorem onlyFirst_iff (hfits : h.kernel.nrNodeIds ≤ g.nodemaskSz) (ht : t.hasPreferredMany = none)
    (hpre : (initial t).optionLoop h pre = .ok m)
    (hrej : m.step h opt = .error ⟨.usage (some "Conflicting policies"), m'⟩) :
    OnlyFirst h t pre m m' ↔ opt.AsksAfterCheck pre := by
  change m.step h opt = .error ⟨.conflict, m'⟩ at hrej
  have hfirst : m.setPolicy ≠ none → FirstInstalled h t pre m := (firstInstalled_of_accepted hpre).resolve_left
  have hcond : m.region = none ∧ m.task.hasPreferredMany.isSome = true ↔
      (∀ opt ∈ pre, opt.attaches = false) ∧ ∃ opt ∈ pre, opt.probes = true := by
    rw [probed_of_accepted ht hpre, List.any_eq_true, ← Option.isSome_eq_false_iff.trans Option.isNone_iff_eq_none,
      region_of_accepted hpre, List.any_eq_false]
    simp only [Bool.not_eq_true]
  have hinterleave : m.setPolicy ≠ none ∧ m'.region = m.region ∧ m'.task = { m.task with errno := 0 } →
      OnlyFirst h t pre m m' := by
    intro hrejected
    obtain ⟨hset, hregion, htask⟩ := hrejected
    refine ⟨(hfirst hset).of_frame hregion ?_ ?_, ?_⟩
    · rw [htask]
    · rw [htask]
    · rw [htask]
      rfl
  cases opt with
  | weightedInterleave arg =>
      exact iff_of_true
        (hinterleave (interleave_conflict (m := { m with weightedInterleave := true }) hrej)) trivial
  | interleave arg => exact iff_of_true (hinterleave (interleave_conflict hrej)) trivial
  | membind arg =>
      obtain ⟨hset, rfl⟩ := membind_conflict hrej
      exact iff_of_true ⟨hfirst hset, rfl⟩ trivial
  | localalloc =>
      obtain ⟨hset, rfl⟩ := localalloc_conflict hrej
      exact iff_of_true ⟨hfirst hset, rfl⟩ trivial
  | preferredMany arg =>
      have hrej' := preferredMany_conflict hrej
      have hset := (preferred_conflict hrej').1
      exact (onlyFirst_preferred (n := { m with task := (numaHasPreferredMany h.kernel m.task).2 }) hfits
        (hfirst hset) rfl (Or.inr rfl) hrej').trans hcond
  | preferred arg =>
      have hset := (preferred_conflict hrej).1
      exact (onlyFirst_preferred hfits (hfirst hset) rfl (Or.inl rfl) hrej).trans hcond
  | _ => cases setsPolicy_of_conflict hrej

/-- The program has ended with a conflict. -/
def conflicts : Except (Stopped g) (Main g) → Bool
  | .error e => decide (e.exit = .conflict)
  | .ok _ => false

theorem exists_conflict {x : Except (Stopped g) (Main g)} (hx : conflicts x = true) :
    ∃ m, x = .error ⟨.conflict, m⟩ := by
  cases x with
  | ok m => cases hx
  | error e =>
      obtain ⟨exit, m⟩ := e
      obtain rfl : exit = .conflict := of_decide_eq_true hx
      exact ⟨m, rfl⟩

end Main

theorem onlyFirst_membind_preferred :
    ∃ m m', (Main.initial (Task.initial gapGlobals)).optionLoop plainHost [.membind "0".toList] = .ok m ∧
      m.step plainHost (.preferred "2".toList) = .error ⟨.usage (some "Conflicting policies"), m'⟩ ∧
      Main.OnlyFirst plainHost (Task.initial gapGlobals) [.membind "0".toList] m m' := by
  obtain ⟨m, hpre⟩ : ∃ m, (Main.initial (Task.initial gapGlobals)).optionLoop plainHost
      [.membind "0".toList] = .ok m := Main.exists_ok (by decide +kernel)
  have hstep : Main.conflicts ((Main.initial (Task.initial gapGlobals)).optionLoop plainHost
      [.membind "0".toList] >>= fun m => m.step plainHost (.preferred "2".toList)) = true := by
    decide +kernel
  rw [hpre] at hstep
  change Main.conflicts (m.step plainHost (.preferred "2".toList)) = true at hstep
  obtain ⟨m', hrej⟩ := Main.exists_conflict hstep
  exact ⟨m, m', hpre, hrej, (Main.onlyFirst_iff plainKernel_keeps.fits rfl hpre hrej).mpr
    ⟨by decide, _, List.mem_singleton.mpr rfl, rfl⟩⟩

/-- The region is interleaved, and the rejected `-p` binds it to node 0. -/
theorem not_onlyFirst_preferred :
    ∃ m m', (Main.initial (Task.initial gapGlobals)).optionLoop plainHost
        [.shm "queue".toList, .interleave "0,2".toList] = .ok m ∧
      m.step plainHost (.preferred "0".toList) = .error ⟨.usage (some "Conflicting policies"), m'⟩ ∧
      ¬Main.OnlyFirst plainHost (Task.initial gapGlobals) [.shm "queue".toList, .interleave "0,2".toList] m m' := by
  obtain ⟨m, hpre⟩ : ∃ m, (Main.initial (Task.initial gapGlobals)).optionLoop plainHost
      [.shm "queue".toList, .interleave "0,2".toList] = .ok m := Main.exists_ok (by decide +kernel)
  have hstep : Main.conflicts ((Main.initial (Task.initial gapGlobals)).optionLoop plainHost
      [.shm "queue".toList, .interleave "0,2".toList] >>= fun m =>
        m.step plainHost (.preferred "0".toList)) = true := by
    decide +kernel
  rw [hpre] at hstep
  change Main.conflicts (m.step plainHost (.preferred "0".toList)) = true at hstep
  obtain ⟨m', hrej⟩ := Main.exists_conflict hstep
  refine ⟨m, m', hpre, hrej, fun honly => ?_⟩
  have hfirst := (Main.firstInstalled_of_accepted hpre).resolve_left (Main.preferred_conflict hrej).1
  have hcond := (Main.onlyFirst_preferred plainKernel_keeps.fits hfirst rfl (Or.inl rfl) hrej).mp honly
  have hregion := Main.region_of_accepted hpre
  rw [hcond.1] at hregion
  cases hregion

end Numactl
