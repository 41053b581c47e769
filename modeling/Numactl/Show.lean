import Mathlib.Data.Finset.Sort
import Numactl.Affinity
import Numactl.Base.FieldLines
import Numactl.Base.Ranges
import Numactl.LibraryInit
import Numactl.Numastat
import Numactl.ShmDump

/-! What `numactl --show` prints (`show` in `numactl.c`) about the task it runs in: the policy, the nodes of the masks
and the CPUs. Each line is named, and a script reads it by its name. -/

namespace Numactl

open CString
open PolicyCall (NodesExist bits_numaGetMembindV2)

/-- What the system answers besides the policy and the nodes: the CPUs of the task, for a mask that is large enough, the
node an interleaving goes on with, and the files of the weights. -/
structure ShowSystem where
  affinity : AffinityKernel
  cpus : Finset Nat
  cpus_lt : ∀ c ∈ cpus, c < affinity.nrCpuIds
  interleaveNode : Option Int
  weight : Nat → Option (List Char)

variable {g : Globals}

/-! ### The masks -/

section

variable (k : Kernel)

/-- The nodes of the policy if it is the given one, no nodes otherwise. -/
def nodesUnder (policy : Nat) (t : Task g) : Bitmask × Task g :=
  let r := getpol k 0 g.numaAllocateNodemask t
  (if r.1.1 ≠ policy then copyBitmaskToBitmask g.numaNoNodesPtr r.1.2 else r.1.2, r.2)

def numaGetInterleaveMaskV2 (t : Task g) : Bitmask × Task g := nodesUnder k mpolInterleave t

def numaGetWeightedInterleaveMask (t : Task g) : Bitmask × Task g := nodesUnder k mpolWeightedInterleave t

end

namespace ShowSystem

variable (sys : ShowSystem)

/-- `sched_getaffinity` with a mask of so many bits. -/
def getaffinity (len : Nat) : Except Errno (Finset Nat) := (sys.affinity.getaffinity len).map fun _ => sys.cpus

def numaGetInterleaveNode : Int := sys.interleaveNode.getD 0

/-! ### The lines -/

/-- The loop of `show_physcpubind`; `none` where it ends the program with an error. -/
def physcpubindLoop : Nat → Nat → Option (List Char)
  | 0, _ => none
  | fuel + 1, ncpus =>
      let cpubuf := zeroBitmask ncpus
      match sys.getaffinity (numaBitmaskNbytes cpubuf * 8) with
      | .error e => if e = EINVAL ∧ ncpus < 1024 * 1024 then physcpubindLoop fuel (2 * ncpus) else none
      | .ok cpus => some (printmask "physcpubind".toList (Kernel.fill cpubuf cpus))

def showPhyscpubind (g : Globals) : Option (List Char) := sys.physcpubindLoop 21 g.numConfiguredCpus

/-- The words of the loop of `show_weighted_interleave_weights` for one node; `none` where it reads through a null
pointer. -/
def weightText (mask : Bitmask) (i : Nat) : Option (List Char) :=
  if numaBitmaskIsbitset mask i then do
    let weight ← sys.weight i
    let r := strtol 10 weight
    return if r.2 = weight then [] else ' ' :: printInt (intOfLong r.1)
  else some []

def showWeightedInterleaveWeights (g : Globals) (mask : Bitmask) : Option (List Char) := do
  let words ← (List.range (g.maxconfigurednode + 1)).mapM (sys.weightText mask)
  return "interleaveweights:".toList ++ words.flatten ++ ['\n']

/-- The rest of the line `preferred node`. A policy that the switch has no case for leaves the line open. -/
def preferredNode (policy : Nat) (preferred membind : Bitmask) : List Char :=
  if policy = mpolPreferred then
    printInt (if numaBitmaskWeight preferred ≠ 0 then numaFindFirst preferred else 0) ++ ['\n']
  else if policy = mpolDefault then "current\n".toList
  else if policy = mpolInterleave ∨ policy = mpolWeightedInterleave then
    printInt sys.numaGetInterleaveNode ++ " (interleave next)\n".toList
  else if policy = mpolBind then printInt (numaFindFirst membind) ++ ['\n']
  else if policy = mpolPreferredMany then printInt sys.numaGetInterleaveNode ++ " (preferred-many)\n".toList
  else []

/-- The lines between `preferred node` and `physcpubind`. -/
def interleaveLines (policy : Nat) (interleave weightedInterleave : Bitmask) : Option (List Char) :=
  let interleavenode := "interleavenode: ".toList ++ printInt sys.numaGetInterleaveNode ++ ['\n']
  if policy = mpolInterleave then some (printmask "interleavemask".toList interleave ++ interleavenode)
  else if policy = mpolWeightedInterleave then do
    let weights ← sys.showWeightedInterleaveWeights g weightedInterleave
    return printmask "interleavemask".toList weightedInterleave ++ weights ++ interleavenode
  else some []

/-- `show`, from the task it runs in; `none` where the program ends with an error. -/
def printShow (k : Kernel) (t : Task g) : Option (List Char) := do
  if !numaAvailable k then
    let physcpubind ← sys.showPhyscpubind g
    return physcpubind ++ "No NUMA support available on this system.\n".toList
  let (cpubind, t) := numaGetRunNodeMaskV2 k (sys.getaffinity (numaBitmaskNbytes g.numaAllocateCpumask * 8)) t
  let (preferred, t) := numaPreferredMany k t
  let (interleave, t) := numaGetInterleaveMaskV2 k t
  let (weightedInterleave, t) := numaGetWeightedInterleaveMask k t
  let (membind, t) := numaGetMembindV2 k t
  let policy := t.policy.policy
  let lines ← sys.interleaveLines (g := g) policy interleave weightedInterleave
  let physcpubind ← sys.showPhyscpubind g
  return "policy: ".toList ++ policyName policy ++ ['\n'] ++
    ("preferred node: ".toList ++ sys.preferredNode policy preferred membind ++ lines) ++ physcpubind ++
    printmask "cpubind".toList cpubind ++ printmask "nodebind".toList cpubind ++
    printmask "membind".toList membind ++ printmask "preferred".toList preferred

/-! ### Numbers on a line -/

end ShowSystem

/-- The numbers of a set in ascending order, as a line shows them. -/
def numberText (S : Finset Nat) : List Char := (S.sort (· ≤ ·)).flatMap fun i => decimal i ++ [' ']

theorem filter_isbitset (mask : Bitmask) :
    (List.range mask.size).filter (fun i => numaBitmaskIsbitset mask i) = mask.bits.sort (· ≤ ·) := by
  apply Ranges.filter_range_eq_sort
  intro n
  rw [numaBitmaskIsbitset_eq_true, Bitmask.mem_bits]
  exact (and_iff_right_of_imp And.left).symm

theorem printmask_eq (name : List Char) (mask : Bitmask) :
    printmask name mask = name ++ ": ".toList ++ numberText mask.bits ++ ['\n'] := by
  have hflat := Ranges.flatMap_ite (fun i => numaBitmaskIsbitset mask i) (fun i => decimal i ++ [' '])
    (List.range mask.size)
  rw [printmask, hflat, filter_isbitset]
  rfl

theorem newline_notMem_decimal (n : Nat) : '\n' ∉ decimal n := fun h => absurd (isDigitOf_decimal '\n' h) (by decide)

theorem newline_notMem_printInt (n : Int) : '\n' ∉ printInt n := by
  unfold printInt
  split
  · exact List.not_mem_cons_of_ne_of_not_mem (by decide) (newline_notMem_decimal _)
  · exact newline_notMem_decimal _

theorem newline_notMem_numberText (S : Finset Nat) : '\n' ∉ numberText S := by
  intro h
  obtain ⟨i, -, hi⟩ := List.mem_flatMap.mp h
  rcases List.mem_append.mp hi with hi | hi
  · exact newline_notMem_decimal i hi
  · exact absurd (List.mem_singleton.mp hi) (by decide)

/-- A line of numbers is read back. -/
theorem numberText_injective : Function.Injective numberText := by
  have htext (S : Finset Nat) : numberText S = FieldLines.text ' ' ((S.sort (· ≤ ·)).map decimal) := by
    rw [numberText, FieldLines.text, List.flatMap_map]
  have hspace (S : Finset Nat) : ∀ line ∈ (S.sort (· ≤ ·)).map decimal, ' ' ∉ line := by
    intro line hline
    obtain ⟨i, -, rfl⟩ := List.mem_map.mp hline
    exact fun h => absurd (isDigitOf_decimal ' ' h) (by decide)
  have hdecimal : Function.Injective decimal := fun m n h => by
    rw [← ofDigits_decimal m, h, ofDigits_decimal]
  intro S T h
  have hsplit := congrArg (List.splitOn ' ') h
  rw [htext, htext, FieldLines.splitOn_text (hspace S), FieldLines.splitOn_text (hspace T)] at hsplit
  have hsort := hdecimal.list_map (List.append_cancel_right hsplit)
  apply Finset.ext
  intro i
  rw [← Finset.mem_sort (· ≤ ·), hsort, Finset.mem_sort]

/-! ### The CPUs -/

namespace ShowSystem

variable (sys : ShowSystem)

/-- A mask of so many bits is too small for the kernel. -/
def Refuses (ncpus : Nat) : Bool := longsperbits ncpus * 64 < sys.affinity.nrCpuIds

theorem physcpubindLoop_eq (fuel ncpus : Nat) :
    sys.physcpubindLoop fuel ncpus = (Doubling.search sys.Refuses (1024 * 1024) fuel ncpus).bind fun n =>
      if sys.Refuses n then none
      else some ("physcpubind: ".toList ++ numberText (sys.cpus.filter (· < n)) ++ ['\n']) := by
  induction fuel generalizing ncpus with
  | zero => rfl
  | succ fuel ih =>
      have hlen : numaBitmaskNbytes (zeroBitmask ncpus) * 8 = longsperbits ncpus * 64 := by
        rw [numaBitmaskNbytes, Nat.mul_assoc]
        rfl
      rw [physcpubindLoop, Doubling.search, hlen, getaffinity, AffinityKernel.getaffinity]
      by_cases hsmall : longsperbits ncpus * 64 < sys.affinity.nrCpuIds
      · have hrefuses : sys.Refuses ncpus = true := decide_eq_true hsmall
        rw [if_pos hsmall]
        dsimp only [Except.map]
        by_cases hlimit : ncpus < 1024 * 1024
        · rw [if_pos ⟨rfl, hlimit⟩, if_pos ⟨hrefuses, hlimit⟩]
          exact ih (2 * ncpus)
        · rw [if_neg fun h => hlimit h.2, if_neg fun h => hlimit h.2, Option.bind_some, if_pos hrefuses]
      · have hrefuses : ¬sys.Refuses ncpus = true := fun h => hsmall (of_decide_eq_true h)
        rw [if_neg hsmall, if_neg fun h => hrefuses h.1, Option.bind_some, if_neg hrefuses]
        dsimp only [Except.map]
        rw [printmask_eq, Kernel.bits_fill]
        rfl

/-- The size of the mask is the number of configured CPUs, doubled until the words of the mask have a bit for every CPU
the kernel knows. CPUs are shown as far as the size goes. -/
theorem showPhyscpubind_eq (hpos : 0 < g.numConfiguredCpus) (hfew : sys.affinity.nrCpuIds ≤ 1024 * 1024) :
    ∃ j, Doubling.StopsAt sys.Refuses (1024 * 1024) g.numConfiguredCpus j ∧
      sys.Refuses (2 ^ j * g.numConfiguredCpus) = false ∧
      sys.showPhyscpubind g = some ("physcpubind: ".toList ++
        numberText (sys.cpus.filter (· < 2 ^ j * g.numConfiguredCpus)) ++ ['\n']) := by
  obtain ⟨n, hsearch⟩ : ∃ n, Doubling.search sys.Refuses (1024 * 1024) 21 g.numConfiguredCpus = some n :=
    Doubling.exists_search (by omega)
  obtain ⟨j, -, rfl, hstops⟩ := Doubling.search_eq_some hsearch
  have henough : sys.Refuses (2 ^ j * g.numConfiguredCpus) = false := by
    rw [Bool.eq_false_iff]
    intro hrefuses
    have hlimit : ¬2 ^ j * g.numConfiguredCpus < 1024 * 1024 := fun h => hstops.stops ⟨hrefuses, h⟩
    have hwords := le_longsperbits (2 ^ j * g.numConfiguredCpus)
    have hsmall := of_decide_eq_true hrefuses
    omega
  refine ⟨j, hstops, henough, ?_⟩
  rw [showPhyscpubind, physcpubindLoop_eq, hsearch, Option.bind_some, henough]
  rfl

end ShowSystem

/-! ### The nodes -/

section

variable {k : Kernel} {t : Task g}

theorem getpol_eq (hfits : k.nrNodeIds ≤ g.nodemaskSz) (oldpolicy : Nat) {bmp : Bitmask} (hsize : bmp.size = g.nodemaskSz)
    (t : Task g) : getpol k oldpolicy bmp t = ((t.policy.policy, Kernel.fill bmp t.policy.nodes), t) := by
  rw [getpol, Kernel.getMempolicy_eq t.policy bmp (hsize ▸ hfits)]

theorem bits_fill_of_nodesExist (hfits : k.nrNodeIds ≤ g.nodemaskSz) (hnodes : NodesExist k t) {bmp : Bitmask}
    (hsize : bmp.size = g.nodemaskSz) : (Kernel.fill bmp t.policy.nodes).bits = t.policy.nodes := by
  rw [Kernel.bits_fill, hsize]
  exact Finset.filter_true_of_mem fun i hi => (hnodes i hi).trans_le hfits

theorem bits_nodesUnder (hfits : k.nrNodeIds ≤ g.nodemaskSz) (hnodes : NodesExist k t) (policy : Nat) :
    (nodesUnder k policy t).1.bits = if t.policy.policy = policy then t.policy.nodes else ∅ := by
  have hzero : g.numaNoNodesPtr.FitsIn g.nodemaskSz := Bitmask.fitsIn_size (zeroBitmask g.nodemaskSz)
  have hsize : g.numaAllocateNodemask.size = g.nodemaskSz := rfl
  rw [nodesUnder, getpol_eq hfits 0 hsize]
  by_cases h : t.policy.policy = policy
  · rw [if_neg fun hne => hne h, if_pos h]
    exact bits_fill_of_nodesExist hfits hnodes rfl
  · rw [if_pos h, if_neg h]
    exact (hzero.bits_copy rfl).trans (bits_zeroBitmask g.nodemaskSz)

theorem task_nodesUnder (hfits : k.nrNodeIds ≤ g.nodemaskSz) (policy : Nat) (t : Task g) :
    (nodesUnder k policy t).2 = t := by
  have hsize : g.numaAllocateNodemask.size = g.nodemaskSz := rfl
  rw [nodesUnder, getpol_eq hfits 0 hsize]

theorem task_numaGetMembindV2 (hfits : k.nrNodeIds ≤ g.nodemaskSz) (t : Task g) : (numaGetMembindV2 k t).2 = t := by
  have hsize : g.numaAllocateNodemask.size = g.nodemaskSz := rfl
  rw [numaGetMembindV2, getpol_eq hfits 0 hsize]

/-- The nodes of every policy are reported as preferred. -/
theorem bits_numaPreferredMany (hfits : k.nrNodeIds ≤ g.nodemaskSz) (hnodes : NodesExist k t) :
    (numaPreferredMany k t).1.bits = t.policy.nodes := by
  have hsize : (numaBitmaskClearall g.numaAllocateNodemask).size = g.nodemaskSz := size_clearall g.numaAllocateNodemask
  have hfill := bits_fill_of_nodesExist hfits hnodes hsize
  unfold numaPreferredMany preferred
  rw [getpol_eq hfits 0 hsize]
  dsimp only
  split
  · exact hfill
  · split
    · exact hfill
    · exact hfill

/-- Showing nodes as preferred leaves the policy alone. -/
theorem policy_numaPreferredMany (hfits : k.nrNodeIds ≤ g.nodemaskSz) : (numaPreferredMany k t).2.policy = t.policy := by
  unfold numaPreferredMany preferred
  rw [getpol_eq hfits 0 (size_clearall g.numaAllocateNodemask)]
  dsimp only
  split
  · rfl
  · split
    · rfl
    · rfl

/-- Looking for the nodes a task runs on leaves its policy alone. -/
theorem policy_numaGetRunNodeMaskV2 (reported : Except Errno (Finset Nat)) (t : Task g) :
    (numaGetRunNodeMaskV2 k reported t).2.policy = t.policy := by
  have hstep (cpus : Bitmask) (s : RunNodeLoop g) (i : Nat) : (addRunNode k cpus s i).task.policy = s.task.policy := by
    unfold addRunNode
    split
    · dsimp only
      split
      · rfl
      · rfl
    · rfl
  have hloop (cpus : Bitmask) (is : List Nat) (s : RunNodeLoop g) :
      (is.foldl (addRunNode k cpus) s).task.policy = s.task.policy := by
    induction is generalizing s with
    | nil => rfl
    | cons i is ih =>
        rw [List.foldl_cons, ih]
        exact hstep cpus s i
  unfold numaGetRunNodeMaskV2
  dsimp only
  split
  · split
    · rfl
    · rfl
  · exact hloop _ _ _

end

/-! ### The text -/

open FieldLines (field text)

namespace ShowSystem

/-- The switch over the policy has a case for it. -/
def HasCase (policy : Nat) : Prop :=
  policy ∈ [mpolDefault, mpolPreferred, mpolBind, mpolInterleave, mpolPreferredMany, mpolWeightedInterleave]

instance (policy : Nat) : Decidable (HasCase policy) := inferInstanceAs (Decidable (_ ∈ _))

/-- What begins a line. -/
def labels : List (List Char) :=
  ["policy: ".toList, "preferred node: ".toList, "interleavemask: ".toList, "interleaveweights:".toList,
    "interleavenode: ".toList, "physcpubind: ".toList, "cpubind: ".toList, "nodebind: ".toList, "membind: ".toList,
    "preferred: ".toList]

theorem labels_differ : ∀ label ∈ labels, ∀ label' ∈ labels,
    label = label' ∨ ¬label <+: label' ∧ ¬label' <+: label := by decide

/-- A line is a label and a value. -/
def IsLine (f : List Char × List Char) : Prop := f.1 ∈ labels ∧ '\n' ∉ f.1 ++ f.2

theorem isLine {label value : List Char} (hlabel : label ∈ labels) (hvalue : '\n' ∉ value) : IsLine (label, value) := by
  refine ⟨hlabel, fun h => ?_⟩
  rcases List.mem_append.mp h with h | h
  · have hclean : ∀ l ∈ labels, '\n' ∉ l := by decide
    exact hclean label hlabel h
  · exact hvalue h

/-- A line is looked up by its label. -/
theorem field_of_isLine {fields : List (List Char × List Char)} (h : ∀ f ∈ fields, IsLine f) {label : List Char}
    (hlabel : label ∈ labels) : field '\n' label (text '\n' (fields.map fun f => f.1 ++ f.2)) = fields.lookup label := by
  apply FieldLines.field_labelled
  · exact fun f hf => (h f hf).2
  · rintro rfl
    exact absurd hlabel (by decide)
  · exact fun f hf => labels_differ label hlabel f.1 (h f hf).1

theorem newline_notMem_policyName (policy : Nat) : '\n' ∉ policyName policy := by
  unfold policyName
  split
  · rw [List.cons_append, List.mem_cons, List.mem_append, List.mem_singleton]
    rintro (h | h | h)
    · exact absurd h (by decide)
    · exact newline_notMem_printInt _ h
    · exact absurd h (by decide)
  · next hsmall =>
    have hlt : policy < policyNames.length := by omega
    have hclean : ∀ i < policyNames.length, '\n' ∉ (policyNames.getD i "").toList := by decide
    exact hclean policy hlt

variable (sys : ShowSystem) {k : Kernel} {t : Task g}

theorem preferredNode_of_hasCase {policy : Nat} (h : HasCase policy) (preferred membind : Bitmask) :
    ∃ value, '\n' ∉ value ∧ sys.preferredNode policy preferred membind = value ++ ['\n'] := by
  have hcat (n : Int) {words : List Char} (hwords : '\n' ∉ words) : '\n' ∉ printInt n ++ words := by
    rw [List.mem_append, not_or]
    exact ⟨newline_notMem_printInt n, hwords⟩
  unfold preferredNode
  split
  · exact ⟨_, newline_notMem_printInt _, rfl⟩
  split
  · exact ⟨"current".toList, by decide, rfl⟩
  split
  · refine ⟨printInt sys.numaGetInterleaveNode ++ " (interleave next)".toList, hcat _ (by decide), ?_⟩
    rw [List.append_assoc]
    rfl
  split
  · exact ⟨_, newline_notMem_printInt _, rfl⟩
  split
  · refine ⟨printInt sys.numaGetInterleaveNode ++ " (preferred-many)".toList, hcat _ (by decide), ?_⟩
    rw [List.append_assoc]
    rfl
  · next hpreferred hdefault hinterleave hbind hmany =>
    rw [not_or] at hinterleave
    simp only [HasCase, List.mem_cons, List.not_mem_nil, or_false] at h
    rcases h with h | h | h | h | h | h
    · exact absurd h hdefault
    · exact absurd h hpreferred
    · exact absurd h hbind
    · exact absurd h hinterleave.1
    · exact absurd h hmany
    · exact absurd h hinterleave.2

theorem preferredNode_of_not_hasCase {policy : Nat} (h : ¬HasCase policy) (preferred membind : Bitmask) :
    sys.preferredNode policy preferred membind = [] := by
  simp only [HasCase, List.mem_cons, List.not_mem_nil, or_false, not_or] at h
  obtain ⟨hdefault, hpreferred, hbind, hinterleave, hmany, hweighted⟩ := h
  rw [preferredNode, if_neg hpreferred, if_neg hdefault, if_neg (not_or.mpr ⟨hinterleave, hweighted⟩), if_neg hbind,
    if_neg hmany]

theorem newline_notMem_weights {mask : Bitmask} {is : List Nat} {words : List (List Char)}
    (h : is.mapM (sys.weightText mask) = some words) : '\n' ∉ words.flatten := by
  induction is generalizing words with
  | nil =>
      obtain rfl := Option.some.inj h
      exact List.not_mem_nil
  | cons i is ih =>
      rw [List.mapM_cons] at h
      simp only [Option.bind_eq_bind, Option.bind_eq_some_iff, Option.pure_def, Option.some.injEq] at h
      obtain ⟨word, hword, rest, hrest, rfl⟩ := h
      rw [List.flatten_cons, List.mem_append, not_or]
      refine ⟨?_, ih hrest⟩
      unfold weightText at hword
      split at hword
      · simp only [Option.bind_eq_bind, Option.bind_eq_some_iff, Option.pure_def, Option.some.injEq] at hword
        obtain ⟨weight, -, rfl⟩ := hword
        split
        · exact List.not_mem_nil
        · exact List.not_mem_cons_of_ne_of_not_mem (by decide) (newline_notMem_printInt _)
      · obtain rfl := Option.some.inj hword
        exact List.not_mem_nil

/-- The lines between `preferred node` and `physcpubind`, by the policy. -/
theorem interleaveLines_cases {policy : Nat} {interleave weightedInterleave : Bitmask} {out : List Char}
    (h : sys.interleaveLines (g := g) policy interleave weightedInterleave = some out) :
    ∃ middle : List (List Char × List Char), (∀ f ∈ middle, IsLine f) ∧
      out = text '\n' (middle.map fun f => f.1 ++ f.2) ∧
      ((policy ≠ mpolInterleave ∧ policy ≠ mpolWeightedInterleave ∧ middle = []) ∨
        (∃ node, policy = mpolInterleave ∧
          middle = [("interleavemask: ".toList, numberText interleave.bits), ("interleavenode: ".toList, node)]) ∨
        ∃ weights node, policy = mpolWeightedInterleave ∧
          middle = [("interleavemask: ".toList, numberText weightedInterleave.bits),
            ("interleaveweights:".toList, weights), ("interleavenode: ".toList, node)]) := by
  have hmask (mask : Bitmask) : IsLine ("interleavemask: ".toList, numberText mask.bits) :=
    isLine (by decide) (newline_notMem_numberText _)
  have hnode : IsLine ("interleavenode: ".toList, printInt sys.numaGetInterleaveNode) :=
    isLine (by decide) (newline_notMem_printInt _)
  unfold interleaveLines at h
  dsimp only at h
  split at h
  · next hpolicy =>
    refine ⟨_, List.forall_mem_cons.mpr ⟨hmask interleave, List.forall_mem_singleton.mpr hnode⟩, ?_,
      Or.inr (Or.inl ⟨_, hpolicy, rfl⟩)⟩
    rw [← Option.some.inj h, printmask_eq]
    simp [text]
  · next hnot =>
    split at h
    · next hpolicy =>
      simp only [Option.bind_eq_bind, Option.bind_eq_some_iff, Option.pure_def, Option.some.injEq,
        showWeightedInterleaveWeights] at h
      obtain ⟨_, ⟨words, hwords, rfl⟩, rfl⟩ := h
      have hweights : IsLine ("interleaveweights:".toList, words.flatten) :=
        isLine (by decide) (sys.newline_notMem_weights hwords)
      refine ⟨_, List.forall_mem_cons.mpr ⟨hmask weightedInterleave, List.forall_mem_cons.mpr ⟨hweights,
        List.forall_mem_singleton.mpr hnode⟩⟩, ?_, Or.inr (Or.inr ⟨_, _, hpolicy, rfl⟩)⟩
      rw [printmask_eq]
      simp [text]
    · next hnot' =>
      obtain rfl := Option.some.inj h
      exact ⟨[], fun f hf => absurd hf List.not_mem_nil, rfl, Or.inl ⟨hnot, hnot', rfl⟩⟩

end ShowSystem

/-- What the lines say about a policy. -/
structure ShowsPolicy (g : Globals) (p : MemPolicy) (out : List Char) : Prop where
  policy : field '\n' "policy: ".toList out = some (policyName p.policy)
  interleavemask : field '\n' "interleavemask: ".toList out =
    if p.policy = mpolInterleave ∨ p.policy = mpolWeightedInterleave then some (numberText p.nodes) else none
  membind : field '\n' "membind: ".toList out =
    some (numberText (if p.policy = mpolBind then p.nodes else g.numaAllNodesPtr.bits))
  preferred : field '\n' "preferred: ".toList out = some (numberText p.nodes)

namespace ShowSystem

variable (sys : ShowSystem) {k : Kernel} {t : Task g}

/-- What the lines say about the task, of which the CPUs below `size` are shown. -/
structure Shown (k : Kernel) (t : Task g) (size : Nat) (out : List Char) : Prop
    extends ShowsPolicy g t.policy out where
  physcpubind : field '\n' "physcpubind: ".toList out =
    if HasCase t.policy.policy then some (numberText (sys.cpus.filter (· < size))) else none
  cpubind : field '\n' "cpubind: ".toList out = field '\n' "nodebind: ".toList out
  nodebind : field '\n' "nodebind: ".toList out = some (numberText
    (numaGetRunNodeMaskV2 k (sys.getaffinity (numaBitmaskNbytes g.numaAllocateCpumask * 8)) t).1.bits)

/-- Lines that are found by their labels show what their values say. -/
theorem shown_of_lookups {size : Nat} {fields : List (List Char × List Char)} (hfields : ∀ f ∈ fields, IsLine f)
    (hpolicy : fields.lookup "policy: ".toList = some (policyName t.policy.policy))
    (hinterleavemask : fields.lookup "interleavemask: ".toList =
      if t.policy.policy = mpolInterleave ∨ t.policy.policy = mpolWeightedInterleave then
        some (numberText t.policy.nodes)
      else none)
    (hphyscpubind : fields.lookup "physcpubind: ".toList =
      if HasCase t.policy.policy then some (numberText (sys.cpus.filter (· < size))) else none)
    (hcpubind : fields.lookup "cpubind: ".toList = some (numberText
      (numaGetRunNodeMaskV2 k (sys.getaffinity (numaBitmaskNbytes g.numaAllocateCpumask * 8)) t).1.bits))
    (hnodebind : fields.lookup "nodebind: ".toList = some (numberText
      (numaGetRunNodeMaskV2 k (sys.getaffinity (numaBitmaskNbytes g.numaAllocateCpumask * 8)) t).1.bits))
    (hmembind : fields.lookup "membind: ".toList =
      some (numberText (if t.policy.policy = mpolBind then t.policy.nodes else g.numaAllNodesPtr.bits)))
    (hpreferred : fields.lookup "preferred: ".toList = some (numberText t.policy.nodes)) :
    sys.Shown k t size (text '\n' (fields.map fun f => f.1 ++ f.2)) where
  policy := (field_of_isLine hfields (by decide)).trans hpolicy
  interleavemask := (field_of_isLine hfields (by decide)).trans hinterleavemask
  physcpubind := (field_of_isLine hfields (by decide)).trans hphyscpubind
  cpubind := by
    rw [field_of_isLine hfields (by decide), field_of_isLine hfields (by decide), hcpubind, hnodebind]
  nodebind := (field_of_isLine hfields (by decide)).trans hnodebind
  membind := (field_of_isLine hfields (by decide)).trans hmembind
  preferred := (field_of_isLine hfields (by decide)).trans hpreferred

/-- The four lines at the end. -/
def lastFields (cpubind membind preferred : Finset Nat) : List (List Char × List Char) :=
  [("cpubind: ".toList, numberText cpubind), ("nodebind: ".toList, numberText cpubind),
    ("membind: ".toList, numberText membind), ("preferred: ".toList, numberText preferred)]

theorem isLine_lastFields (cpubind membind preferred : Finset Nat) :
    ∀ f ∈ lastFields cpubind membind preferred, IsLine f := by
  have hline {label : List Char} (hlabel : label ∈ labels) (S : Finset Nat) : IsLine (label, numberText S) :=
    isLine hlabel (newline_notMem_numberText S)
  simp only [lastFields, List.forall_mem_cons]
  exact ⟨hline (by decide) _, hline (by decide) _, hline (by decide) _, hline (by decide) _,
    fun f hf => absurd hf List.not_mem_nil⟩

/-- The lines of a policy the switch has a case for. -/
def caseFields (policy value cpus : List Char) (middle last : List (List Char × List Char)) :
    List (List Char × List Char) :=
  ("policy: ".toList, policy) :: ("preferred node: ".toList, value) ::
    (middle ++ ("physcpubind: ".toList, cpus) :: last)

/-- The lines of any other policy. -/
def openFields (policy cpus : List Char) (last : List (List Char × List Char)) : List (List Char × List Char) :=
  ("policy: ".toList, policy) :: ("preferred node: ".toList, "physcpubind: ".toList ++ cpus) :: last

theorem text_caseFields (policy value cpus : List Char) (middle last : List (List Char × List Char)) :
    "policy: ".toList ++ policy ++ ['\n'] ++
      ("preferred node: ".toList ++ (value ++ ['\n']) ++ text '\n' (middle.map fun f => f.1 ++ f.2)) ++
      ("physcpubind: ".toList ++ cpus ++ ['\n']) ++ text '\n' (last.map fun f => f.1 ++ f.2) =
    text '\n' ((caseFields policy value cpus middle last).map fun f => f.1 ++ f.2) := by
  simp [caseFields, text]

theorem text_openFields (policy cpus : List Char) (last : List (List Char × List Char)) :
    "policy: ".toList ++ policy ++ ['\n'] ++ ("preferred node: ".toList ++ [] ++ []) ++
      ("physcpubind: ".toList ++ cpus ++ ['\n']) ++ text '\n' (last.map fun f => f.1 ++ f.2) =
    text '\n' ((openFields policy cpus last).map fun f => f.1 ++ f.2) := by
  simp [openFields, text]

/-- What is printed, by the masks of the getters. -/
theorem printShow_eq (havailable : k.available = true) (hfits : k.nrNodeIds ≤ g.nodemaskSz) (hnodes : NodesExist k t) :
    ∃ preferred interleave weightedInterleave membind : Bitmask, preferred.bits = t.policy.nodes ∧
      interleave.bits = (if t.policy.policy = mpolInterleave then t.policy.nodes else ∅) ∧
      weightedInterleave.bits = (if t.policy.policy = mpolWeightedInterleave then t.policy.nodes else ∅) ∧
      membind.bits = (if t.policy.policy = mpolBind then t.policy.nodes else g.numaAllNodesPtr.bits) ∧
      sys.printShow k t = do
        let lines ← sys.interleaveLines (g := g) t.policy.policy interleave weightedInterleave
        let physcpubind ← sys.showPhyscpubind g
        return "policy: ".toList ++ policyName t.policy.policy ++ ['\n'] ++
          ("preferred node: ".toList ++ sys.preferredNode t.policy.policy preferred membind ++ lines) ++ physcpubind ++
          text '\n' ((lastFields
            (numaGetRunNodeMaskV2 k (sys.getaffinity (numaBitmaskNbytes g.numaAllocateCpumask * 8)) t).1.bits
            membind.bits preferred.bits).map fun f => f.1 ++ f.2) := by
  have hrun := policy_numaGetRunNodeMaskV2 (k := k)
    (sys.getaffinity (numaBitmaskNbytes g.numaAllocateCpumask * 8)) t
  generalize hcpubind : numaGetRunNodeMaskV2 k (sys.getaffinity (numaBitmaskNbytes g.numaAllocateCpumask * 8)) t = r
    at hrun
  obtain ⟨cpubind, t1⟩ := r
  dsimp only at hrun
  have hnodes1 : NodesExist k t1 := by
    unfold NodesExist
    rw [hrun]
    exact hnodes
  have hpreferred := policy_numaPreferredMany (t := t1) hfits
  have hbits := bits_numaPreferredMany hfits hnodes1
  generalize hmany : numaPreferredMany k t1 = r at hpreferred hbits
  obtain ⟨preferred, t2⟩ := r
  dsimp only at hpreferred hbits
  have hpolicy : t2.policy = t.policy := hpreferred.trans hrun
  have hnodes2 : NodesExist k t2 := by
    unfold NodesExist
    rw [hpolicy]
    exact hnodes
  refine ⟨preferred, (numaGetInterleaveMaskV2 k t2).1, (numaGetWeightedInterleaveMask k t2).1,
    (numaGetMembindV2 k t2).1, by rw [hbits, hrun], ?_, ?_, ?_, ?_⟩
  · rw [← hpolicy]
    exact bits_nodesUnder hfits hnodes2 mpolInterleave
  · rw [← hpolicy]
    exact bits_nodesUnder hfits hnodes2 mpolWeightedInterleave
  · rw [bits_numaGetMembindV2 hfits, hpolicy]
    split
    · exact Finset.filter_true_of_mem fun i hi => (hnodes i hi).trans_le hfits
    · rfl
  · have hinterleave : (numaGetInterleaveMaskV2 k t2).2 = t2 := task_nodesUnder hfits _ t2
    have hweighted : (numaGetWeightedInterleaveMask k t2).2 = t2 := task_nodesUnder hfits _ t2
    unfold printShow
    simp only [numaAvailable, havailable, Bool.not_true, Bool.false_eq_true, if_false, hcpubind, hmany, hinterleave,
      hweighted, task_numaGetMembindV2 hfits, hpolicy]
    simp [printmask_eq, lastFields, text]

theorem isSome_mapM_iff {α β : Type} {f : α → Option β} {l : List α} :
    (l.mapM f).isSome = true ↔ ∀ a ∈ l, (f a).isSome = true := by
  induction l with
  | nil => exact iff_of_true rfl fun a ha => absurd ha List.not_mem_nil
  | cons a l ih =>
      rw [List.mapM_cons, List.forall_mem_cons, ← ih]
      cases f a with
      | none => exact iff_of_false Bool.false_ne_true fun h => Bool.false_ne_true h.1
      | some b =>
          cases l.mapM f with
          | none => exact iff_of_false Bool.false_ne_true fun h => Bool.false_ne_true h.2
          | some bs => exact iff_of_true rfl ⟨rfl, rfl⟩

/-- With the weights of the nodes of a weighted interleaving, and with any other policy, the program gets to its end. -/
theorem isSome_printShow_iff (havailable : k.available = true) (hfits : k.nrNodeIds ≤ g.nodemaskSz)
    (hnodes : NodesExist k t) (hpos : 0 < g.numConfiguredCpus) (hfew : sys.affinity.nrCpuIds ≤ 1024 * 1024) :
    (sys.printShow k t).isSome = true ↔ (t.policy.policy = mpolWeightedInterleave →
      ∀ i ∈ t.policy.nodes, i ≤ g.maxconfigurednode → (sys.weight i).isSome = true) := by
  obtain ⟨j, -, -, hphyscpubind⟩ := sys.showPhyscpubind_eq hpos hfew
  obtain ⟨preferred, interleave, weightedInterleave, membind, -, -, hweighted, -, hprint⟩ :=
    sys.printShow_eq havailable hfits hnodes
  rw [hprint, hphyscpubind]
  have hlines : (sys.interleaveLines (g := g) t.policy.policy interleave weightedInterleave).isSome = true ↔
      (t.policy.policy = mpolWeightedInterleave →
        ∀ i ∈ t.policy.nodes, i ≤ g.maxconfigurednode → (sys.weight i).isSome = true) := by
    unfold interleaveLines
    dsimp only
    by_cases hi : t.policy.policy = mpolInterleave
    · rw [if_pos hi]
      refine iff_of_true rfl fun hw => ?_
      rw [hi] at hw
      exact absurd hw (by decide)
    · rw [if_neg hi]
      by_cases hw : t.policy.policy = mpolWeightedInterleave
      · rw [if_pos hw] at hweighted ⊢
        have hweights : ((List.range (g.maxconfigurednode + 1)).mapM (sys.weightText weightedInterleave)).isSome = true ↔
            ∀ i ∈ t.policy.nodes, i ≤ g.maxconfigurednode → (sys.weight i).isSome = true := by
          rw [isSome_mapM_iff]
          refine ⟨fun hall i hi hle => ?_, fun hall i hi => ?_⟩
          · have hword := hall i (List.mem_range.mpr (Nat.lt_succ_of_le hle))
            rw [weightText, if_pos ((numaBitmaskIsbitset_eq_true _ _).mpr (hweighted ▸ hi))] at hword
            cases hfile : sys.weight i with
            | none =>
                rw [hfile] at hword
                exact hword
            | some weight => rfl
          · unfold weightText
            split
            · next hset =>
              have hmem := (numaBitmaskIsbitset_eq_true _ _).mp hset
              rw [hweighted] at hmem
              obtain ⟨weight, hfile⟩ :=
                Option.isSome_iff_exists.mp (hall i hmem (Nat.le_of_lt_succ (List.mem_range.mp hi)))
              rw [hfile]
              rfl
            · rfl
        rw [showWeightedInterleaveWeights, ← hweights]
        cases (List.range (g.maxconfigurednode + 1)).mapM (sys.weightText weightedInterleave) with
        | none => exact iff_of_false Bool.false_ne_true fun h => Bool.false_ne_true (h hw)
        | some words => exact iff_of_true rfl fun _ => rfl
      · rw [if_neg hw]
        exact iff_of_true rfl fun h => absurd h hw
  rw [← hlines]
  cases sys.interleaveLines (g := g) t.policy.policy interleave weightedInterleave with
  | none => exact Iff.rfl
  | some lines => exact Iff.rfl

/-- The program shows the policy of the task. With a policy the switch has no case for, the line of the CPUs is the rest
of another line. -/
theorem shown_of_printShow (havailable : k.available = true) (hfits : k.nrNodeIds ≤ g.nodemaskSz)
    (hnodes : NodesExist k t) (hpos : 0 < g.numConfiguredCpus) (hfew : sys.affinity.nrCpuIds ≤ 1024 * 1024)
    {out : List Char} (h : sys.printShow k t = some out) :
    ∃ j, Doubling.StopsAt sys.Refuses (1024 * 1024) g.numConfiguredCpus j ∧
      sys.Refuses (2 ^ j * g.numConfiguredCpus) = false ∧ sys.Shown k t (2 ^ j * g.numConfiguredCpus) out := by
  obtain ⟨j, hstops, henough, hphyscpubind⟩ := sys.showPhyscpubind_eq hpos hfew
  refine ⟨j, hstops, henough, ?_⟩
  generalize 2 ^ j * g.numConfiguredCpus = size at hphyscpubind ⊢
  obtain ⟨preferred, interleave, weightedInterleave, membind, hpreferred, hinterleave, hweighted, hmembind, hprint⟩ :=
    sys.printShow_eq havailable hfits hnodes
  rw [hprint, hphyscpubind] at h
  simp only [Option.bind_eq_bind, Option.bind_eq_some_iff, Option.bind_some, Option.pure_def, Option.some.injEq] at h
  obtain ⟨lines, hlines, rfl⟩ := h
  obtain ⟨middle, hmiddle, rfl, hcases⟩ := sys.interleaveLines_cases hlines
  rw [hmembind, hpreferred]
  generalize hlast : lastFields
    (numaGetRunNodeMaskV2 k (sys.getaffinity (numaBitmaskNbytes g.numaAllocateCpumask * 8)) t).1.bits
    (if t.policy.policy = mpolBind then t.policy.nodes else g.numaAllNodesPtr.bits) t.policy.nodes = last
  have hlastLines : ∀ f ∈ last, IsLine f := hlast ▸ isLine_lastFields _ _ _
  have hfirst : IsLine ("policy: ".toList, policyName t.policy.policy) :=
    isLine (by decide) (newline_notMem_policyName _)
  have hcpus : '\n' ∉ numberText (sys.cpus.filter (· < size)) := newline_notMem_numberText _
  by_cases hcase : HasCase t.policy.policy
  · obtain ⟨value, hvalue, hvalueText⟩ := sys.preferredNode_of_hasCase hcase preferred membind
    have hfields : ∀ f ∈ caseFields (policyName t.policy.policy) value (numberText (sys.cpus.filter (· < size)))
        middle last, IsLine f := by
      rw [caseFields, List.forall_mem_cons, List.forall_mem_cons, List.forall_mem_append, List.forall_mem_cons]
      exact ⟨hfirst, isLine (by decide) hvalue, hmiddle, isLine (by decide) hcpus, hlastLines⟩
    rw [hvalueText, text_caseFields]
    rcases hcases with ⟨hni, hnw, rfl⟩ | ⟨node, hpolicy, rfl⟩ | ⟨weights, node, hpolicy, rfl⟩
    · subst hlast
      apply sys.shown_of_lookups hfields rfl (if_neg (not_or.mpr ⟨hni, hnw⟩)).symm (if_pos hcase).symm
      all_goals rfl
    · rw [if_pos hpolicy] at hinterleave
      rw [hinterleave] at hfields ⊢
      subst hlast
      apply sys.shown_of_lookups hfields rfl (if_pos (Or.inl hpolicy)).symm (if_pos hcase).symm
      all_goals rfl
    · rw [if_pos hpolicy] at hweighted
      rw [hweighted] at hfields ⊢
      subst hlast
      apply sys.shown_of_lookups hfields rfl (if_pos (Or.inr hpolicy)).symm (if_pos hcase).symm
      all_goals rfl
  · have hne {policy : Nat} (hmem : HasCase policy) : t.policy.policy ≠ policy := fun h => hcase (h ▸ hmem)
    have hni : t.policy.policy ≠ mpolInterleave := hne (by decide)
    have hnw : t.policy.policy ≠ mpolWeightedInterleave := hne (by decide)
    obtain ⟨-, -, rfl⟩ : t.policy.policy ≠ mpolInterleave ∧ t.policy.policy ≠ mpolWeightedInterleave ∧ middle = [] := by
      rcases hcases with h | ⟨-, h, -⟩ | ⟨-, -, h, -⟩
      · exact h
      · exact absurd h hni
      · exact absurd h hnw
    have hfields : ∀ f ∈ openFields (policyName t.policy.policy) (numberText (sys.cpus.filter (· < size))) last,
        IsLine f := by
      rw [openFields, List.forall_mem_cons, List.forall_mem_cons]
      refine ⟨hfirst, isLine (by decide) ?_, hlastLines⟩
      rw [List.mem_append, not_or]
      exact ⟨by decide, hcpus⟩
    rw [sys.preferredNode_of_not_hasCase hcase]
    subst hlast
    apply (congrArg (sys.Shown k t size) (text_openFields _ _ _)).mpr
    apply sys.shown_of_lookups hfields rfl (if_neg (not_or.mpr ⟨hni, hnw⟩)).symm (if_neg hcase).symm
    all_goals rfl

end ShowSystem

end Numactl
