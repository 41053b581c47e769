import Mathlib.Data.Finset.Sort
import Numactl.Base.SelectionSort
import Numactl.Distance
import Numactl.MapsLines
import Numactl.Pids

/-! `main` of `numastat`: the nodes it finds, the processes it is asked about and the tables it shows. Usage texts and
the width of the screen are not modelled. -/

namespace Numactl

open CString

namespace Numastat

/-! ### The nodes -/

/-- `node_and_digits`, the filter of `scandir`. -/
def nodeAndDigits (name : List Char) : Bool :=
  name.take 4 = "node".toList && !(name.drop 4).isEmpty && (name.drop 4).all isdigit

/-- The array of the numbers of the nodes, sorted in place. `none` is a failure to open the directory. -/
def initNodeIxMap (names : Option (List (List Char))) : Option (List Int) :=
  let namelist := (names.getD []).filter nodeAndDigits
  let numNodes := namelist.length
  if numNodes < 1 then none
  else
    let nodeIxMap := fun ix => (namelist.map fun name => atoi (name.drop 4)).getD ix 0
    some ((List.range numNodes).map (SelectionSort.sort OrderDual.toDual nodeIxMap 0 (numNodes - 1)))

/-- The headers of the columns. -/
def nodeLabels (compatibilityMode : Bool) (nodeIxMap : List Int) : List (List Char) :=
  nodeIxMap.map (fun n => (if compatibilityMode then "node" else "Node ").toList ++ printInt n) ++ ["Total".toList]

def initNodeIxMapAndHeader (compatibilityMode : Bool) (names : Option (List (List Char))) :
    Option (List Int × List (List Char)) :=
  (initNodeIxMap names).map fun nodeIxMap => (nodeIxMap, nodeLabels compatibilityMode nodeIxMap)

/-- A directory as the kernel makes it: besides other names, one for each node, with its number printed. -/
structure KernelNodeDirs (names : List (List Char)) (S : Finset Nat) : Prop where
  nodup : names.Nodup
  dir : ∀ n ∈ S, "node".toList ++ decimal n ∈ names
  only : ∀ name ∈ names, name.take 4 = "node".toList → ∃ n ∈ S, name = "node".toList ++ decimal n

namespace KernelNodeDirs

variable {names : List (List Char)} {S : Finset Nat}

theorem nodeDirs (h : KernelNodeDirs names S) (hS : ∀ n ∈ S, n < 2 ^ 31) : NodeDirs names S where
  dir n hn := ⟨decimal n, NumberList.numeral_decimal (by have := hS n hn; omega), h.dir n hn⟩
  only name hname hnode := by
    obtain ⟨n, hn, rfl⟩ := h.only name hname hnode
    exact ⟨n, hn, decimal n, NumberList.numeral_decimal (by have := hS n hn; omega), rfl⟩

end KernelNodeDirs

theorem atoi_decimal {n : Nat} (hn : n < 2 ^ 31) : atoi (decimal n) = n := by
  calc atoi (decimal n) = intOfLong (strtol 10 (decimal n)).1 := rfl
    _ = intOfLong n := by rw [strtol_printed (hn.trans (by decide))]
    _ = n := intOfLong_of_lt hn

theorem nodeAndDigits_dir (n : Nat) : nodeAndDigits ("node".toList ++ decimal n) = true := by
  have htake : ("node".toList ++ decimal n).take 4 = "node".toList := List.take_left' rfl
  have hdrop : ("node".toList ++ decimal n).drop 4 = decimal n := List.drop_left' rfl
  have hall : (decimal n).all isdigit = true := List.all_eq_true.mpr fun _ hc => isdigit_of_mem_decimal hc
  rw [nodeAndDigits, htake, hdrop, hall, List.isEmpty_eq_false_iff.mpr (decimal_ne_nil n)]
  rfl

theorem map_range_getD (l : List Int) : (List.range l.length).map (fun ix => l.getD ix 0) = l := by
  apply List.ext_getElem
  · rw [List.length_map, List.length_range]
  · intro i hi hi'
    rw [List.getElem_map, List.getElem_range, List.getD_eq_getElem _ _ hi']

/-- The numbers are the ones found, in ascending order. -/
theorem initNodeIxMap_sorted {names : List (List Char)} (hfound : names.filter nodeAndDigits ≠ []) :
    ∃ nodeIxMap, initNodeIxMap (some names) = some nodeIxMap ∧
      nodeIxMap.Perm ((names.filter nodeAndDigits).map fun name => atoi (name.drop 4)) ∧
      nodeIxMap.Pairwise (· ≤ ·) := by
  unfold initNodeIxMap
  dsimp only [Option.getD_some]
  have hpos := List.length_pos_of_ne_nil hfound
  rw [if_neg (by omega)]
  refine ⟨_, rfl, ?_, ?_⟩
  · generalize hnumbers : ((names.filter nodeAndDigits).map fun name => atoi (name.drop 4)) = numbers
    have hlength : (names.filter nodeAndDigits).length = numbers.length := by rw [← hnumbers, List.length_map]
    have hwindow (m : Nat → Int) :
        SelectionSort.window m 0 (numbers.length - 1) = (List.range numbers.length).map m := by
      rw [SelectionSort.window, List.range_eq_range', show numbers.length - 1 + 1 - 0 = numbers.length by omega]
    rw [hlength, ← hwindow]
    have hall : SelectionSort.window (fun ix => numbers.getD ix 0) 0 (numbers.length - 1) = numbers := by
      rw [hwindow, map_range_getD]
    exact SelectionSort.window_sort.trans (List.Perm.of_eq hall)
  · generalize (fun ix => ((names.filter nodeAndDigits).map fun name => atoi (name.drop 4)).getD ix 0) = m
    have hdescending (stop : Nat) : SelectionSort.Descending (OrderDual.toDual : Int → Intᵒᵈ)
        (SelectionSort.sort OrderDual.toDual m 0 stop) 0 stop := SelectionSort.descending_sort
    rw [List.pairwise_map]
    apply List.Pairwise.imp_of_mem _ List.pairwise_lt_range
    intro i j _ hj hij
    have hlast : j ≤ (names.filter nodeAndDigits).length - 1 := Nat.le_sub_one_of_lt (List.mem_range.mp hj)
    exact hdescending _ i j (Nat.zero_le i) (Nat.le_of_lt hij) hlast

/-- The numbers of all nodes in ascending order, whatever order the directory is read in. -/
theorem initNodeIxMap_of_dirs {names : List (List Char)} {S : Finset Nat} (h : KernelNodeDirs names S)
    (hS : ∀ n ∈ S, n < 2 ^ 31) (hne : S.Nonempty) :
    initNodeIxMap (some names) = some ((S.sort (· ≤ ·)).map Int.ofNat) := by
  have hmem (name : List Char) : name ∈ names.filter nodeAndDigits ↔ ∃ n ∈ S, name = "node".toList ++ decimal n := by
    rw [List.mem_filter]
    constructor
    · rintro ⟨hname, hnode⟩
      rw [nodeAndDigits, Bool.and_eq_true, Bool.and_eq_true, decide_eq_true_eq] at hnode
      exact h.only name hname hnode.1.1
    · rintro ⟨n, hn, rfl⟩
      exact ⟨h.dir n hn, nodeAndDigits_dir n⟩
  have hnumber {n : Nat} (hn : n ∈ S) : atoi (("node".toList ++ decimal n).drop 4) = n := by
    rw [show ("node".toList ++ decimal n).drop 4 = decimal n from List.drop_left' rfl]
    exact atoi_decimal (hS n hn)
  obtain ⟨n, hn⟩ := hne
  have hfound : names.filter nodeAndDigits ≠ [] := List.ne_nil_of_mem ((hmem _).mpr ⟨n, hn, rfl⟩)
  obtain ⟨nodeIxMap, hinit, hperm, hsorted⟩ := initNodeIxMap_sorted hfound
  rw [hinit, Option.some_inj]
  have hall : nodeIxMap.Perm ((S.sort (· ≤ ·)).map Int.ofNat) := by
    apply hperm.trans
    rw [List.perm_ext_iff_of_nodup]
    · intro value
      rw [List.mem_map, List.mem_map]
      constructor
      · rintro ⟨name, hname, rfl⟩
        obtain ⟨m, hm, rfl⟩ := (hmem name).mp hname
        exact ⟨m, (Finset.mem_sort _).mpr hm, (hnumber hm).symm⟩
      · rintro ⟨m, hm, rfl⟩
        have hm' := (Finset.mem_sort _).mp hm
        exact ⟨_, (hmem _).mpr ⟨m, hm', rfl⟩, hnumber hm'⟩
    · apply List.Nodup.map_on _ (h.nodup.filter _)
      intro name hname name' hname' heq
      obtain ⟨m, hm, rfl⟩ := (hmem name).mp hname
      obtain ⟨m', hm', rfl⟩ := (hmem name').mp hname'
      rw [hnumber hm, hnumber hm'] at heq
      rw [Int.ofNat.inj heq]
    · exact (S.sort_nodup _).map fun _ _ => Int.ofNat.inj
  apply hall.eq_of_pairwise _ hsorted
  · rw [List.pairwise_map]
    exact (S.pairwise_sort _).imp Int.ofNat_le.mpr
  · intro a b _ _ hab hba
    exact Int.le_antisymm hab hba

theorem nodeLabels_ofNat (compatibilityMode : Bool) (nodes : List Nat) :
    nodeLabels compatibilityMode (nodes.map Int.ofNat) =
      nodes.map (fun n => (if compatibilityMode then "node" else "Node ").toList ++ decimal n) ++ ["Total".toList] := by
  rw [nodeLabels, List.map_map]
  congr 1

/-- The columns of `numastat` are the configured nodes of the library, in ascending order and under their numbers,
whatever order the directory is read in. -/
theorem initNodeIxMapAndHeader_eq {names : List (List Char)} {S : Finset Nat} (h : KernelNodeDirs names S)
    (hS : ∀ n ∈ S, n < 2 ^ 31) (hne : S.Nonempty) (compatibilityMode : Bool) :
    initNodeIxMapAndHeader compatibilityMode (some names) = some ((S.sort (· ≤ ·)).map Int.ofNat,
        (S.sort (· ≤ ·)).map (fun n => (if compatibilityMode then "node" else "Node ").toList ++ decimal n) ++
          ["Total".toList]) ∧
      ∀ nodemaskSz, (∀ n ∈ S, n < nodemaskSz) → (setConfiguredNodes nodemaskSz (some names)).numaNodesPtr.bits = S := by
  refine ⟨?_, fun nodemaskSz hsz => (h.nodeDirs hS).bits_setConfiguredNodes hsz⟩
  rw [initNodeIxMapAndHeader, initNodeIxMap_of_dirs h hS hne, Option.map_some, nodeLabels_ofNat]

theorem kernelNodeDirs_gapped : KernelNodeDirs gappedNames gappedNodes where
  nodup := by decide
  dir := by
    intro n hn
    obtain rfl | rfl | rfl : n = 1 ∨ n = 2 ∨ n = 5 := by simpa [gappedNodes] using hn
    all_goals decide
  only := by
    intro name hname htake
    obtain rfl | rfl | rfl | rfl : name = "node5".toList ∨ name = "online".toList ∨ name = "node1".toList ∨
        name = "node2".toList := by
      simpa only [gappedNames, List.mem_cons, List.not_mem_nil, or_false] using hname
    · exact ⟨5, by decide, rfl⟩
    · exact absurd htake (by decide)
    · exact ⟨1, by decide, rfl⟩
    · exact ⟨2, by decide, rfl⟩

theorem initNodeIxMapAndHeader_gapped :
    (∀ n ∈ gappedNodes, n < 2 ^ 31) ∧ gappedNodes.Nonempty ∧
      initNodeIxMapAndHeader false (some gappedNames) = some ((gappedNodes.sort (· ≤ ·)).map Int.ofNat,
        (gappedNodes.sort (· ≤ ·)).map (fun n => (if false then "node" else "Node ").toList ++ decimal n) ++
          ["Total".toList]) :=
  have hlt : ∀ n ∈ gappedNodes, n < 2 ^ 31 := by decide
  have hne : gappedNodes.Nonempty := by decide
  ⟨hlt, hne, (initNodeIxMapAndHeader_eq kernelNodeDirs_gapped hlt hne false).1⟩

/-! ### The program -/

/-- An option as `getopt_long` returns it. `s` may come without an argument, and everything that is not an option of the
program asks for its usage. -/
inductive MainOption where
  | c
  | m
  | n
  | p (optarg : List Char)
  | s (optarg : Option (List Char))
  | v
  | V
  | z
  | usage

/-- What ends the program before it shows anything: the usage or the version, a file of the system that cannot be
opened, or a number written outside the array of the processes. -/
inductive MainStop where
  | usage
  | version
  | noNodes
  | noMeminfo
  | outside
  deriving DecidableEq

/-- The variables of `main`. -/
structure MainState where
  compressDisplay : Bool
  showTheSystemInfo : Bool
  showTheNumastatInfo : Bool
  sortTable : Bool
  sortTableNode : Int
  verbose : Bool
  showZeroData : Bool
  pidArray : PidArray

def MainState.initial : MainState where
  compressDisplay := false
  showTheSystemInfo := false
  showTheNumastatInfo := false
  sortTable := false
  sortTableNode := -1
  verbose := false
  showZeroData := true
  pidArray := PidArray.empty

/-- The functions that show a table, as they are called while none of them ends the program. -/
inductive Shown where
  | compatible
  | processInfo (pids : List Int)
  | systemInfo
  | numastatInfo
  deriving DecidableEq

section

variable (proc : ProcFs) (realloc : Nat → Bool)

def MainState.add (s : MainState) (arg : List Char) : Except MainStop MainState :=
  match proc.addSpecified realloc s.pidArray arg with
  | some pidArray => .ok { s with pidArray := pidArray }
  | none => .error .outside

def MainState.step (st : MainState) : MainOption → Except MainStop MainState
  | .c => .ok { st with compressDisplay := true }
  | .m => .ok { st with showTheSystemInfo := true }
  | .n => .ok { st with showTheNumastatInfo := true }
  | .p optarg => st.add proc realloc optarg
  | .s optarg =>
      .ok { st with
        sortTable := true
        sortTableNode := match optarg with
          | some arg => if allDigits arg then atoi arg else st.sortTableNode
          | none => st.sortTableNode }
  | .v => .ok { st with verbose := true }
  | .V => .error .version
  | .z => .ok { st with showZeroData := false }
  | .usage => .error .usage

/-- What is shown with the variables as they are set. -/
def MainState.shown (st : MainState) : List Shown :=
  (if 0 < st.pidArray.pids.length then [.processInfo (sortPidsAndRemoveDuplicates st.pidArray.pids)] else []) ++
    (if st.showTheSystemInfo then [.systemInfo] else []) ++
      if st.showTheNumastatInfo || st.pidArray.pids.length == 0 && !st.showTheSystemInfo then [.numastatInfo] else []

/-- `main`, from the number of its arguments, the options, the arguments behind them, the names in the directory of the
nodes and whether `/proc/meminfo` opens. -/
def main (argc : Nat) (opts : List MainOption) (args : List (List Char)) (names : Option (List (List Char)))
    (meminfo : Bool) : Except MainStop (MainState × List Shown) := do
  let st ← opts.foldlM (MainState.step proc realloc) MainState.initial
  let st ← args.foldlM (MainState.add proc realloc) st
  if (initNodeIxMapAndHeader (argc = 1) names).isNone then throw .noNodes
  if argc = 1 then return (st, [.compatible])
  if !meminfo then throw .noMeminfo
  return (st, st.shown)

end

/-! ### What it shows -/

namespace MainOption

/-- The program goes on behind the option. -/
def goesOn : MainOption → Bool
  | V => false
  | usage => false
  | _ => true

def isC : MainOption → Bool
  | c => true
  | _ => false

def isM : MainOption → Bool
  | m => true
  | _ => false

def isN : MainOption → Bool
  | n => true
  | _ => false

def isS : MainOption → Bool
  | s _ => true
  | _ => false

def isV : MainOption → Bool
  | v => true
  | _ => false

def isZ : MainOption → Bool
  | z => true
  | _ => false

/-- The processes asked for. -/
def process : MainOption → Option (List Char)
  | p optarg => some optarg
  | _ => none

/-- The node to sort by. -/
def sortNode : MainOption → Option Int
  | s (some optarg) => if allDigits optarg then some (atoi optarg) else none
  | _ => none

end MainOption

/-- The variables after the options, and after the arguments that name processes. -/
structure MainState.Read (proc : ProcFs) (realloc : Nat → Bool) (opts : List MainOption) (specs : List (List Char))
    (st : MainState) : Prop where
  compressDisplay : st.compressDisplay = opts.any MainOption.isC
  showTheSystemInfo : st.showTheSystemInfo = opts.any MainOption.isM
  showTheNumastatInfo : st.showTheNumastatInfo = opts.any MainOption.isN
  sortTable : st.sortTable = opts.any MainOption.isS
  sortTableNode : st.sortTableNode = ((opts.filterMap MainOption.sortNode).getLast?).getD (-1)
  verbose : st.verbose = opts.any MainOption.isV
  showZeroData : st.showZeroData = !opts.any MainOption.isZ
  pidArray : PidArray.empty.addAll realloc (specs.flatMap proc.specified) = some st.pidArray

namespace MainState

variable {proc : ProcFs} {realloc : Nat → Bool}

theorem read_initial : MainState.initial.Read proc realloc [] [] where
  compressDisplay := rfl
  showTheSystemInfo := rfl
  showTheNumastatInfo := rfl
  sortTable := rfl
  sortTableNode := rfl
  verbose := rfl
  showZeroData := rfl
  pidArray := rfl

/-- With memory for the numbers, an argument adds the processes it stands for. -/
theorem Read.add (hmemory : ∀ i, realloc i = true) {opts : List MainOption} {specs : List (List Char)} {st : MainState}
    (h : st.Read proc realloc opts specs) (arg : List Char) :
    ∃ pidArray, st.add proc realloc arg = .ok { st with pidArray := pidArray } ∧
      PidArray.empty.addAll realloc ((specs ++ [arg]).flatMap proc.specified) = some pidArray := by
  obtain ⟨pidArray, hall, -⟩ := addAll_empty hmemory ((specs ++ [arg]).flatMap proc.specified)
  have hadd : proc.addSpecified realloc st.pidArray arg = some pidArray := by
    rw [List.flatMap_append, List.flatMap_singleton, PidArray.addAll, List.foldlM_append, ← PidArray.addAll, h.pidArray]
      at hall
    rw [ProcFs.addSpecified_eq]
    exact hall
  refine ⟨pidArray, ?_, hall⟩
  rw [MainState.add, hadd]

/-- What an option does to the variables, against the options up to it. -/
theorem Read.concat {opts : List MainOption} {st st' : MainState} {opt : MainOption}
    (h : st.Read proc realloc opts (opts.filterMap MainOption.process))
    (hpids : PidArray.empty.addAll realloc
      ((opts.filterMap MainOption.process ++ opt.process.toList).flatMap proc.specified) = some st'.pidArray)
    (hfields : st'.compressDisplay = (st.compressDisplay || opt.isC) ∧
      st'.showTheSystemInfo = (st.showTheSystemInfo || opt.isM) ∧
      st'.showTheNumastatInfo = (st.showTheNumastatInfo || opt.isN) ∧ st'.sortTable = (st.sortTable || opt.isS) ∧
      st'.sortTableNode = opt.sortNode.getD st.sortTableNode ∧ st'.verbose = (st.verbose || opt.isV) ∧
      st'.showZeroData = (st.showZeroData && !opt.isZ)) :
    st'.Read proc realloc (opts ++ [opt]) ((opts ++ [opt]).filterMap MainOption.process) := by
  have hany (f : MainOption → Bool) : (opts ++ [opt]).any f = (opts.any f || f opt) := by
    rw [List.any_append, List.any_cons, List.any_nil, Bool.or_false]
  have hspecs : (opts ++ [opt]).filterMap MainOption.process =
      opts.filterMap MainOption.process ++ opt.process.toList := by
    rw [List.filterMap_append]
    cases hprocess : opt.process with
    | none => rw [List.filterMap_cons_none hprocess]; rfl
    | some arg => rw [List.filterMap_cons_some hprocess]; rfl
  have hsort : ((opts ++ [opt]).filterMap MainOption.sortNode).getLast? =
      opt.sortNode.or (opts.filterMap MainOption.sortNode).getLast? := by
    rw [List.filterMap_append]
    cases hnode : opt.sortNode with
    | none => rw [List.filterMap_cons_none hnode, List.filterMap_nil, List.append_nil]; rfl
    | some node => rw [List.filterMap_cons_some hnode, List.filterMap_nil, List.getLast?_concat]; rfl
  obtain ⟨hc, hm, hn, hs, hnode, hv, hz⟩ := hfields
  refine ⟨?_, ?_, ?_, ?_, ?_, ?_, ?_, by rw [hspecs]; exact hpids⟩
  · rw [hc, h.compressDisplay, hany]
  · rw [hm, h.showTheSystemInfo, hany]
  · rw [hn, h.showTheNumastatInfo, hany]
  · rw [hs, h.sortTable, hany]
  · rw [hnode, h.sortTableNode, hsort]
    cases opt.sortNode with
    | none => rfl
    | some node => rfl
  · rw [hv, h.verbose, hany]
  · rw [hz, h.showZeroData, hany, Bool.not_or]

theorem Read.step (hmemory : ∀ i, realloc i = true) {opts : List MainOption} {st : MainState}
    (h : st.Read proc realloc opts (opts.filterMap MainOption.process)) {opt : MainOption} (hgoes : opt.goesOn = true) :
    ∃ st', st.step proc realloc opt = .ok st' ∧
      st'.Read proc realloc (opts ++ [opt]) ((opts ++ [opt]).filterMap MainOption.process) := by
  have hkept : PidArray.empty.addAll realloc ((opts.filterMap MainOption.process ++ []).flatMap proc.specified) =
      some st.pidArray := by
    rw [List.append_nil]
    exact h.pidArray
  cases opt with
  | p optarg =>
      obtain ⟨pidArray, hadd, hall⟩ := h.add hmemory optarg
      exact ⟨_, hadd, h.concat hall (by simp [MainOption.isC, MainOption.isM, MainOption.isN, MainOption.isS,
        MainOption.sortNode, MainOption.isV, MainOption.isZ])⟩
  | s optarg =>
      refine ⟨_, rfl, h.concat hkept ?_⟩
      cases optarg with
      | none => simp [MainOption.isC, MainOption.isM, MainOption.isN, MainOption.isS, MainOption.sortNode,
          MainOption.isV, MainOption.isZ]
      | some arg =>
          simp only [MainOption.isC, MainOption.isM, MainOption.isN, MainOption.isS, MainOption.sortNode,
            MainOption.isV, MainOption.isZ]
          split <;> simp
  | V => cases hgoes
  | usage => cases hgoes
  | _ =>
      exact ⟨_, rfl, h.concat hkept (by simp [MainOption.isC, MainOption.isM, MainOption.isN, MainOption.isS,
        MainOption.sortNode, MainOption.isV, MainOption.isZ])⟩

theorem exists_read_options (hmemory : ∀ i, realloc i = true) {opts : List MainOption}
    (hgoes : ∀ opt ∈ opts, opt.goesOn = true) :
    ∃ st, opts.foldlM (MainState.step proc realloc) MainState.initial = .ok st ∧
      st.Read proc realloc opts (opts.filterMap MainOption.process) := by
  apply Runs.total_history_rule
    (I := fun (pre : List MainOption) (st : MainState) =>
      st.Read proc realloc pre (pre.filterMap MainOption.process)) read_initial
  intro pre opt post st hopts hst
  apply hst.step hmemory
  rw [hopts] at hgoes
  exact hgoes opt (List.mem_append_right pre List.mem_cons_self)

theorem Read.args (hmemory : ∀ i, realloc i = true) {opts : List MainOption} {specs : List (List Char)} {st : MainState}
    (h : st.Read proc realloc opts specs) (args : List (List Char)) :
    ∃ st', args.foldlM (MainState.add proc realloc) st = .ok st' ∧ st'.Read proc realloc opts (specs ++ args) := by
  apply Runs.total_history_rule
    (I := fun (pre : List (List Char)) (st : MainState) => st.Read proc realloc opts (specs ++ pre))
  · rw [List.append_nil]
    exact h
  · intro pre arg post st _ hst
    obtain ⟨pidArray, hadd, hall⟩ := hst.add hmemory arg
    refine ⟨_, hadd, ?_⟩
    rw [← List.append_assoc]
    exact { hst with pidArray := hall }

end MainState

/-- A run with options or arguments shows the tables its options name, in a fixed order: those of the processes first,
each process that is asked for by its number or by a pattern once and in ascending order, and the statistics of the
nodes also where nothing else is asked for. -/
theorem main_shows {proc : ProcFs} {realloc : Nat → Bool} {argc : Nat} {opts : List MainOption}
    {args : List (List Char)} {names : Option (List (List Char))} (hmemory : ∀ i, realloc i = true)
    (hgoes : ∀ opt ∈ opts, opt.goesOn = true) (hnodes : (initNodeIxMap names).isSome = true) (hargc : argc ≠ 1)
    (hnumbers : ∀ arg ∈ opts.filterMap MainOption.process ++ args, ∀ pid ∈ proc.specified arg, 0 ≤ pid) :
    ∃ st pids, main proc realloc argc opts args names true = .ok (st,
        (if pids = [] then [] else [.processInfo pids]) ++ (if opts.any MainOption.isM then [.systemInfo] else []) ++
          if opts.any MainOption.isN || pids.isEmpty && !opts.any MainOption.isM then [.numastatInfo] else []) ∧
      pids.Pairwise (· < ·) ∧
      (∀ pid, pid ∈ pids ↔ ∃ arg ∈ opts.filterMap MainOption.process ++ args, pid ∈ proc.specified arg) ∧
      st.Read proc realloc opts (opts.filterMap MainOption.process ++ args) := by
  obtain ⟨st, hopts, hread⟩ : ∃ st, opts.foldlM (MainState.step proc realloc) MainState.initial = .ok st ∧
      st.Read proc realloc opts (opts.filterMap MainOption.process) := MainState.exists_read_options hmemory hgoes
  obtain ⟨st, hargs, hread⟩ := hread.args hmemory args
  obtain ⟨pidArray, hall, hpids⟩ := addAll_empty hmemory
    ((opts.filterMap MainOption.process ++ args).flatMap proc.specified)
  obtain rfl : pidArray = st.pidArray := Option.some.inj (hall.symm.trans hread.pidArray)
  have hint : ∀ pid ∈ st.pidArray.pids, 0 ≤ pid ∧ pid < 2 ^ 31 := by
    intro pid hpid
    rw [hpids, List.mem_flatMap] at hpid
    obtain ⟨arg, harg, hpid⟩ := hpid
    exact ⟨hnumbers arg harg pid hpid, ProcFs.lt_of_mem_specified hpid⟩
  obtain ⟨hsorted, hmem⟩ := sortPids_spec hint
  have hempty : sortPidsAndRemoveDuplicates st.pidArray.pids = [] ↔ st.pidArray.pids = [] := by
    rw [List.eq_nil_iff_forall_not_mem, List.eq_nil_iff_forall_not_mem]
    exact forall_congr' fun pid => not_congr (hmem pid)
  refine ⟨st, sortPidsAndRemoveDuplicates st.pidArray.pids, ?_, hsorted, ?_, hread⟩
  · have hisNone : (initNodeIxMapAndHeader (argc = 1) names).isNone = false := by
      rw [initNodeIxMapAndHeader, Option.isNone_map, ← Option.not_isSome, hnodes]
      rfl
    rw [main, hopts, Runs.ok_bind, hargs, Runs.ok_bind, hisNone, if_neg hargc]
    simp only [Bool.not_true]
    simp only [MainState.shown, hread.showTheSystemInfo, hread.showTheNumastatInfo]
    apply congrArg fun shown => Except.ok (st, shown)
    cases hpid : st.pidArray.pids with
    | nil => rfl
    | cons pid rest =>
        have hnil : sortPidsAndRemoveDuplicates (pid :: rest) ≠ [] := by
          rw [hpid] at hempty
          exact fun h => List.cons_ne_nil _ _ (hempty.mp h)
        rw [if_neg hnil, List.isEmpty_eq_false_iff.mpr hnil]
        rfl
  · intro pid
    rw [hmem, hpids, List.mem_flatMap]

/-- Three processes, one of which is the program itself and one of which is gone when its name is read. -/
def shellProc : ProcFs where
  names := some ["71".toList, "self".toList, "9".toList, "12".toList]
  status pid := if pid = 12 then none else some "Name:\tsh\n".toList
  cmdline name := if name = "9".toList then some "numastat\x00sh\x00".toList else none
  getpid := 9

theorem main_shows_shell :
    ∃ st pids, main shellProc (fun _ => true) 5 [.p "71".toList, .m] ["sh".toList, "3".toList] (some gappedNames) true =
        .ok (st, (if pids = [] then [] else [.processInfo pids]) ++
          (if [MainOption.p "71".toList, .m].any MainOption.isM then [.systemInfo] else []) ++
          if [MainOption.p "71".toList, .m].any MainOption.isN || pids.isEmpty &&
            !([MainOption.p "71".toList, .m].any MainOption.isM) then [.numastatInfo] else []) ∧
      pids.Pairwise (· < ·) ∧
      (∀ pid, pid ∈ pids ↔ ∃ arg ∈ ["71".toList, "sh".toList, "3".toList], pid ∈ shellProc.specified arg) ∧
      st.Read shellProc (fun _ => true) [.p "71".toList, .m] ["71".toList, "sh".toList, "3".toList] :=
  main_shows (fun _ => rfl) (by decide) (by decide +kernel) (by decide) (by decide +kernel)

end Numastat
end Numactl
