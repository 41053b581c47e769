import Numactl.Affinity
import Numactl.Distance
import Numactl.Hardware
import Numactl.LibraryInit
import Numactl.NodeSize

/-! What `numactl --hardware` prints as a whole (`hardware` in `numactl.c`): the nodes, the CPUs and the memory of
each, and their distances. The report goes through the caches of the CPUs and of the distances, and yet is one of the
files alone. The highest node is not negative. -/

namespace Numactl

open CString (decimal printInt printInt_natCast)
open DistanceSystem (CacheHolds)
open NumberList (Numeral ReadsRow)
open Ranges (Range RangesOf)
open Runs (bind_eq_ok)

variable {g : Globals}

/-! ### The lines -/

/-- `% 4d`. -/
def padInt (n : Int) : List Char := (if n < 0 then printInt n else ' ' :: printInt n).leftpad 4 ' '

def fmtMem (mem : BitVec 64) : List Char :=
  if mem = -1 then "<not available>".toList else decimal (mem >>> 20).toNat ++ " MB".toList

def noDistances : List Char := "No distance information available.\n".toList

/-- The files of the nodes besides their cpumaps. -/
structure HardwareSystem where
  distances : DistanceSystem
  meminfo : Nat → Option (List Char)

namespace HardwareSystem

variable (sys : HardwareSystem)

def nodes : Bitmask := sys.distances.nodes.numaNodesPtr

/-- `numa_max_node`. -/
def maxnode : Nat := (numaMaxNode sys.distances.nodes).toNat

/-- One number of the row of `i`. -/
def distanceStep (i : Nat) (st : List Char × DistanceCache) (k : Nat) : Option (List Char × DistanceCache) :=
  if numaBitmaskIsbitset sys.nodes i && numaBitmaskIsbitset sys.nodes k then do
    let (distance, cache) ← sys.distances.numaDistance st.2 (BitVec.ofNat 32 i) (BitVec.ofNat 32 k)
    return (st.1 ++ (padInt distance.toInt ++ [' ']), cache)
  else some st

/-- The row of `i`. -/
def rowStep (st : List Char × DistanceCache) (i : Nat) : Option (List Char × DistanceCache) :=
  if numaBitmaskIsbitset sys.nodes i then do
    let (out, cache) ← (List.range (sys.maxnode + 1)).foldlM (sys.distanceStep i)
      (st.1 ++ (padInt i ++ ": ".toList), st.2)
    return (out ++ ['\n'], cache)
  else some st

/-- `print_distances`; `none` where a distance would be stored outside of the table. -/
def printDistances (cache : DistanceCache) : Option (List Char × DistanceCache) := do
  let fst := ((List.range (sys.maxnode + 1)).find? fun i => numaBitmaskIsbitset sys.nodes i).getD 0
  let (distance, cache) ← sys.distances.numaDistance cache (BitVec.ofNat 32 sys.maxnode) (BitVec.ofNat 32 fst)
  if distance = 0 then return (noDistances, cache)
  else
    let heads := (List.range (sys.maxnode + 1)).flatMap fun i =>
      if numaBitmaskIsbitset sys.nodes i = true then padInt i ++ [' '] else []
    (List.range (sys.maxnode + 1)).foldlM sys.rowStep
      ("node distances:\n".toList ++ "node  ".toList ++ heads ++ ['\n'], cache)

/-- The lines of one node. The memory is looked up for a number without a node, too. -/
def nodeStep (k : Kernel) (cpuCompress : Bool) (st : List Char × NodeCpuMask (Cpumask g.cpuConfig.cpumaskSz))
    (i : Nat) : Option (List Char × NodeCpuMask (Cpumask g.cpuConfig.cpumaskSz)) := do
  let (mem, _) ← numaNodeSize64 (sys.meminfo i) true
  if numaBitmaskIsbitset sys.nodes i then
    let r := numaNodeToCpusV2 g.cpuConfig k.cpumap st.2 i g.numaAllocateCpumask
    let node := "node ".toList ++ decimal i
    return (st.1 ++ (node ++ " cpus:".toList ++ printNodeCpus cpuCompress r.1 ++
      (node ++ " size: ".toList ++ fmtMem (BitVec.ofInt 64 mem.size) ++ ['\n']) ++
      (node ++ " free: ".toList ++ fmtMem (BitVec.ofInt 64 mem.free) ++ ['\n'])), r.2)
  else return st

/-- `hardware`, from the caches of the task: what it prints, and the status the program exits with. -/
def hardware (k : Kernel) (cpuCompress : Bool) (nodeCpus : NodeCpuMask (Cpumask g.cpuConfig.cpumaskSz))
    (cache : DistanceCache) : Option (List Char × Nat) :=
  if !numaAvailable k then some ("No NUMA available on this system\n".toList, 1)
  else do
    let (out, _) ← (List.range (sys.maxnode + 1)).foldlM (sys.nodeStep k cpuCompress)
      (hardwareAvailable sys.nodes sys.maxnode, nodeCpus)
    let (distances, _) ← sys.printDistances cache
    return (out ++ distances, 0)

end HardwareSystem

/-! ### The report of the files -/

/-- A distance with the blank behind it. -/
def distanceText (d : Nat) : List Char := padInt (BitVec.ofNat 32 d).toInt ++ [' ']

/-- A row of the table behind the colon. -/
def rowText (ds : List Nat) : List Char := ds.flatMap distanceText

/-- The table of the rows, in the order of the nodes; there is none if the row of the highest node starts with a 0. -/
def tableText (S : Finset Nat) (maxnode : Nat) (rows : Nat → List Nat) : List Char :=
  if BitVec.ofNat 32 ((rows maxnode).headD 0) = 0 then noDistances
  else "node distances:\n".toList ++ "node  ".toList ++ (S.sort (· ≤ ·)).flatMap (fun n : Nat => padInt n ++ [' ']) ++
    ['\n'] ++ (S.sort (· ≤ ·)).flatMap fun n : Nat => padInt n ++ ": ".toList ++ rowText (rows n) ++ ['\n']

/-- Memory in the unit of the files. -/
def memText (kb : Nat) : List Char := decimal (kb % 2 ^ 54 / 1024) ++ " MB".toList

/-- The number of the last line that counts for a name, in a file that is there. -/
def lastValue (name : List Char) (ls : Option (List MeminfoLine)) : Option Nat :=
  ls.bind fun ls => ((ls.filter (MeminfoLine.Names name)).getLast?).map MeminfoLine.value

/-- The lines of a node. What is not found is not available as a size, and nothing as free memory. -/
def nodeLines (k : Kernel) (cfg : CpuConfig) (cpuCompress : Bool) (ls : Option (List MeminfoLine)) (n : Nat) :
    List Char :=
  let r := readCpumapV2 cfg (k.cpumap n)
  let node := "node ".toList ++ decimal n
  node ++ " cpus:".toList ++ printNodeCpus cpuCompress ⟨r.1, none, r.2.toBitmask⟩ ++
    (node ++ " size: ".toList ++ ((lastValue "MemTotal".toList ls).map memText).getD "<not available>".toList ++
      ['\n']) ++
    (node ++ " free: ".toList ++ ((lastValue "MemFree".toList ls).map memText).getD "0 MB".toList ++ ['\n'])

theorem fmtMem_bytes (l : MeminfoLine) : fmtMem (BitVec.ofInt 64 l.bytes) = memText l.value := by
  have hmem : BitVec.ofInt 64 l.bytes = BitVec.ofNat 64 l.value <<< 10 := BitVec.ofInt_toInt
  have hnat : (BitVec.ofNat 64 l.value <<< 10).toNat = l.value * 1024 % 2 ^ 64 := by
    rw [BitVec.toNat_shiftLeft, BitVec.toNat_ofNat, Nat.shiftLeft_eq, Nat.mod_mul_mod]
  have hne : ¬BitVec.ofNat 64 l.value <<< 10 = -1 := by
    intro heq
    rw [heq, show (-1 : BitVec 64).toNat = 2 ^ 64 - 1 from rfl] at hnat
    omega
  rw [hmem, fmtMem, if_neg hne, memText, BitVec.toNat_ushiftRight, hnat, Nat.shiftRight_eq_div_pow,
    show l.value * 1024 % 2 ^ 64 / 2 ^ 20 = l.value % 2 ^ 54 / 1024 by omega]

theorem fmtMem_neg_one : fmtMem (BitVec.ofInt 64 (-1)) = "<not available>".toList := by decide

theorem fmtMem_zero : fmtMem (BitVec.ofInt 64 0) = "0 MB".toList := by decide

theorem fmtMem_lastBytes (d : Int) (name : List Char) (ls : List MeminfoLine) :
    fmtMem (BitVec.ofInt 64 (lastBytes d name ls)) =
      ((lastValue name (some ls)).map memText).getD (fmtMem (BitVec.ofInt 64 d)) := by
  rw [lastBytes, lastValue, Option.bind_some]
  cases (ls.filter (MeminfoLine.Names name)).getLast? with
  | none => rfl
  | some l => exact fmtMem_bytes l

/-! ### Rows -/

theorem distanceText_eq {d : Nat} (hd : d < 2 ^ 31) :
    distanceText d = List.replicate (4 - (' ' :: decimal d).length) ' ' ++ (' ' :: decimal d) ++ [' '] := by
  have hint : (BitVec.ofNat 32 d).toInt = d := by
    have hnat : (BitVec.ofNat 32 d).toNat = d := by rw [BitVec.toNat_ofNat, Nat.mod_eq_of_lt (by omega)]
    rw [BitVec.toInt_eq_toNat_of_lt (by omega), hnat]
  rw [distanceText, padInt, hint, if_neg (Int.not_lt.mpr (Int.natCast_nonneg d)), printInt_natCast]
  rfl

/-- A row is printed as it stands in the files. -/
theorem readsRow_rowText {ds : List Nat} (hsmall : ∀ d ∈ ds, d < 2 ^ 31) : ReadsRow (rowText ds ++ ['\n']) ds := by
  induction ds with
  | nil =>
      refine .done fun c hc => ?_
      obtain rfl := List.mem_singleton.mp hc
      decide
  | cons d ds ih =>
      rw [List.forall_mem_cons] at hsmall
      have hnumeral : Numeral (decimal d) d := NumberList.numeral_decimal (hsmall.1.trans (by decide))
      have hrest : ReadsRow (' ' :: (rowText ds ++ ['\n'])) ds := (ih hsmall.2).cons_space rfl
      have hrow : ReadsRow (decimal d ++ ' ' :: (rowText ds ++ ['\n'])) (d :: ds) :=
        .number hnumeral (fun c hc => Option.some.inj hc ▸ rfl) hrest
      have htext : rowText (d :: ds) ++ ['\n'] = List.replicate (4 - (' ' :: decimal d).length) ' ' ++
          (' ' :: (decimal d ++ ' ' :: (rowText ds ++ ['\n']))) := by
        rw [rowText, List.flatMap_cons, distanceText_eq hsmall.1, ← rowText]
        simp only [List.append_assoc, List.cons_append, List.nil_append]
      rw [htext]
      exact (hrow.cons_space rfl).replicate_append rfl _

theorem rowFile_rowText {ds : List Nat} (hsmall : ∀ d ∈ ds, d < 2 ^ 31) : RowFile (rowText ds ++ ['\n']) ds where
  oneLine := by
    rw [List.dropLast_concat]
    intro hmem
    obtain ⟨d, hd, hc⟩ := List.mem_flatMap.mp hmem
    rw [distanceText_eq (hsmall d hd)] at hc
    rcases List.mem_append.mp hc with hc | hc
    · rcases List.mem_append.mp hc with hc | hc
      · exact absurd (List.eq_of_mem_replicate hc) (by decide)
      · rcases List.mem_cons.mp hc with hc | hc
        · exact absurd hc (by decide)
        · exact absurd (CString.isDigitOf_decimal _ hc) (by decide)
    · exact absurd (List.mem_singleton.mp hc) (by decide)
  reads := readsRow_rowText hsmall

/-! ### The distances -/

theorem rowText_eq {S : Finset Nat} {ds : List Nat} (hlength : ds.length = S.card) :
    (S.sort (· ≤ ·)).flatMap (fun n => distanceText (ds.getD (nodeRank S n) 0)) = rowText ds := by
  have hmap : (S.sort (· ≤ ·)).map (fun n => ds.getD (nodeRank S n) 0) = ds := by
    have hsort : (S.sort (· ≤ ·)).length = ds.length := (Finset.length_sort _).trans hlength.symm
    apply List.ext_getElem
    · rw [List.length_map, hsort]
    · intro j hj hj'
      rw [List.getElem_map, nodeRank, Ranges.card_filter_lt_sort (by rwa [List.length_map] at hj),
        List.getD_eq_getElem _ _ hj']
  rw [rowText, ← congrArg (List.flatMap distanceText) hmap, List.flatMap_map]

namespace HardwareSystem

variable {sys : HardwareSystem} {S : Finset Nat}

/-- The nodes found are those of `S`, the last of which is the highest. -/
structure Finds (sys : HardwareSystem) (S : Finset Nat) : Prop where
  finds : FindsNodes sys.distances S
  highest : IsGreatest (S : Set Nat) sys.maxnode
  maxnode_lt : sys.maxnode < 2 ^ 31

/-- What the files `meminfo` hold, for every number up to the highest node: lines of the kernel, or there is none. -/
structure MeminfoFiles (sys : HardwareSystem) (mems : Nat → Option (List MeminfoLine)) : Prop where
  text : ∀ n ≤ sys.maxnode, sys.meminfo n = (mems n).map meminfoText
  clean : ∀ n ≤ sys.maxnode, ∀ ls ∈ mems n, ∀ l ∈ ls, l.Clean

theorem MeminfoFiles.numaNodeSize64_eq {mems : Nat → Option (List MeminfoLine)} (h : MeminfoFiles sys mems) {n : Nat}
    (hn : n ≤ sys.maxnode) :
    ∃ mem warns, numaNodeSize64 (sys.meminfo n) true = some (mem, warns) ∧
      fmtMem (BitVec.ofInt 64 mem.size) =
        ((lastValue "MemTotal".toList (mems n)).map memText).getD "<not available>".toList ∧
      fmtMem (BitVec.ofInt 64 mem.free) = ((lastValue "MemFree".toList (mems n)).map memText).getD "0 MB".toList := by
  rw [h.text n hn, ← fmtMem_neg_one, ← fmtMem_zero]
  cases hls : mems n with
  | none => exact ⟨⟨-1, 0, 0⟩, false, rfl, rfl, rfl⟩
  | some ls =>
      rw [Option.map_some, numaNodeSize64_meminfoText (h.clean n hn ls hls) true]
      exact ⟨_, _, rfl, fmtMem_lastBytes (-1) _ ls, fmtMem_lastBytes 0 _ ls⟩

namespace Finds

theorem isbitset_eq (h : sys.Finds S) (i : Nat) : numaBitmaskIsbitset sys.nodes i = true ↔ i ∈ S := by
  rw [nodes, numaBitmaskIsbitset_eq_true, h.finds.bits]

theorem filter_eq (h : sys.Finds S) :
    (List.range (sys.maxnode + 1)).filter (fun i => numaBitmaskIsbitset sys.nodes i) = S.sort (· ≤ ·) := by
  apply Ranges.filter_range_eq_sort
  intro n
  rw [h.isbitset_eq]
  exact ⟨fun hn => ⟨Nat.lt_succ_of_le (h.highest.2 hn), hn⟩, And.right⟩

/-- What is printed of each node comes in the order of the nodes. -/
theorem flatMap_eq (h : sys.Finds S) (f : Nat → List Char) :
    (List.range (sys.maxnode + 1)).flatMap (fun i => if numaBitmaskIsbitset sys.nodes i = true then f i else []) =
      (S.sort (· ≤ ·)).flatMap f := by
  rw [Ranges.flatMap_ite (fun i => numaBitmaskIsbitset sys.nodes i), h.filter_eq]

theorem lt_maxnode (h : sys.Finds S) : sys.maxnode < sys.distances.maxnode :=
  h.finds.lt_maxnode _ h.highest.1

variable {rows : Nat → List Nat}

/-- The distance of two nodes, whatever the cache holds of the files. -/
theorem numaDistance_eq (h : sys.Finds S) (hfiles : RowFiles sys.distances.files S rows) {cache : DistanceCache}
    (hholds : CacheHolds S rows sys.distances.maxnode cache) {i k : Nat} (hi : i ∈ S) (hk : k ∈ S) :
    ∃ cache', sys.distances.numaDistance cache (BitVec.ofNat 32 i) (BitVec.ofNat 32 k) =
        some (BitVec.ofNat 32 ((rows i).getD (nodeRank S k) 0), cache') ∧
      CacheHolds S rows sys.distances.maxnode cache' := by
  have hnat : ∀ n ∈ S, (BitVec.ofNat 32 n).toNat = n := by
    intro n hn
    have hle := h.highest.2 hn
    have hlt := h.maxnode_lt
    rw [BitVec.toNat_ofNat, Nat.mod_eq_of_lt (by omega)]
  obtain ⟨r, cache', hcell, hcall, hholds'⟩ :=
    DistanceSystem.numaDistance_eq h.finds hfiles hholds (BitVec.ofNat 32 i) (BitVec.ofNat 32 k)
  rw [hnat i hi, hnat k hk, cell, if_pos ⟨hi, hk, h.finds.lt_maxnode i hi⟩, Option.map_eq_some_iff] at hcell
  obtain ⟨d, hd, rfl⟩ := hcell
  refine ⟨cache', ?_, hholds'⟩
  rw [hcall, List.getD_eq_getElem?_getD, hd]
  rfl

theorem distanceStep_eq (h : sys.Finds S) (hfiles : RowFiles sys.distances.files S rows) {i : Nat} (hi : i ∈ S)
    (k : Nat) (out : List Char) (cache : DistanceCache) (hholds : CacheHolds S rows sys.distances.maxnode cache) :
    ∃ cache', sys.distanceStep i (out, cache) k =
        some (out ++ (if numaBitmaskIsbitset sys.nodes k = true then
          distanceText ((rows i).getD (nodeRank S k) 0) else []), cache') ∧
      CacheHolds S rows sys.distances.maxnode cache' := by
  rw [distanceStep, (h.isbitset_eq i).mpr hi, Bool.true_and]
  by_cases hk : k ∈ S
  · obtain ⟨cache', hcall, hholds'⟩ := h.numaDistance_eq hfiles hholds hi hk
    rw [if_pos ((h.isbitset_eq k).mpr hk), if_pos ((h.isbitset_eq k).mpr hk), hcall]
    exact ⟨cache', rfl, hholds'⟩
  · rw [if_neg (mt (h.isbitset_eq k).mp hk), if_neg (mt (h.isbitset_eq k).mp hk), List.append_nil]
    exact ⟨cache, rfl, hholds⟩

theorem rowStep_eq (h : sys.Finds S) (hfiles : RowFiles sys.distances.files S rows) (i : Nat) (out : List Char)
    (cache : DistanceCache) (hholds : CacheHolds S rows sys.distances.maxnode cache) :
    ∃ cache', sys.rowStep (out, cache) i =
        some (out ++ (if numaBitmaskIsbitset sys.nodes i = true then
          padInt i ++ ": ".toList ++ rowText (rows i) ++ ['\n'] else []), cache') ∧
      CacheHolds S rows sys.distances.maxnode cache' := by
  rw [rowStep]
  by_cases hi : i ∈ S
  · have hcells : ∀ k ∈ List.range (sys.maxnode + 1), _ := fun k _ => h.distanceStep_eq hfiles hi k
    obtain ⟨cache', hloop, hholds'⟩ := Runs.output_rule hcells (out ++ (padInt i ++ ": ".toList)) hholds
    rw [h.flatMap_eq, rowText_eq (hfiles.length i hi)] at hloop
    rw [if_pos ((h.isbitset_eq i).mpr hi), if_pos ((h.isbitset_eq i).mpr hi), hloop]
    refine ⟨cache', congrArg (fun out => some (out, cache')) ?_, hholds'⟩
    simp only [List.append_assoc]
  · rw [if_neg (mt (h.isbitset_eq i).mp hi), if_neg (mt (h.isbitset_eq i).mp hi), List.append_nil]
    exact ⟨cache, rfl, hholds⟩

/-- The distances printed are those of the row files, whatever the cache holds of them. -/
theorem printDistances_eq (h : sys.Finds S) (hfiles : RowFiles sys.distances.files S rows) {cache : DistanceCache}
    (hholds : CacheHolds S rows sys.distances.maxnode cache) :
    ∃ cache', sys.printDistances cache = some (tableText S sys.maxnode rows, cache') := by
  have hpos : 0 < (S.sort (· ≤ ·)).length := by
    rw [Finset.length_sort, Finset.card_pos]
    exact ⟨_, h.highest.1⟩
  -- the first node has rank 0
  have hfst : (List.range (sys.maxnode + 1)).find? (fun i => numaBitmaskIsbitset sys.nodes i) =
      some (S.sort (· ≤ ·))[0] := by
    rw [← List.head?_filter, h.filter_eq, List.head?_eq_getElem?, List.getElem?_eq_getElem hpos]
  have hrank : nodeRank S (S.sort (· ≤ ·))[0] = 0 := Ranges.card_filter_lt_sort hpos
  obtain ⟨cache1, hcall, hholds1⟩ := h.numaDistance_eq hfiles hholds h.highest.1
    ((Finset.mem_sort (· ≤ ·)).mp (List.getElem_mem hpos))
  rw [hrank, ← List.headD_eq_getD] at hcall
  rw [printDistances, hfst, Option.getD_some, hcall, tableText, Option.bind_eq_bind, Option.bind_some]
  generalize BitVec.ofNat 32 ((rows sys.maxnode).headD 0) = distance
  dsimp only
  by_cases hzero : distance = 0
  · rw [if_pos hzero, if_pos hzero]
    exact ⟨cache1, rfl⟩
  · have hrows : ∀ i ∈ List.range (sys.maxnode + 1), _ := fun i _ => h.rowStep_eq hfiles i
    obtain ⟨cache2, hloop, -⟩ := Runs.output_rule hrows ("node distances:\n".toList ++ "node  ".toList ++
      (S.sort (· ≤ ·)).flatMap (fun n : Nat => padInt n ++ [' ']) ++ ['\n']) hholds1
    rw [h.flatMap_eq] at hloop
    rw [if_neg hzero, if_neg hzero, h.flatMap_eq, hloop]
    exact ⟨cache2, rfl⟩

/-- The lines of a node are those of its files, whatever masks are kept of them. -/
theorem nodeStep_eq (h : sys.Finds S) (hmax : sys.maxnode = g.maxconfigurednode) {k : Kernel} (cpuCompress : Bool)
    {mems : Nat → Option (List MeminfoLine)} (hmems : MeminfoFiles sys mems) {i : Nat} (hi : i ≤ sys.maxnode)
    (out : List Char) (kept : NodeCpuMask (Cpumask g.cpuConfig.cpumaskSz))
    (hkept : CachesRead g.cpuConfig k.cpumap kept) :
    ∃ kept', sys.nodeStep k cpuCompress (out, kept) i =
        some (out ++ (if numaBitmaskIsbitset sys.nodes i = true then
          nodeLines k g.cpuConfig cpuCompress (mems i) i else []), kept') ∧
      CachesRead g.cpuConfig k.cpumap kept' := by
  obtain ⟨mem, warns, hmem, hsize, hfree⟩ := hmems.numaNodeSize64_eq hi
  rw [nodeStep, hmem, Option.bind_eq_bind, Option.bind_some]
  dsimp only
  by_cases hnode : i ∈ S
  · obtain ⟨hkept', errno, hreply, -⟩ := hkept.query_eq (hi.trans_eq hmax) (numaAllocateCpumask g.cpuConfig)
    change (numaNodeToCpusV2 g.cpuConfig k.cpumap kept i g.numaAllocateCpumask).1 = _ at hreply
    rw [if_pos ((h.isbitset_eq i).mpr hnode), if_pos ((h.isbitset_eq i).mpr hnode)]
    refine ⟨_, ?_, hkept'⟩
    rw [hreply, hsize, hfree]
    rfl
  · rw [if_neg (mt (h.isbitset_eq i).mp hnode), if_neg (mt (h.isbitset_eq i).mp hnode), List.append_nil]
    exact ⟨kept, rfl, hkept⟩

end Finds

/-- The distances can be printed without any files, too. -/
theorem printDistances_missing (hmissing : ∀ n, sys.distances.files.getD n .missing = .missing) {cache : DistanceCache}
    (hcache : cache.distanceTable = none) : ∃ cache', sys.printDistances cache = some (noDistances, cache') := by
  have hrows : ∀ fuel nd err, sys.distances.maxnode - nd < fuel →
      sys.distances.readRows fuel nd err none = some (0, none) := by
    intro fuel
    induction fuel with
    | zero => exact fun nd err hfuel => absurd hfuel (Nat.not_lt_zero _)
    | succ fuel ih =>
        intro nd err hfuel
        rw [DistanceSystem.readRows, hmissing]
        dsimp only
        by_cases hnd : nd < sys.distances.maxnode
        · rw [if_pos hnd]
          exact ih (nd + 1) 0 (by omega)
        · rw [if_neg hnd]
  have hcall : ∀ a b, sys.distances.numaDistance cache a b = some (0, ⟨sys.distances.maxnode, none⟩) := by
    intro a b
    rw [DistanceSystem.numaDistance, hcache, DistanceSystem.readDistanceTable, hrows _ _ _ (by omega), hcache]
    rfl
  refine ⟨⟨sys.distances.maxnode, none⟩, ?_⟩
  rw [printDistances, hcall]
  rfl

/-- What the files `distance` hold: a row for each node, or there are none. -/
def DistanceFiles (sys : HardwareSystem) (S : Finset Nat) : Option (Nat → List Nat) → Prop
  | none => ∀ n, sys.distances.files.getD n .missing = .missing
  | some rows => RowFiles sys.distances.files S rows

/-- The report is one of the files: the nodes, the lines of each, and the table of the distances. -/
theorem Finds.hardware_eq (h : sys.Finds S) (hmax : sys.maxnode = g.maxconfigurednode) {k : Kernel}
    (havailable : k.available = true) (cpuCompress : Bool) {mems : Nat → Option (List MeminfoLine)}
    (hmems : MeminfoFiles sys mems) {rows : Option (Nat → List Nat)} (hrows : sys.DistanceFiles S rows)
    {kept : NodeCpuMask (Cpumask g.cpuConfig.cpumaskSz)} (hkept : CachesRead g.cpuConfig k.cpumap kept) :
    sys.hardware k cpuCompress kept .initial = some
      (hardwareAvailable sys.nodes sys.maxnode ++
        (S.sort (· ≤ ·)).flatMap (fun n => nodeLines k g.cpuConfig cpuCompress (mems n) n) ++
        rows.elim noDistances (tableText S sys.maxnode), 0) := by
  have hnodes : ∀ i ∈ List.range (sys.maxnode + 1), _ := fun i hi =>
    h.nodeStep_eq (k := k) hmax cpuCompress hmems (Nat.le_of_lt_succ (List.mem_range.mp hi))
  obtain ⟨kept', hloop, -⟩ := Runs.output_rule hnodes (hardwareAvailable sys.nodes sys.maxnode) hkept
  obtain ⟨cache', hdistances⟩ : ∃ cache', sys.printDistances .initial =
      some (rows.elim noDistances (tableText S sys.maxnode), cache') := by
    cases rows with
    | none => exact printDistances_missing hrows rfl
    | some rows => exact h.printDistances_eq hrows fun table htable => by cases htable
  have hon : ¬(!numaAvailable k) = true := by
    rw [numaAvailable, havailable]
    exact Bool.false_ne_true
  rw [h.flatMap_eq] at hloop
  rw [hardware, if_neg hon, hloop, hdistances]
  rfl

end HardwareSystem

/-! ### The report of a run -/

/-- The nodes of directories. -/
theorem NodeDirs.finds {names : List (List Char)} {S : Finset Nat} (h : NodeDirs names S) (hne : S.Nonempty)
    {nodemaskSz : Nat} (hsize : nodemaskSz < 2 ^ 31) (hS : ∀ n ∈ S, n < nodemaskSz) {sys : HardwareSystem}
    (hnodes : sys.distances.nodes = setConfiguredNodes nodemaskSz (some names)) :
    sys.Finds S ∧ sys.maxnode = S.max' hne := by
  have hmaxnode : sys.maxnode = S.max' hne := by
    rw [HardwareSystem.maxnode, numaMaxNode, hnodes, h.maxconfigurednode_eq hne, Int.toNat_natCast]
  have hlt := hS _ (S.max'_mem hne)
  have hfinds := h.findsNodes hS sys.distances.files
  rw [← hnodes] at hfinds
  refine ⟨⟨hfinds, ?_, by omega⟩, hmaxnode⟩
  rw [hmaxnode]
  exact ⟨S.max'_mem hne, fun n hn => S.le_max' n hn⟩

namespace Main

variable {h : Host} {t : Task g} {m : Main g} {opts : List Opt} {av : List (List Char)}

/-- The hardware is printed exactly if the options are accepted and one of them asks for it. -/
theorem run_eq_hardware_iff :
    run h t opts av = .ok (.hardware m) ↔
      (initial t).optionLoop h opts = .ok m ∧ opts.any Opt.isHardware = true := by
  rw [run, bind_eq_ok]
  constructor
  · rintro ⟨m', hok, hfinish⟩
    rw [← (marked_of_accepted hok).doHardware_eq]
    rw [finish] at hfinish
    by_cases hhardware : m'.doHardware = true
    · rw [if_pos hhardware] at hfinish
      cases hfinish
      exact ⟨hok, hhardware⟩
    · rw [if_neg hhardware] at hfinish
      split at hfinish
      · simp only [bind_eq_ok, Runs.pure_eq_ok] at hfinish
        obtain ⟨-, -, hfinish⟩ := hfinish
        cases hfinish
      · simp only [bind_eq_ok] at hfinish
        obtain ⟨-, -, hfinish⟩ := hfinish
        split at hfinish
        · cases hfinish
        · simp only [bind_eq_ok, Runs.pure_eq_ok] at hfinish
          obtain ⟨-, -, hfinish⟩ := hfinish
          cases hfinish
  · rintro ⟨hok, hany⟩
    rw [← (marked_of_accepted hok).doHardware_eq] at hany
    exact ⟨m, hok, if_pos hany⟩

/-- Whatever other options there are, and whatever they have done to the task: `--hardware` prints the report of the
files, with the CPUs in ranges exactly if there is a `--cpu-compress`, before it or behind it. -/
theorem hardware_report (hb : h.kernel.NamesErrors) (havailable : h.kernel.available = true)
    (hkept : CachesRead g.cpuConfig h.kernel.cpumap t.nodeCpus) (hrun : run h t opts av = .ok (.hardware m))
    {names : List (List Char)} {S : Finset Nat} (hdirs : NodeDirs names S) (hne : S.Nonempty)
    (hmax : S.max' hne = g.maxconfigurednode) {sys : HardwareSystem}
    (hnodes : sys.distances.nodes = setConfiguredNodes g.nodemaskSz (some names))
    {mems : Nat → Option (List MeminfoLine)} (hmems : sys.MeminfoFiles mems)
    {rows : Option (Nat → List Nat)} (hrows : sys.DistanceFiles S rows) :
    ∃ rs, RangesOf S rs ∧ sys.hardware h.kernel m.cpuCompress m.task.nodeCpus .initial = some
      ("available: ".toList ++ decimal S.card ++ " nodes (".toList ++ [','].intercalate (rs.map Range.text) ++
          ")\n".toList ++
        (S.sort (· ≤ ·)).flatMap
          (fun n => nodeLines h.kernel g.cpuConfig (opts.any Opt.isCpuCompress) (mems n) n) ++
        rows.elim noDistances (tableText S g.maxconfigurednode), 0) := by
  have hlt : ∀ n ∈ S, n < g.nodemaskSz := fun n hn => ((S.le_max' n hn).trans_eq hmax).trans_lt g.maxnode_lt
  obtain ⟨hfinds, hmaxnode⟩ := hdirs.finds hne g.nodemask_lt hlt hnodes
  rw [hmax] at hmaxnode
  obtain ⟨hok, -⟩ := run_eq_hardware_iff.mp hrun
  have hbits : sys.nodes.bits = S := hfinds.finds.bits
  have hgreatest := hfinds.highest
  rw [← hbits] at hgreatest
  obtain ⟨rs, -, hranges, htext⟩ := hardwareNodeList_eq hgreatest
  refine ⟨rs, hbits ▸ hranges, ?_⟩
  rw [hfinds.hardware_eq hmaxnode havailable m.cpuCompress hmems hrows (affinity_of_accepted hb hkept hok).1,
    hardwareAvailable_eq hgreatest, htext, hbits, hmaxnode, (marked_of_accepted hok).cpuCompress_eq]

end Main

/-- The nodes 0 and 2 at a distance of 20. -/
def farRow : Nat → List Nat
  | 0 => [10, 20]
  | _ => [20, 10]

/-- Node 2 does not say what is free. -/
def farMems : Nat → Option (List MeminfoLine)
  | 0 => some [⟨"Node 0 MemTotal:".toList, 8192, true⟩, ⟨"Node 0 MemFree:".toList, 2048, true⟩,
      ⟨"Node 0 HugePages_Total:".toList, 0, false⟩]
  | 2 => some [⟨"Node 2 MemTotal:".toList, 4096, true⟩]
  | _ => none

def farNames : List (List Char) := ["node2".toList, "node0".toList, "possible".toList]

def farSystem : HardwareSystem where
  distances :=
    { nodes := setConfiguredNodes 64 (some farNames)
      files := [.text (rowText (farRow 0) ++ ['\n']), .missing, .text (rowText (farRow 2) ++ ['\n'])] }
  meminfo n := (farMems n).map meminfoText

theorem nodeDirs_far : NodeDirs farNames {0, 2} where
  dir := by
    intro n hn
    obtain rfl | rfl : n = 0 ∨ n = 2 := by simpa using hn
    · exact ⟨"0".toList, by decide, by decide⟩
    · exact ⟨"2".toList, by decide, by decide⟩
  only := by
    intro name hname htake
    obtain rfl | rfl | rfl : name = "node2".toList ∨ name = "node0".toList ∨ name = "possible".toList := by
      simpa only [farNames, List.mem_cons, List.not_mem_nil, or_false] using hname
    · exact ⟨2, by decide, "2".toList, by decide, rfl⟩
    · exact ⟨0, by decide, "0".toList, by decide, rfl⟩
    · exact absurd htake (by decide)

theorem rowFiles_far : RowFiles farSystem.distances.files {0, 2} farRow where
  row := by
    intro n hn
    obtain rfl | rfl : n = 0 ∨ n = 2 := by simpa using hn
    · exact ⟨_, rfl, rowFile_rowText (by decide)⟩
    · exact ⟨_, rfl, rowFile_rowText (by decide)⟩
  length := by decide
  absent := by
    intro n hn
    obtain hlt | hge := Nat.lt_or_ge n 3
    · interval_cases n <;> first | rfl | exact absurd (by decide) hn
    · exact List.getD_eq_default farSystem.distances.files _ hge

theorem meminfoFiles_far : farSystem.MeminfoFiles farMems where
  text n _ := rfl
  clean n _ ls hls l hl := by
    have hclean : ∀ n, ∀ ls ∈ farMems n, ∀ l ∈ ls,
        '\n' ∉ l.label ∧ ¬"kb".toList <:+: l.label.map Char.toLower ∧ l.value < 2 ^ 64 := by
      intro n ls hls
      unfold farMems at hls
      split at hls
      · exact Option.some.inj hls ▸ by decide
      · exact Option.some.inj hls ▸ by decide
      · cases hls
    exact ⟨(hclean n ls hls l hl).1, (hclean n ls hls l hl).2.1, (hclean n ls hls l hl).2.2⟩

/-- `numactl --cpu-compress --hardware`. -/
theorem hardware_report_far : ∃ m : Main farCpuGlobals,
    Main.run { plainHost with kernel := farCpuKernel } (Task.initial farCpuGlobals) [.cpuCompress, .hardware] [] =
        .ok (.hardware m) ∧
      ∃ rs, RangesOf {0, 2} rs ∧ farSystem.hardware farCpuKernel m.cpuCompress m.task.nodeCpus .initial = some
        ("available: ".toList ++ decimal 2 ++ " nodes (".toList ++ [','].intercalate (rs.map Range.text) ++
            ")\n".toList ++
          (({0, 2} : Finset Nat).sort (· ≤ ·)).flatMap
            (fun n => nodeLines farCpuKernel farCpuGlobals.cpuConfig true (farMems n) n) ++
          tableText {0, 2} 2 farRow, 0) := by
  obtain ⟨m, hok⟩ : ∃ m, (Main.initial (Task.initial farCpuGlobals)).optionLoop
      { plainHost with kernel := farCpuKernel } [.cpuCompress, .hardware] = .ok m := Main.exists_ok (by decide +kernel)
  have hrun : Main.run { plainHost with kernel := farCpuKernel } (Task.initial farCpuGlobals) [.cpuCompress, .hardware]
      [] = .ok (.hardware m) := Main.run_eq_hardware_iff.mpr ⟨hok, rfl⟩
  have hrows : farSystem.DistanceFiles {0, 2} (some farRow) := rowFiles_far
  exact ⟨m, hrun, Main.hardware_report plainKernel_namesErrors rfl (fun n old hold => by cases hold) hrun nodeDirs_far
    ⟨0, by decide⟩ (by decide) rfl meminfoFiles_far hrows⟩

/-! ### Reading the distances back -/

namespace HardwareSystem

variable {sys sys' : HardwareSystem} {S : Finset Nat} {rows : Nat → List Nat}

/-- The rows printed are row files again: wherever they are read as such, the distances are the same, and are printed
as the same table, whatever has been called before. -/
theorem printed_rows_read_back (h : sys.Finds S) (hfiles : RowFiles sys.distances.files S rows)
    (hsmall : ∀ n ∈ S, ∀ d ∈ rows n, d < 2 ^ 31) (hnodes : sys'.distances.nodes = sys.distances.nodes)
    (hprinted : ∀ n, sys'.distances.files.getD n .missing =
      if n ∈ S then .text (rowText (rows n) ++ ['\n']) else .missing) (calls calls' : List DistanceCall) :
    ∃ cache cache', Runs.after sys.distances.step (some .initial) calls = some cache ∧
      Runs.after sys'.distances.step (some .initial) calls' = some cache' ∧
      (sys.printDistances cache).map Prod.fst = some (tableText S sys.maxnode rows) ∧
      (sys'.printDistances cache').map Prod.fst = some (tableText S sys.maxnode rows) ∧
      ∀ a b, ∃ distance, (sys.distances.numaDistance cache a b).map Prod.fst = some distance ∧
        (sys'.distances.numaDistance cache' a b).map Prod.fst = some distance := by
  have hfiles' : RowFiles sys'.distances.files S rows :=
    { row := fun n hn => ⟨_, (hprinted n).trans (if_pos hn), rowFile_rowText (hsmall n hn)⟩
      length := hfiles.length
      absent := fun n hn => (hprinted n).trans (if_neg hn) }
  have hmaxnode : sys'.maxnode = sys.maxnode := by rw [maxnode, maxnode, hnodes]
  have hcolumns : sys'.distances.maxnode = sys.distances.maxnode := by
    rw [DistanceSystem.maxnode, DistanceSystem.maxnode, hnodes]
  have h' : sys'.Finds S := ⟨⟨hnodes ▸ h.finds.bits, hcolumns ▸ h.finds.lt_maxnode⟩, hmaxnode ▸ h.highest,
    hmaxnode ▸ h.maxnode_lt⟩
  obtain ⟨cache, hafter, hholds⟩ := DistanceSystem.cacheHolds_after h.finds hfiles calls
  obtain ⟨cache', hafter', hholds'⟩ := DistanceSystem.cacheHolds_after h'.finds hfiles' calls'
  obtain ⟨cache1, hprint⟩ := h.printDistances_eq hfiles hholds
  obtain ⟨cache1', hprint'⟩ := h'.printDistances_eq hfiles' hholds'
  refine ⟨cache, cache', hafter, hafter', by rw [hprint]; rfl, by rw [hprint', hmaxnode]; rfl, fun a b => ?_⟩
  obtain ⟨r, cache2, hcell, hcall, -⟩ := DistanceSystem.numaDistance_eq h.finds hfiles hholds a b
  obtain ⟨r', cache2', hcell', hcall', -⟩ := DistanceSystem.numaDistance_eq h'.finds hfiles' hholds' a b
  rw [hcolumns, hcell] at hcell'
  obtain rfl := Option.some.inj hcell'
  exact ⟨r, by rw [hcall]; rfl, by rw [hcall']; rfl⟩

end HardwareSystem

/-- The rows 1, 2 and 5 as they are printed. -/
def printedFiles : List DistanceFile :=
  (List.range 6).map fun n => if n ∈ gappedNodes then .text (rowText (gappedRow n) ++ ['\n']) else .missing

def gappedDistances (files : List DistanceFile) : HardwareSystem :=
  ⟨⟨setConfiguredNodes 64 (some gappedNames), files⟩, fun _ => none⟩

theorem printed_rows_read_back_gapped : ∃ cache,
    Runs.after (gappedDistances printedFiles).distances.step (some .initial) [.distance 3 5, .cleanup] = some cache ∧
      ((gappedDistances printedFiles).printDistances cache).map Prod.fst = some (tableText gappedNodes 5 gappedRow) := by
  have hlt : ∀ n ∈ gappedNodes, n < 64 := by decide
  have hmax : gappedNodes.max' ⟨1, by decide⟩ = 5 := by decide
  have hsetup : (gappedDistances gappedFiles).distances.nodes = setConfiguredNodes 64 (some gappedNames) := rfl
  have hsame : (gappedDistances printedFiles).distances.nodes = (gappedDistances gappedFiles).distances.nodes := rfl
  obtain ⟨hfinds, hmaxnode⟩ := nodeDirs_gapped.finds ⟨1, by decide⟩ (by decide) hlt hsetup
  have hprinted : ∀ n, printedFiles.getD n .missing =
      if n ∈ gappedNodes then .text (rowText (gappedRow n) ++ ['\n']) else .missing := by
    intro n
    obtain hn | hn := Nat.lt_or_ge n 6
    · rw [printedFiles, List.getD_eq_getElem _ _ (by simpa using hn), List.getElem_map, List.getElem_range]
    · rw [List.getD_eq_default _ _ (by simpa [printedFiles] using hn), if_neg]
      intro hmem
      have hle := Finset.le_max' gappedNodes n hmem
      omega
  obtain ⟨_, cache, -, hafter, -, hprint, -⟩ := HardwareSystem.printed_rows_read_back hfinds rowFiles_gapped
    (by decide) hsame hprinted [] [.distance 3 5, .cleanup]
  exact ⟨cache, hafter, by rw [hprint, hmaxnode, hmax]⟩

end Numactl
