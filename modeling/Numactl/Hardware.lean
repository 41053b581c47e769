import Mathlib.Order.Bounds.Basic
import Numactl.Base.Ranges
import Numactl.CpuList
import Numactl.ListInversion
import Numactl.NodeCpus

/-! What `numactl --hardware` prints of nodes and CPUs (`hardware` and `print_node_cpus` in `numactl.c`): the
list of the nodes, and the CPUs of a node, one by one or, with `--cpu-compress`, in ranges. Both lists are
read back by the list parsers of `libnuma.c`. Node and CPU numbers are taken to fit an `int`. -/

namespace Numactl

open CString (decimal printInt printInt_natCast)
open NumberList (Item ReadsItem ReadsList)
open Ranges (Range RangesOf Canonical Has commas)

/-! ### The nodes -/

/-- The variables of the loop over the nodes, and what it has printed. -/
structure NodeListState where
  prevnode : Int
  skip : Bool
  out : List Char

/-- The body of the loop in `hardware`. -/
def hardwareStep (numaNodesPtr : Bitmask) (maxnode : Nat) (st : NodeListState) (i : Nat) : NodeListState :=
  if numaBitmaskIsbitset numaNodesPtr i then
    if st.prevnode = -1 then { st with out := st.out ++ decimal i, prevnode := i }
    else if st.prevnode + 1 < i then
      let st := if st.skip then { st with out := st.out ++ printInt st.prevnode, skip := false } else st
      { st with out := st.out ++ ',' :: decimal i, prevnode := i }
    else
      let st :=
        if (i : Int) = st.prevnode + 1 then
          let st := if st.skip then st else { st with out := st.out ++ ['-'], skip := true }
          { st with prevnode := i }
        else st
      if i = maxnode ∧ st.skip = true then { st with out := st.out ++ printInt st.prevnode } else st
  else st

/-- What stands between the parentheses. -/
def hardwareNodeList (numaNodesPtr : Bitmask) (maxnode : Nat) : List Char :=
  ((List.range (maxnode + 1)).foldl (hardwareStep numaNodesPtr maxnode)
    { prevnode := -1, skip := false, out := [] }).out

/-- The first line of `numactl --hardware`. -/
def hardwareAvailable (numaNodesPtr : Bitmask) (maxnode : Nat) : List Char :=
  "available: ".toList ++ decimal ((List.range (maxnode + 1)).countP fun i => numaBitmaskIsbitset numaNodesPtr i) ++
    " nodes (".toList ++ hardwareNodeList numaNodesPtr maxnode ++ ")\n".toList

/-- A range that may still grow: its first number, and the dash once there is a second. -/
def openText (r : Range) : List Char := decimal r.lo ++ if r.lo < r.hi then ['-'] else []

/-- The second number closes the range. -/
theorem openText_close (r : Range) : openText r ++ (if r.lo < r.hi then decimal r.hi else []) = r.text := by
  rw [openText, Range.text]
  obtain heq | hlt := Nat.eq_or_lt_of_le r.le
  · have hnot : ¬r.lo < r.hi := by omega
    rw [if_pos heq, if_neg hnot, if_neg hnot, List.append_nil, List.append_nil]
  · rw [if_pos hlt, if_pos hlt, if_neg hlt.ne, List.append_assoc]
    rfl

/-- The dash is printed with the second number. -/
theorem openText_extend (r : Range) : openText r.extend = openText r ++ if r.lo < r.hi then [] else ['-'] := by
  have hle := r.le
  have hlt : r.extend.lo < r.extend.hi := by
    simp only [Range.extend]
    omega
  rw [openText, if_pos hlt, openText]
  obtain hlt | hnot := em (r.lo < r.hi)
  · rw [if_pos hlt, if_pos hlt, List.append_nil]
    rfl
  · rw [if_neg hnot, if_neg hnot, List.append_nil]
    rfl

/-- The nodes below `k` are printed, the last range of them without its end. -/
inductive ListsBelow (S : Finset Nat) (k : Nat) (st : NodeListState) : Prop where
  | none : (∀ n ∈ S, k ≤ n) → st = { prevnode := -1, skip := false, out := [] } → ListsBelow S k st
  | last (rs : List Range) (r : Range) : Canonical (rs ++ [r]) → (∀ n, Has (rs ++ [r]) n ↔ n ∈ S ∧ n < k) →
      st = { prevnode := r.hi, skip := decide (r.lo < r.hi), out := commas (rs.map Range.text) (openText r) } →
      ListsBelow S k st

section Nodes

variable {nodes : Bitmask} {maxnode : Nat}

/-- A further node makes a range of its own, or is added to the last range. -/
theorem has_concat_iff {S : Finset Nat} {i : Nat} (hi : i ∈ S) {rs : List Range} (hrs : ∀ n, Has rs n ↔ n ∈ S ∧ n < i)
    {rs' : List Range} (hnew : ∀ n, Has rs' n ↔ Has rs n ∨ n = i) (n : Nat) : Has rs' n ↔ n ∈ S ∧ n < i + 1 := by
  rw [hnew, hrs]
  constructor
  · rintro (⟨hn, hlt⟩ | rfl)
    · exact ⟨hn, by omega⟩
    · exact ⟨hi, by omega⟩
  · rintro ⟨hn, hlt⟩
    obtain rfl | hne := eq_or_ne n i
    · exact Or.inr rfl
    · exact Or.inl ⟨hn, by omega⟩

theorem hardwareStep_of_notMem {i : Nat} (hi : i ∉ nodes.bits) (st : NodeListState) :
    hardwareStep nodes maxnode st i = st := by
  rw [hardwareStep, if_neg (mt (numaBitmaskIsbitset_eq_true nodes i).mp hi)]

/-- A node behind a gap: the last range is closed, and another opened. -/
theorem hardwareStep_gap (rs : List Range) {r : Range} {i : Nat} (hi : i ∈ nodes.bits) (hgap : r.hi + 1 < i) :
    hardwareStep nodes maxnode
        { prevnode := r.hi, skip := decide (r.lo < r.hi), out := commas (rs.map Range.text) (openText r) } i =
      { prevnode := i, skip := false, out := commas ((rs ++ [r]).map Range.text) (decimal i) } := by
  have hgap' : (r.hi : Int) + 1 < i := by omega
  have hflush : (if decide (r.lo < r.hi) = true then
        ({ prevnode := r.hi, skip := false,
           out := commas (rs.map Range.text) (openText r) ++ printInt r.hi } : NodeListState)
      else { prevnode := r.hi, skip := decide (r.lo < r.hi), out := commas (rs.map Range.text) (openText r) }) =
      { prevnode := r.hi, skip := false, out := commas (rs.map Range.text) r.text } := by
    rw [← openText_close, Ranges.commas_append, printInt_natCast]
    by_cases hdash : r.lo < r.hi
    · simp [hdash]
    · simp [hdash]
  rw [hardwareStep, if_pos ((numaBitmaskIsbitset_eq_true nodes i).mpr hi), if_neg (by dsimp only; omega)]
  dsimp only
  rw [if_pos hgap', hflush, List.map_append, List.map_singleton, Ranges.commas_concat]

/-- The node behind the last range is added to it, and ends it where it is the highest. -/
theorem hardwareStep_next (rs : List Range) {r : Range} (hi : r.hi + 1 ∈ nodes.bits) :
    hardwareStep nodes maxnode
        { prevnode := r.hi, skip := decide (r.lo < r.hi), out := commas (rs.map Range.text) (openText r) }
        (r.hi + 1) =
      { prevnode := (r.hi + 1 : Nat), skip := true,
        out := commas (rs.map Range.text)
          (openText r.extend ++ if r.hi + 1 = maxnode then decimal (r.hi + 1) else []) } := by
  have hmark : (if decide (r.lo < r.hi) = true then
        ({ prevnode := r.hi, skip := decide (r.lo < r.hi),
           out := commas (rs.map Range.text) (openText r) } : NodeListState)
      else { prevnode := r.hi, skip := true, out := commas (rs.map Range.text) (openText r) ++ ['-'] }) =
      { prevnode := r.hi, skip := true, out := commas (rs.map Range.text) (openText r.extend) } := by
    rw [openText_extend, Ranges.commas_append]
    by_cases hdash : r.lo < r.hi
    · simp [hdash]
    · simp [hdash]
  have hgap : ¬(r.hi : Int) + 1 < ((r.hi + 1 : Nat) : Int) := by omega
  have hnext : ((r.hi + 1 : Nat) : Int) = r.hi + 1 := by omega
  rw [hardwareStep, if_pos ((numaBitmaskIsbitset_eq_true nodes _).mpr hi), if_neg (by dsimp only; omega)]
  dsimp only
  rw [if_neg hgap, if_pos hnext, hmark, Ranges.commas_append, printInt_natCast]
  by_cases hlast : r.hi + 1 = maxnode
  · rw [if_pos ⟨hlast, rfl⟩, if_pos hlast]
  · rw [if_neg fun h => hlast h.1, if_neg hlast, List.append_nil]

/-- One node is printed: the last range is open, but for the highest node. -/
theorem hardwareStep_of_mem {i : Nat} (hi : i ∈ nodes.bits) {st : NodeListState} (h : ListsBelow nodes.bits i st) :
    ∃ rs r, Canonical (rs ++ [r]) ∧ (∀ n, Has (rs ++ [r]) n ↔ n ∈ nodes.bits ∧ n < i + 1) ∧
      hardwareStep nodes maxnode st i =
        { prevnode := r.hi, skip := decide (r.lo < r.hi),
          out := commas (rs.map Range.text)
            (openText r ++ if i = maxnode ∧ r.lo < r.hi then decimal r.hi else []) } := by
  have hsingle : openText (Range.single i) = decimal i := by simp [openText, Range.single]
  have hnotdash : ¬(Range.single i).lo < (Range.single i).hi := Nat.lt_irrefl i
  cases h with
  | none hnone hst =>
      refine ⟨[], Range.single i, Ranges.canonical_nil.concat (by simp), ?_, ?_⟩
      · have hbelow : ∀ n, Has [] n ↔ n ∈ nodes.bits ∧ n < i := fun n =>
          iff_of_false (Ranges.not_has_nil n) fun hn => absurd (hnone n hn.1) (by omega)
        refine has_concat_iff hi hbelow fun n => ?_
        rw [Ranges.has_append, Ranges.has_singleton, Ranges.has_single]
      · subst hst
        rw [hardwareStep, if_pos ((numaBitmaskIsbitset_eq_true nodes i).mpr hi), if_pos rfl, hsingle,
          if_neg fun h => hnotdash h.2, decide_eq_false hnotdash]
        simp [Range.single]
  | last rs r hcan hhas hst =>
      have hhi := (hhas r.hi).mp (Ranges.has_append.mpr (Or.inr (Ranges.has_singleton.mpr ⟨r.le, le_rfl⟩)))
      subst hst
      obtain hgap | hnext := Nat.lt_or_ge (r.hi + 1) i
      · refine ⟨rs ++ [r], Range.single i, hcan.concat ?_, ?_, ?_⟩
        · intro r' hr'
          have hle := hcan.le_hi ⟨r', hr', r'.le, le_rfl⟩
          exact Nat.lt_of_le_of_lt (by omega) hgap
        · refine has_concat_iff hi hhas fun n => ?_
          rw [Ranges.has_append, Ranges.has_singleton, Ranges.has_single]
        · rw [hardwareStep_gap rs hi hgap, if_neg fun h => hnotdash h.2, List.append_nil, hsingle,
            decide_eq_false hnotdash]
          rfl
      · obtain rfl : i = r.hi + 1 := by omega
        have hgrown : r.extend.lo < r.extend.hi := Nat.lt_succ_of_le r.le
        refine ⟨rs, r.extend, hcan.extend, ?_, ?_⟩
        · refine has_concat_iff hi hhas fun n => ?_
          rw [Ranges.has_append, Ranges.has_append, Ranges.has_singleton, Ranges.has_singleton, Ranges.has_extend,
            or_assoc]
        · rw [hardwareStep_next rs hi, decide_eq_true hgrown]
          simp only [hgrown, and_true]
          rfl

theorem listsBelow_step {i : Nat} (hlt : i < maxnode) {st : NodeListState} (h : ListsBelow nodes.bits i st) :
    ListsBelow nodes.bits (i + 1) (hardwareStep nodes maxnode st i) := by
  by_cases hi : i ∈ nodes.bits
  · obtain ⟨rs, r, hcan, hhas, hstep⟩ := @hardwareStep_of_mem nodes maxnode i hi st h
    refine .last rs r hcan hhas ?_
    rw [hstep, if_neg fun hlast => absurd hlast.1 hlt.ne, List.append_nil]
  · rw [hardwareStep_of_notMem hi]
    cases h with
    | none hnone hst =>
        refine .none (fun n hn => ?_) hst
        have hle := hnone n hn
        have hne : n ≠ i := fun heq => hi (heq ▸ hn)
        omega
    | last rs r hcan hhas hst =>
        refine .last rs r hcan (fun n => (hhas n).trans ?_) hst
        refine and_congr_right fun hn => ?_
        have hne : n ≠ i := fun heq => hi (heq ▸ hn)
        omega

theorem listsBelow_foldl {k : Nat} (hk : k ≤ maxnode) :
    ListsBelow nodes.bits k ((List.range k).foldl (hardwareStep nodes maxnode)
      { prevnode := -1, skip := false, out := [] }) := by
  induction k with
  | zero => exact .none (fun n _ => Nat.zero_le n) rfl
  | succ k ih =>
      rw [List.range_succ, List.foldl_append]
      exact listsBelow_step hk (ih (by omega))

/-- The node list is the text of the canonical ranges of the nodes. -/
theorem hardwareNodeList_eq (hmax : IsGreatest (nodes.bits : Set Nat) maxnode) :
    ∃ rs, rs ≠ [] ∧ RangesOf nodes.bits rs ∧
      hardwareNodeList nodes maxnode = [','].intercalate (rs.map Range.text) := by
  obtain ⟨rs, r, hcan, hhas, hstep⟩ :=
    @hardwareStep_of_mem nodes maxnode maxnode hmax.1 _ (listsBelow_foldl (le_refl maxnode))
  have hS : ∀ n, Has (rs ++ [r]) n ↔ n ∈ nodes.bits := by
    refine fun n => (hhas n).trans (and_iff_left_of_imp fun hn => Nat.lt_succ_of_le (hmax.2 hn))
  refine ⟨rs ++ [r], by simp, hcan.rangesOf hS, ?_⟩
  have hclose := openText_close r
  rw [hardwareNodeList, List.range_succ, List.foldl_append, List.foldl_cons, List.foldl_nil, hstep,
    List.map_append, List.map_singleton]
  simp only [true_and, hclose]
  rfl

theorem countP_numaNodesPtr (hmax : IsGreatest (nodes.bits : Set Nat) maxnode) :
    ((List.range (maxnode + 1)).countP fun i => numaBitmaskIsbitset nodes i) = nodes.bits.card := by
  have hbits : nodes.bits = ((List.range (maxnode + 1)).filter fun i => numaBitmaskIsbitset nodes i).toFinset := by
    apply Finset.ext
    intro i
    rw [List.mem_toFinset, List.mem_filter, List.mem_range, numaBitmaskIsbitset_eq_true]
    exact ⟨fun hi => ⟨Nat.lt_succ_of_le (hmax.2 hi), hi⟩, And.right⟩
  rw [List.countP_eq_length_filter, ← List.toFinset_card_of_nodup (List.nodup_range.filter _), ← hbits]

/-- The number before the list is that of the nodes in it. -/
theorem hardwareAvailable_eq (hmax : IsGreatest (nodes.bits : Set Nat) maxnode) :
    hardwareAvailable nodes maxnode =
      "available: ".toList ++ decimal nodes.bits.card ++ " nodes (".toList ++ hardwareNodeList nodes maxnode ++
        ")\n".toList := by
  unfold hardwareAvailable
  rw [countP_numaNodesPtr hmax]

end Nodes

/-! ### Reading the ranges back -/

/-- The items of ranges of allowed nodes stand for their numbers. -/
theorem itemsMean_ranges {allowed : Finset Nat} (rs : List Range) (h : ∀ n, Has rs n → n ∈ allowed) :
    ∃ X, ItemsMean allowed false (rs.map Range.item) X ∧ ∀ n, n ∈ X ↔ Has rs n := by
  induction rs with
  | nil => exact ⟨∅, .nil, fun n => iff_of_false (Finset.notMem_empty n) (Ranges.not_has_nil n)⟩
  | cons r rs ih =>
      obtain ⟨X, hX, hmem⟩ := ih fun n ⟨r', hr', hn⟩ => h n ⟨r', List.mem_cons_of_mem r hr', hn⟩
      have hr : ∀ n, r.Has n → n ∈ allowed := fun n hn => h n ⟨r, List.mem_cons_self, hn⟩
      have hnames : ∀ n, r.Has n → Names allowed false n n := fun n hn => ⟨hr n hn, rfl⟩
      have hlo : r.Has r.lo := ⟨le_rfl, r.le⟩
      have hhi : r.Has r.hi := ⟨r.le, le_rfl⟩
      have hitem : ∃ Y, ItemMeans allowed false r.item Y ∧ ∀ n, n ∈ Y ↔ r.Has n := by
        by_cases heq : r.lo = r.hi
        · rw [Range.item, if_pos heq]
          refine ⟨_, .one (hnames _ hlo), fun n => ?_⟩
          rw [Finset.mem_singleton, Range.Has, ← heq]
          omega
        · rw [Range.item, if_neg heq]
          refine ⟨_, .range (hnames _ hlo) (hnames _ hhi), fun n => ?_⟩
          rw [Finset.mem_insert, Finset.mem_filter]
          refine ⟨fun hn => ?_, fun hn => Or.inr ⟨hr n hn, hn⟩⟩
          obtain rfl | hn := hn
          · exact hlo
          · exact hn.2
      obtain ⟨Y, hY, hmemY⟩ := hitem
      refine ⟨Y ∪ X, .cons hY hX, fun n => ?_⟩
      rw [Finset.mem_union, hmemY, hmem, Ranges.has_cons]

/-- A text of ranges of allowed nodes is a node list for their numbers, and is parsed into them. -/
theorem parse_ranges (g : Globals) (dv : Devices) {rs : List Range} (hne : rs ≠ []) {S : Finset Nat}
    (hS : ∀ n, Has rs n ↔ n ∈ S) (hsub : S ⊆ g.numaAllNodesPtr.bits) :
    NodeList g.numaAllNodesPtr.bits ([','].intercalate (rs.map Range.text)) S ∧
      (numaParseNodestring g dv ([','].intercalate (rs.map Range.text))).map Bitmask.bits = some S := by
  have hfits : g.numaAllNodesPtr.FitsIn g.nodemaskSz := g.all_nodes_size ▸ Bitmask.fitsIn_size _
  have hsize : g.numaAllNodesPtr.size < 2 ^ 31 := g.all_nodes_size ▸ g.nodemask_lt
  have hlt : ∀ r ∈ rs, r.hi < 2 ^ 64 := by
    intro r hr
    have hmem := hsub ((hS r.hi).mp ⟨r, hr, r.le, le_rfl⟩)
    have hbound := (Bitmask.mem_bits.mp hmem).1
    omega
  have hread (isWord : List Char → Bool) :
      ReadsList isWord ([','].intercalate (rs.map Range.text)) (rs.map Range.item) none :=
    NumberList.readsList_intercalate isWord (fun r hr => Range.readsItem_text (hlt r hr)) hne
  obtain ⟨X, hX, hmem⟩ := itemsMean_ranges rs fun n hn => hsub ((hS n).mp hn)
  obtain rfl : X = S := Finset.ext fun n => (hmem n).trans (hS n)
  have hhead : ∀ c, ([','].intercalate (rs.map Range.text)).head? = some c → CString.isDigitOf 10 c = true := by
    intro c hc
    obtain ⟨r, rs, rfl⟩ := List.exists_cons_of_ne_nil hne
    rw [List.map_cons, Ranges.head?_intercalate r.text_ne_nil] at hc
    exact Range.head?_text hc
  have hbang : ([','].intercalate (rs.map Range.text)).head? ≠ some '!' := fun h => absurd (hhead _ h) (by decide)
  have hplus : ([','].intercalate (rs.map Range.text)).head? ≠ some '+' := fun h => absurd (hhead _ h) (by decide)
  refine ⟨.absolute hplus ⟨_, none, _, hread _, hX, rfl⟩, ?_⟩
  have hnonempty : [','].intercalate (rs.map Range.text) ≠ [] := (hread isNodeWord).ne_nil rfl
  have hzero : g.numaAllocateNodemask.size = g.nodemaskSz := size_zeroBitmask _
  have hempty : g.numaAllocateNodemask.bits = ∅ := bits_zeroBitmask _
  rw [numaParseNodestring, parseNodestring, if_neg hnonempty,
    bits_parseString_iff (nodeMeaning g dv hfits) hbang hzero hempty, if_neg hplus]
  refine ⟨_, none, _, hread isNodeWord, ?_, rfl⟩
  exact (itemsSet_nodeArgs_iff g dv false hsize (fun i hi => hfits.lt hi) (hread isNodeWord) _).mpr hX

/-- The node list of `numactl --hardware` is the canonical range list of the nodes. Wherever they are allowed,
it is a node list of `numa_parse_nodestring`, and read back as the same nodes. -/
theorem hardwareNodeList_canonical {nodes : Bitmask} {maxnode : Nat}
    (hmax : IsGreatest (nodes.bits : Set Nat) maxnode) :
    (∃ rs, RangesOf nodes.bits rs ∧
        hardwareNodeList nodes maxnode = [','].intercalate (rs.map Range.text)) ∧
      ∀ (g : Globals) (dv : Devices), nodes.bits ⊆ g.numaAllNodesPtr.bits →
        NodeList g.numaAllNodesPtr.bits (hardwareNodeList nodes maxnode) nodes.bits ∧
          (numaParseNodestring g dv (hardwareNodeList nodes maxnode)).map Bitmask.bits = some nodes.bits := by
  obtain ⟨rs, hne, hranges, htext⟩ := hardwareNodeList_eq hmax
  refine ⟨⟨rs, hranges, htext⟩, fun g dv hsub => ?_⟩
  rw [htext]
  exact parse_ranges g dv hne hranges.has hsub

theorem hardwareNodeList_gap :
    (numaParseNodestring gapGlobals noDevices (hardwareNodeList gapGlobals.numaAllNodesPtr 2)).map Bitmask.bits =
      some gapGlobals.numaAllNodesPtr.bits := by
  have hbits : gapGlobals.numaAllNodesPtr.bits = {0, 2} := by decide +kernel
  have hmax : IsGreatest (gapGlobals.numaAllNodesPtr.bits : Set Nat) 2 := by
    rw [hbits]
    refine ⟨by simp, fun n hn => ?_⟩
    simp only [Finset.coe_insert, Finset.coe_singleton, Set.mem_insert_iff, Set.mem_singleton_iff] at hn
    omega
  exact ((hardwareNodeList_canonical hmax).2 gapGlobals noDevices (Finset.Subset.refl _)).2

/-! ### The CPUs of a node -/

/-- The inner loop: `start` and `i` after the set bits from `i` on. -/
def scanCpus (cpus : Bitmask) : Nat → Int → Nat → Int × Nat
  | 0, start, i => (start, i)
  | fuel + 1, start, i =>
      if i < cpus.size ∧ numaBitmaskIsbitset cpus i = true then
        scanCpus cpus fuel (if start = -1 then i else start) (i + 1)
      else (start, i)

/-- The variables of the outer loop with `--cpu-compress`, and what it has printed. -/
structure CpuRangesState where
  i : Nat
  segment : Nat
  count : Int
  out : List Char

/-- One round of the outer loop. -/
def cpuRangesStep (cpus : Bitmask) (st : CpuRangesState) : CpuRangesState :=
  let r := scanCpus cpus cpus.size (-1) st.i
  if r.1 = -1 then { st with i := r.2 + 1 }
  else
    let out := if st.segment ≠ 0 then st.out ++ [','] else st.out
    let last : Int := r.2 - 1
    { i := r.2
      segment := st.segment + 1
      count := st.count + (last - r.1) + 1
      out := out ++ if r.1 = last then ' ' :: printInt r.1 else ' ' :: printInt r.1 ++ '-' :: printInt last }

/-- The outer loop. Each round moves on, so there are at most as many rounds as CPUs in the mask. -/
def cpuRanges (cpus : Bitmask) : Nat → CpuRangesState → CpuRangesState
  | 0, st => st
  | fuel + 1, st => if st.i < cpus.size then cpuRanges cpus fuel (cpuRangesStep cpus st) else st

/-- `print_node_cpus` behind the query for the node's CPUs. -/
def printNodeCpus (cpuCompress : Bool) (r : CpusReply Bitmask) : List Char :=
  if r.ret < 0 then []
  else if cpuCompress then
    let st := cpuRanges r.buffer r.buffer.size { i := 0, segment := 0, count := 0, out := [] }
    st.out ++ " (".toList ++ printInt st.count ++ ")\n".toList
  else
    (List.range r.buffer.size).flatMap (fun i => if numaBitmaskIsbitset r.buffer i then ' ' :: decimal i else []) ++
      ['\n']

section Cpus

variable {cpus : Bitmask}

/-- The inner loop stops at the first number that is no CPU of the mask. -/
theorem scanCpus_spec {fuel i : Nat} (start : Int) (hfuel : cpus.size ≤ i + fuel) :
    ∃ stop, scanCpus cpus fuel start i = (if i < stop ∧ start = -1 then (i : Int) else start, stop) ∧ i ≤ stop ∧
      (∀ j, i ≤ j → j < stop → j ∈ cpus.bits) ∧ stop ∉ cpus.bits := by
  induction fuel generalizing i start with
  | zero =>
      refine ⟨i, by simp [scanCpus], le_rfl, fun j hij hj => absurd hj (by omega), fun hi => ?_⟩
      have hlt := (Bitmask.mem_bits.mp hi).1
      omega
  | succ fuel ih =>
      rw [scanCpus]
      by_cases hi : i ∈ cpus.bits
      · rw [if_pos ⟨(Bitmask.mem_bits.mp hi).1, (numaBitmaskIsbitset_eq_true cpus i).mpr hi⟩]
        obtain ⟨stop, hscan, hle, hall, hstop⟩ := @ih (i + 1) (if start = -1 then i else start) (by omega)
        refine ⟨stop, ?_, by omega, fun j hij hj => ?_, hstop⟩
        · have hlt : i < stop := by omega
          have hset : ¬(if start = -1 then (i : Int) else start) = -1 := by
            split
            · omega
            · assumption
          rw [hscan, if_neg fun h => hset h.2]
          by_cases hstart : start = -1
          · rw [if_pos hstart, if_pos ⟨hlt, hstart⟩]
          · rw [if_neg hstart, if_neg fun h => hstart h.2]
        · obtain rfl | hlt := Nat.eq_or_lt_of_le hij
          · exact hi
          · exact hall j hlt hj
      · rw [if_neg fun h => hi ((numaBitmaskIsbitset_eq_true cpus i).mp h.2)]
        exact ⟨i, by simp, le_rfl, fun j hij hj => absurd hj (by omega), hi⟩

/-- The ranges of the CPUs below `st.i` are printed, and the CPU at `st.i` does not go on with the last. -/
structure PrintedBelow (S : Finset Nat) (st : CpuRangesState) (rs : List Range) : Prop where
  canonical : Canonical rs
  has : ∀ n, Has rs n ↔ n ∈ S ∧ n < st.i
  gap : ∀ r ∈ rs, r.hi + 1 = st.i → st.i ∉ S
  segment : st.segment = rs.length
  count : st.count = ((rs.map Range.length).sum : Nat)
  out : st.out = [','].intercalate (rs.map fun r => ' ' :: r.text)

theorem cpuRangesStep_of_notMem {st : CpuRangesState} (hi : st.i ∉ cpus.bits) :
    cpuRangesStep cpus st = { st with i := st.i + 1 } := by
  obtain ⟨stop, hscan, hle, hall, -⟩ := @scanCpus_spec cpus cpus.size st.i (-1) (Nat.le_add_left _ _)
  obtain rfl : st.i = stop := hle.eq_of_not_lt fun hlt => hi (hall st.i le_rfl hlt)
  rw [if_neg fun h => Nat.lt_irrefl st.i h.1] at hscan
  rw [cpuRangesStep, hscan]
  exact if_pos rfl

/-- A round at a CPU of the mask prints the range that starts there. -/
theorem cpuRangesStep_of_mem {st : CpuRangesState} (hi : st.i ∈ cpus.bits) :
    ∃ r : Range, r.lo = st.i ∧ (∀ n, r.Has n → n ∈ cpus.bits) ∧ r.hi + 1 ∉ cpus.bits ∧
      cpuRangesStep cpus st =
        { i := r.hi + 1
          segment := st.segment + 1
          count := st.count + (r.length : Nat)
          out := (if st.segment ≠ 0 then st.out ++ [','] else st.out) ++ ' ' :: r.text } := by
  obtain ⟨stop, hscan, hle, hall, hstop⟩ := @scanCpus_spec cpus cpus.size st.i (-1) (Nat.le_add_left _ _)
  have hlt : st.i < stop := lt_of_le_of_ne hle fun heq => hstop (heq ▸ hi)
  obtain ⟨last, rfl⟩ : ∃ last, stop = last + 1 := ⟨stop - 1, by omega⟩
  refine ⟨⟨st.i, last, Nat.le_of_lt_succ hlt⟩, rfl, fun n hn => hall n hn.1 (Nat.lt_succ_of_le hn.2), hstop, ?_⟩
  rw [if_pos ⟨hlt, rfl⟩] at hscan
  rw [cpuRangesStep, hscan]
  dsimp only
  have hlast : ((last + 1 : Nat) : Int) - 1 = last := by omega
  rw [if_neg (by omega), hlast, CpuRangesState.mk.injEq, Range.text, Range.length, printInt_natCast, printInt_natCast]
  refine ⟨rfl, rfl, by dsimp only; omega, ?_⟩
  obtain heq | hne := em (st.i = last)
  · rw [if_pos heq, if_pos (congrArg Nat.cast heq)]
  · rw [if_neg hne, if_neg fun hcast => hne (Int.ofNat_inj.mp hcast)]
    rfl

section Printed

variable {S : Finset Nat} {st : CpuRangesState} {rs : List Range}

theorem PrintedBelow.hi_lt (h : PrintedBelow S st rs) {r : Range} (hr : r ∈ rs) : r.hi < st.i :=
  ((h.has r.hi).mp ⟨r, hr, r.le, le_rfl⟩).2

/-- A number that is no CPU of the mask is passed over. -/
theorem PrintedBelow.skip (h : PrintedBelow S st rs) (hi : st.i ∉ S) :
    PrintedBelow S { st with i := st.i + 1 } rs where
  canonical := h.canonical
  has n := by
    refine (h.has n).trans (and_congr_right fun hn => ?_)
    have hne : n ≠ st.i := fun heq => hi (heq ▸ hn)
    dsimp only
    omega
  gap r hr hnext := absurd (Nat.succ_inj.mp hnext) (h.hi_lt hr).ne
  segment := h.segment
  count := h.count
  out := h.out

/-- The next range is printed behind a comma, unless it is the first. -/
theorem PrintedBelow.concat (h : PrintedBelow S st rs) {r : Range} (hlo : r.lo = st.i) (hall : ∀ n, r.Has n → n ∈ S)
    (hstop : r.hi + 1 ∉ S) :
    PrintedBelow S
      { i := r.hi + 1
        segment := st.segment + 1
        count := st.count + (r.length : Nat)
        out := (if st.segment ≠ 0 then st.out ++ [','] else st.out) ++ ' ' :: r.text } (rs ++ [r]) where
  canonical := by
    refine h.canonical.concat fun r' hr' => ?_
    have hhi := h.hi_lt hr'
    have hgap : r'.hi + 1 ≠ st.i := fun hnext => h.gap r' hr' hnext (hlo ▸ hall r.lo ⟨le_rfl, r.le⟩)
    omega
  has n := by
    rw [Ranges.has_append, h.has, Ranges.has_singleton]
    have hle := r.le
    constructor
    · rintro (⟨hn, hlt⟩ | hn)
      · exact ⟨hn, by dsimp only; omega⟩
      · exact ⟨hall n hn, Nat.lt_succ_of_le hn.2⟩
    · rintro ⟨hn, hlt⟩
      obtain hbelow | hfrom := Nat.lt_or_ge n st.i
      · exact Or.inl ⟨hn, hbelow⟩
      · exact Or.inr ⟨hlo.trans_le hfrom, Nat.le_of_lt_succ hlt⟩
  gap _ _ _ := hstop
  segment := by rw [List.length_append, List.length_singleton, h.segment]
  count := by
    rw [List.map_append, List.map_singleton, List.sum_append, List.sum_singleton, h.count]
    rfl
  out := by
    rw [List.map_append, List.map_singleton, h.segment, h.out]
    obtain rfl | hne := eq_or_ne rs []
    · rw [List.map_nil, List.nil_append, List.intercalate_singleton, if_neg (by simp), List.intercalate_nil]
      rfl
    · have hlen : rs.length ≠ 0 := mt List.length_eq_zero_iff.mp hne
      have hmap : rs.map (fun r => ' ' :: r.text) ≠ [] := mt List.map_eq_nil_iff.mp hne
      rw [if_pos hlen, Ranges.intercalate_concat hmap, List.append_assoc]
      rfl

end Printed

/-- One round prints the next range, or passes over a number that is no CPU of the mask. -/
theorem cpuRangesStep_spec {st : CpuRangesState} {rs : List Range} (h : PrintedBelow cpus.bits st rs) :
    ∃ rs', PrintedBelow cpus.bits (cpuRangesStep cpus st) rs' ∧ st.i < (cpuRangesStep cpus st).i := by
  by_cases hi : st.i ∈ cpus.bits
  · obtain ⟨r, hlo, hall, hstop, hstep⟩ := cpuRangesStep_of_mem hi
    rw [hstep]
    have hle := r.le
    exact ⟨rs ++ [r], h.concat hlo hall hstop, by dsimp only; omega⟩
  · rw [cpuRangesStep_of_notMem hi]
    exact ⟨rs, h.skip hi, Nat.lt_succ_self st.i⟩

/-- The outer loop prints all ranges. -/
theorem cpuRanges_spec {fuel : Nat} {st : CpuRangesState} {rs : List Range} (h : PrintedBelow cpus.bits st rs)
    (hfuel : cpus.size ≤ st.i + fuel) :
    ∃ rs', PrintedBelow cpus.bits (cpuRanges cpus fuel st) rs' ∧ cpus.size ≤ (cpuRanges cpus fuel st).i := by
  induction fuel generalizing st rs with
  | zero => exact ⟨rs, h, hfuel⟩
  | succ fuel ih =>
      rw [cpuRanges]
      split
      · obtain ⟨rs', h', hlt⟩ := cpuRangesStep_spec h
        exact ih h' (by omega)
      · exact ⟨rs, h, by omega⟩

/-- With `--cpu-compress`, the canonical ranges of the mask and its weight are printed. -/
theorem printNodeCpus_compress (cpus : Bitmask) :
    ∃ rs, RangesOf cpus.bits rs ∧ printNodeCpus true ⟨0, none, cpus⟩ =
      [','].intercalate (rs.map fun r => ' ' :: r.text) ++
        (" (".toList ++ decimal (numaBitmaskWeight cpus) ++ ")\n".toList) := by
  have hnone : ∀ n, Has [] n ↔ n ∈ cpus.bits ∧ n < 0 := fun n =>
    iff_of_false (Ranges.not_has_nil n) fun hn => absurd hn.2 (Nat.not_lt_zero n)
  have hstart : PrintedBelow cpus.bits { i := 0, segment := 0, count := 0, out := [] } [] :=
    ⟨Ranges.canonical_nil, hnone, fun r hr => absurd hr List.not_mem_nil, rfl, rfl, rfl⟩
  obtain ⟨rs, h, hend⟩ := @cpuRanges_spec cpus cpus.size _ _ hstart (Nat.le_add_left _ _)
  have hS : ∀ n, Has rs n ↔ n ∈ cpus.bits := fun n =>
    (h.has n).trans (and_iff_left_of_imp fun hn => (Bitmask.mem_bits.mp hn).1.trans_le hend)
  refine ⟨rs, h.canonical.rangesOf hS, ?_⟩
  rw [printNodeCpus, if_neg (lt_irrefl 0), if_pos rfl]
  dsimp only
  rw [h.out, h.count, printInt_natCast, h.canonical.sum_length hS, numaBitmaskWeight_eq, List.append_assoc,
    List.append_assoc, List.append_assoc]

/-- Without it, the CPUs of the mask are printed in ascending order. -/
theorem printNodeCpus_single (cpus : Bitmask) :
    ∃ cs : List Nat, cs.Pairwise (· < ·) ∧ (∀ n, n ∈ cs ↔ n ∈ cpus.bits) ∧
      printNodeCpus false ⟨0, none, cpus⟩ = cs.flatMap (fun c => ' ' :: decimal c) ++ ['\n'] := by
  refine ⟨(List.range cpus.size).filter fun i => numaBitmaskIsbitset cpus i, ?_, fun n => ?_, ?_⟩
  · exact List.pairwise_lt_range.filter _
  · rw [List.mem_filter, List.mem_range, numaBitmaskIsbitset_eq_true, Bitmask.mem_bits]
    exact and_iff_right_of_imp And.left
  · have hflat (is : List Nat) : is.flatMap (fun i => if numaBitmaskIsbitset cpus i then ' ' :: decimal i else []) =
        (is.filter fun i => numaBitmaskIsbitset cpus i).flatMap fun c => ' ' :: decimal c := by
      induction is with
      | nil => rfl
      | cons i is ih =>
          rw [List.flatMap_cons, ih, List.filter_cons]
          by_cases hi : numaBitmaskIsbitset cpus i = true
          · rw [if_pos hi, if_pos hi, List.flatMap_cons]
          · rw [if_neg hi, if_neg hi, List.nil_append]
    rw [printNodeCpus, if_neg (lt_irrefl 0), if_neg Bool.false_ne_true, hflat]

end Cpus

/-- The items of ranges of CPUs that are allowed, configured and below `n` stand for their numbers. -/
theorem itemsSet_ranges (g : Globals) {allowed : Bitmask} {n : Nat}
    (hallowed : ∀ c ∈ allowed.bits, c < g.numConfiguredCpus ∧ c < n) (rs : List Range)
    (h : ∀ c, Has rs c → c ∈ allowed.bits) :
    ∃ X, (cpuArgs g allowed false).itemsSet n (rs.map Range.item) = some X ∧ ∀ c, c ∈ X ↔ Has rs c := by
  induction rs with
  | nil => exact ⟨∅, rfl, fun c => iff_of_false (Finset.notMem_empty c) (Ranges.not_has_nil c)⟩
  | cons r rs ih =>
      obtain ⟨X, hX, hmem⟩ := ih fun c ⟨r', hr', hc⟩ => h c ⟨r', List.mem_cons_of_mem r hr', hc⟩
      have hr : ∀ c, r.Has c → c ∈ allowed.bits := fun c hc => h c ⟨r, List.mem_cons_self, hc⟩
      have hin : ∀ c, r.Has c → (cpuArgs g allowed false).outOfRange ((cpuArgs g allowed false).nr c) = false :=
        fun c hc => decide_eq_false (Nat.not_le.mpr (hallowed c (hr c hc)).1)
      have hlo : r.Has r.lo := ⟨le_rfl, r.le⟩
      have hhi : r.Has r.hi := ⟨r.le, le_rfl⟩
      have hitem : ∃ Y, (cpuArgs g allowed false).itemSet n r.item = some Y ∧ ∀ c, c ∈ Y ↔ r.Has c := by
        by_cases heq : r.lo = r.hi
        · rw [Range.item, if_pos heq, ListArgs.itemSet, hin _ hlo, if_neg Bool.false_ne_true]
          refine ⟨_, rfl, fun c => ?_⟩
          rw [Finset.mem_filter, Finset.mem_singleton, Range.Has, ← heq]
          refine ⟨fun hc => ⟨hc.1.ge, hc.1.le⟩, fun hc => ⟨le_antisymm hc.2 hc.1, ?_⟩⟩
          exact (hallowed c (hr c (by rwa [Range.Has, ← heq]))).2
        · rw [Range.item, if_neg heq, ListArgs.itemSet, hin _ hlo, hin _ hhi, if_neg Bool.false_ne_true,
            if_neg Bool.false_ne_true]
          refine ⟨_, rfl, fun c => ?_⟩
          rw [Finset.mem_filter, Finset.mem_insert, Finset.mem_filter]
          refine ⟨fun hc => ?_, fun hc => ⟨Or.inr ⟨hr c hc, hc⟩, (hallowed c (hr c hc)).2⟩⟩
          obtain rfl | hc := hc.1
          · exact hlo
          · exact hc.2
      obtain ⟨Y, hY, hmemY⟩ := hitem
      refine ⟨Y ∪ X, ?_, fun c => ?_⟩
      · rw [List.map_cons, ListArgs.itemsSet, hY, hX]
        rfl
      · rw [Finset.mem_union, hmemY, hmem, Ranges.has_cons]

theorem bits_numaPossibleCpusPtr (g : Globals) (c : Nat) :
    c ∈ g.numaPossibleCpusPtr.bits ↔ c < g.numConfiguredCpus ∧ c < g.cpumaskSz := by
  have hfold : (List.range g.numConfiguredCpus).foldl numaBitmaskSetbit (zeroBitmask g.cpumaskSz) =
      (List.range g.numConfiguredCpus).foldl (fun b k => setbit b k true) (zeroBitmask g.cpumaskSz) := rfl
  rw [Globals.numaPossibleCpusPtr, hfold, bits_foldl_setbit, bits_zeroBitmask, size_zeroBitmask, Finset.empty_union,
    Finset.mem_filter, List.mem_toFinset, List.mem_range]

/-- Ranges of possible CPUs are read back as their numbers. -/
theorem parse_cpuRanges (g : Globals) {rs : List Range} {S : Finset Nat} (hS : ∀ n, Has rs n ↔ n ∈ S)
    (hsub : S ⊆ g.numaPossibleCpusPtr.bits) :
    (numaParseCpustringAll g ([','].intercalate (rs.map fun r => ' ' :: r.text))).map Bitmask.bits = some S := by
  obtain rfl | hne := eq_or_ne rs []
  · obtain rfl : S = ∅ := Finset.eq_empty_of_forall_notMem fun n hn => Ranges.not_has_nil n ((hS n).mpr hn)
    exact congrArg some (bits_zeroBitmask _)
  have hmem : ∀ n, Has rs n → n ∈ g.numaPossibleCpusPtr.bits := fun n hn => hsub ((hS n).mp hn)
  have hfits : g.numaPossibleCpusPtr.FitsIn g.cpumaskSz := ListParser.fitsIn_allowed g .cpustringAll
  have hlt : ∀ r ∈ rs, r.hi < 2 ^ 64 := by
    intro r hr
    have hbound := ((bits_numaPossibleCpusPtr g r.hi).mp (hmem r.hi ⟨r, hr, r.le, le_rfl⟩)).2
    have hsize := g.cpumask_lt
    omega
  have hread : ReadsList (cpuMeaning g hfits false).isWord ([','].intercalate (rs.map fun r => ' ' :: r.text))
      (rs.map Range.item) none :=
    NumberList.readsList_intercalate _ (fun r hr => (Range.readsItem_text (hlt r hr)).cons_space rfl) hne
  have hhead : ([','].intercalate (rs.map fun r => ' ' :: r.text)).head? = some ' ' := by
    obtain ⟨r, rs, rfl⟩ := List.exists_cons_of_ne_nil hne
    rw [List.map_cons, Ranges.head?_intercalate (List.cons_ne_nil _ _)]
    rfl
  obtain ⟨X, hX, hmemX⟩ := itemsSet_ranges g (fun c => (bits_numaPossibleCpusPtr g c).mp) rs hmem
  obtain rfl : X = S := Finset.ext fun n => (hmemX n).trans (hS n)
  have hempty : g.numaAllocateCpumask.bits = ∅ := bits_zeroBitmask _
  have hzero : g.numaAllocateCpumask.size = g.cpumaskSz := size_zeroBitmask _
  have hnonempty : [','].intercalate (rs.map fun r => ' ' :: r.text) ≠ [] := hread.ne_nil rfl
  rw [numaParseCpustringAll, parseCpustring, if_neg hnonempty, parseString, hhead]
  simp only [Option.some.injEq, Char.reduceEq, if_false, decide_false, Bool.false_eq_true, Option.map_id', hhead]
  rw [bits_parseItems (cpuMeaning g hfits false) hread hzero hempty, hX]
  rfl

/-- With `--cpu-compress`, `print_node_cpus` prints the canonical ranges of the mask and its weight. The ranges
are read back as the mask by `numa_parse_cpustring_all`, which knows all its CPUs where they are configured,
and stand for the CPUs printed one by one without the option. -/
theorem printNodeCpus_ranges (cpus : Bitmask) :
    ∃ (rs : List Range) (text : List Char) (cs : List Nat), RangesOf cpus.bits rs ∧
      text = [','].intercalate (rs.map fun r => ' ' :: r.text) ∧
      printNodeCpus true ⟨0, none, cpus⟩ =
        text ++ (" (".toList ++ decimal (numaBitmaskWeight cpus) ++ ")\n".toList) ∧
      (∀ g : Globals, cpus.size ≤ g.cpumaskSz → (∀ c ∈ cpus.bits, c < g.numConfiguredCpus) →
        (numaParseCpustringAll g text).map Bitmask.bits = some cpus.bits) ∧
      cs.Pairwise (· < ·) ∧ (∀ c, c ∈ cs ↔ Has rs c) ∧
      printNodeCpus false ⟨0, none, cpus⟩ = cs.flatMap (fun c => ' ' :: decimal c) ++ ['\n'] := by
  obtain ⟨rs, hranges, hprint⟩ := printNodeCpus_compress cpus
  obtain ⟨cs, hsorted, hmem, hsingle⟩ := printNodeCpus_single cpus
  refine ⟨rs, _, cs, hranges, rfl, hprint, fun g hsize hconf => ?_, hsorted, fun c => ?_, hsingle⟩
  · refine parse_cpuRanges g hranges.has fun c hc => (bits_numaPossibleCpusPtr g c).mpr ⟨hconf c hc, ?_⟩
    exact (Bitmask.mem_bits.mp hc).1.trans_le hsize
  · exact (hmem c).trans (hranges.has c).symm

theorem printNodeCpus_ranges_odd :
    ∃ text, printNodeCpus true ⟨0, none, oddGlobals.numaAllCpusPtr⟩ = text ++ " (2)\n".toList ∧
      (numaParseCpustringAll oddGlobals text).map Bitmask.bits = some {1, 3} := by
  obtain ⟨_, text, _, _, _, hprint, hread, _⟩ := printNodeCpus_ranges oddGlobals.numaAllCpusPtr
  have hconf : ∀ c ∈ oddGlobals.numaAllCpusPtr.bits, c < oddGlobals.numConfiguredCpus := by
    rw [oddGlobals_bits]
    decide
  have hweight : numaBitmaskWeight oddGlobals.numaAllCpusPtr = 2 := by
    rw [numaBitmaskWeight_eq, oddGlobals_bits]
    rfl
  refine ⟨text, ?_, ?_⟩
  · rw [hprint, hweight]
    rfl
  · rw [hread oddGlobals oddGlobals.all_cpus_size.le hconf, oddGlobals_bits]

end Numactl
