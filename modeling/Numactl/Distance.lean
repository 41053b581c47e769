import Mathlib.Data.Finset.Max
import Numactl.Base.NumberList
import Numactl.Base.Runs
import Numactl.Bitmask

/-! Node distances (`distance.c`), read from the files `node<n>/distance` in sysfs, and the nodes there are
(`set_configured_nodes` in `libnuma.c`), read from the names of the directories. Node numbers and places in
the table are taken to fit an `int`. -/

namespace Numactl

open CString (strtoul)
open NumberList (Numeral ReadsRow)

structure ConfiguredNodes where
  numaMemnodePtr : Bitmask
  numaNodesPtr : Bitmask
  maxconfigurednode : Int

namespace ConfiguredNodes

/-- The number in the name of a node directory. -/
def nodeEntry (dName : List Char) : Option Nat :=
  if dName.take 4 ≠ "node".toList then none else some (strtoul 0 (dName.drop 4)).1

def addNode (c : ConfiguredNodes) (nd : Nat) : ConfiguredNodes where
  numaMemnodePtr := numaBitmaskSetbit c.numaMemnodePtr nd
  numaNodesPtr := numaBitmaskSetbit c.numaNodesPtr nd
  maxconfigurednode := if c.maxconfigurednode < nd then nd else c.maxconfigurednode

end ConfiguredNodes

/-- The names are those in `/sys/devices/system/node`, if it can be opened. -/
def setConfiguredNodes (nodemaskSz : Nat) (names : Option (List (List Char))) : ConfiguredNodes :=
  match names with
  | none => ⟨zeroBitmask nodemaskSz, zeroBitmask nodemaskSz, 0⟩
  | some names =>
      (names.filterMap ConfiguredNodes.nodeEntry).foldl ConfiguredNodes.addNode
        ⟨zeroBitmask nodemaskSz, zeroBitmask nodemaskSz, -1⟩

def numaMaxNode (c : ConfiguredNodes) : Int := c.maxconfigurednode

/-- A file `node<n>/distance`: it does not exist, opening it fails otherwise, or what it holds. -/
inductive DistanceFile where
  | missing
  | unreadable
  | text (s : List Char)

/-- The nodes that were found, and the row files by node number. -/
structure DistanceSystem where
  nodes : ConfiguredNodes
  files : List DistanceFile

/-- The rows one after the other, of `int`s. -/
abbrev DistanceTable := List (BitVec 32)

/-- `distance_numnodes` and `distance_table`. -/
structure DistanceCache where
  distanceNumnodes : Nat
  distanceTable : Option DistanceTable

def DistanceCache.initial : DistanceCache := ⟨0, none⟩

def numaDistanceCleanup (_ : DistanceCache) : DistanceCache := ⟨0, none⟩

namespace DistanceSystem

variable (sys : DistanceSystem)

/-- The `maxnode` of `read_distance_table`, one more than that of `parse_numbers`. -/
def maxnode : Nat := (numaMaxNode sys.nodes + 1).toNat

/-- From `j` over the nodes that are not there. -/
def skipUnavailable : Nat → Nat → Nat
  | 0, j => j
  | fuel + 1, j =>
      if j < sys.maxnode ∧ ¬numaBitmaskIsbitset sys.nodes.numaNodesPtr j then skipUnavailable fuel (j + 1) else j

/-- The loop of `parse_numbers` with so many rounds left. The row is at `iptr`; nothing is returned when a
number would be stored outside of the table. -/
def parseLoop (iptr : Nat) : Nat → Nat → List Char → DistanceTable → Option DistanceTable
  | 0, _, _, table => some table
  | left + 1, j, s, table =>
      let d := strtoul 0 s
      let j := sys.skipUnavailable sys.maxnode j
      if s = d.2 then some table
      else if iptr + j < table.length then
        parseLoop iptr left (j + 1) d.2 (table.set (iptr + j) (BitVec.ofNat 32 d.1))
      else none

def parseNumbers (s : List Char) (iptr : Nat) (table : DistanceTable) : Option DistanceTable :=
  sys.parseLoop iptr sys.maxnode 0 s table

/-- `getdelim`: the text up to a newline, which is included. -/
def getLine (s : List Char) : List Char := s.takeWhile (· ≠ '\n') ++ (s.dropWhile (· ≠ '\n')).take 1

/-- The loop of `read_distance_table`: its `err`, and its `table` unless that is still a null pointer. -/
def readRows : Nat → Nat → Int → Option DistanceTable → Option (Int × Option DistanceTable)
  | 0, _, _, _ => none
  | fuel + 1, nd, err, table =>
      match sys.files.getD nd .missing with
      | .missing => if nd < sys.maxnode then readRows fuel (nd + 1) 0 table else some (0, table)
      | .unreadable =>
          if err = 0 ∧ nd < sys.maxnode then readRows fuel (nd + 1) err table else some (err, table)
      | .text s =>
          if (getLine s).length ≤ 0 then some (err, table)
          else
            match sys.parseNumbers (getLine s) (nd * sys.maxnode)
              (table.getD (List.replicate (sys.maxnode * sys.maxnode) 0)) with
            | none => none
            | some table => readRows fuel (nd + 1) err (some table)

/-- `read_distance_table`: what it returns, and the cache afterwards. The loop ends at the latest at the
first number with neither a file nor a node. -/
def readDistanceTable (cache : DistanceCache) : Option (Int × DistanceCache) :=
  match sys.readRows (max sys.files.length sys.maxnode + 1) 0 (-1) none with
  | none => none
  | some (err, table) =>
      if err ≠ 0 then some (err, cache)
      else if cache.distanceTable.isSome then some (0, cache)
      else some (0, ⟨sys.maxnode, table⟩)

/-- The end of `numa_distance`. -/
def lookup (cache : DistanceCache) (a b : BitVec 32) : Option (BitVec 32) :=
  match cache.distanceTable with
  | none => some 0
  | some table =>
      if cache.distanceNumnodes ≤ a.toNat ∨ cache.distanceNumnodes ≤ b.toNat then some 0
      else table[a.toNat * cache.distanceNumnodes + b.toNat]?

/-- `numa_distance`: what it returns, and the cache afterwards. -/
def numaDistance (cache : DistanceCache) (a b : BitVec 32) : Option (BitVec 32 × DistanceCache) :=
  if cache.distanceTable.isNone then
    match sys.readDistanceTable cache with
    | none => none
    | some (err, cache) => if err < 0 then some (0, cache) else (lookup cache a b).map (·, cache)
  else (lookup cache a b).map (·, cache)

end DistanceSystem

/-- Calls of the library, by any of its users. -/
inductive DistanceCall where
  | distance (a b : BitVec 32)
  | cleanup

/-- One call, unless an earlier one has left the table. -/
def DistanceSystem.step (sys : DistanceSystem) : Option DistanceCache → DistanceCall → Option DistanceCache
  | none, _ => none
  | some cache, .distance a b => (sys.numaDistance cache a b).map (·.2)
  | some cache, .cleanup => some (numaDistanceCleanup cache)

/-! ### The nodes found -/

namespace ConfiguredNodes

theorem bits_foldl_addNode {c : ConfiguredNodes} (nds : List Nat) :
    (nds.foldl addNode c).numaNodesPtr.bits =
      c.numaNodesPtr.bits ∪ nds.toFinset.filter (· < c.numaNodesPtr.size) := by
  have hfold : (nds.foldl addNode c).numaNodesPtr = nds.foldl (fun b k => setbit b k true) c.numaNodesPtr := by
    induction nds generalizing c with
    | nil => rfl
    | cons nd nds ih =>
        rw [List.foldl_cons, ih]
        rfl
  rw [hfold, bits_foldl_setbit]

/-- The highest number is that of the last node, unless none is added. -/
theorem maxconfigurednode_foldl_addNode {c : ConfiguredNodes} (nds : List Nat) :
    (∀ nd ∈ nds, (nd : Int) ≤ (nds.foldl addNode c).maxconfigurednode) ∧
      c.maxconfigurednode ≤ (nds.foldl addNode c).maxconfigurednode ∧
      ((nds.foldl addNode c).maxconfigurednode = c.maxconfigurednode ∨
        ∃ nd ∈ nds, (nds.foldl addNode c).maxconfigurednode = nd) := by
  induction nds generalizing c with
  | nil => simp
  | cons nd nds ih =>
      rw [List.foldl_cons]
      obtain ⟨hmem, hle, hmax⟩ := ih (c := addNode c nd)
      have hadd : c.maxconfigurednode ≤ (addNode c nd).maxconfigurednode ∧
          (nd : Int) ≤ (addNode c nd).maxconfigurednode ∧
          ((addNode c nd).maxconfigurednode = c.maxconfigurednode ∨ (addNode c nd).maxconfigurednode = nd) := by
        rw [addNode]
        dsimp only
        split <;> omega
      refine ⟨fun k hk => ?_, hadd.1.trans hle, ?_⟩
      · obtain rfl | hk := List.mem_cons.mp hk
        · exact hadd.2.1.trans hle
        · exact hmem k hk
      · obtain hmax | ⟨k, hk, hmax⟩ := hmax
        · obtain hold | hnew := hadd.2.2
          · exact Or.inl (hmax.trans hold)
          · exact Or.inr ⟨nd, List.mem_cons_self, hmax.trans hnew⟩
        · exact Or.inr ⟨k, List.mem_cons_of_mem nd hk, hmax⟩

end ConfiguredNodes

/-- The directories of the nodes in `S`. Other names do not start with `node`. -/
structure NodeDirs (names : List (List Char)) (S : Finset Nat) : Prop where
  dir : ∀ n ∈ S, ∃ t, Numeral t n ∧ "node".toList ++ t ∈ names
  only : ∀ name ∈ names, name.take 4 = "node".toList → ∃ n ∈ S, ∃ t, Numeral t n ∧ name = "node".toList ++ t

namespace NodeDirs

variable {names : List (List Char)} {S : Finset Nat}

theorem nodeEntry_dir {t : List Char} {n : Nat} (h : Numeral t n) :
    ConfiguredNodes.nodeEntry ("node".toList ++ t) = some n := by
  have htake : ("node".toList ++ t).take 4 = "node".toList := List.take_left' rfl
  have hdrop : ("node".toList ++ t).drop 4 = t := List.drop_left' rfl
  rw [ConfiguredNodes.nodeEntry, if_neg (not_not_intro htake), hdrop, h.2]

theorem mem_entries (h : NodeDirs names S) {n : Nat} :
    n ∈ names.filterMap ConfiguredNodes.nodeEntry ↔ n ∈ S := by
  rw [List.mem_filterMap]
  constructor
  · rintro ⟨name, hname, hentry⟩
    by_cases htake : name.take 4 = "node".toList
    · obtain ⟨k, hk, t, ht, rfl⟩ := h.only name hname htake
      rw [nodeEntry_dir ht, Option.some.injEq] at hentry
      exact hentry ▸ hk
    · rw [ConfiguredNodes.nodeEntry, if_pos htake] at hentry
      cases hentry
  · intro hn
    obtain ⟨t, ht, hmem⟩ := h.dir n hn
    exact ⟨_, hmem, nodeEntry_dir ht⟩

variable {nodemaskSz : Nat}

theorem bits_setConfiguredNodes (h : NodeDirs names S) (hS : ∀ n ∈ S, n < nodemaskSz) :
    (setConfiguredNodes nodemaskSz (some names)).numaNodesPtr.bits = S := by
  rw [setConfiguredNodes, ConfiguredNodes.bits_foldl_addNode]
  ext n
  rw [bits_zeroBitmask, Finset.empty_union, Finset.mem_filter, List.mem_toFinset, h.mem_entries]
  exact and_iff_left_of_imp (hS n)

theorem le_numaMaxNode (h : NodeDirs names S) {n : Nat} (hn : n ∈ S) :
    (n : Int) ≤ numaMaxNode (setConfiguredNodes nodemaskSz (some names)) :=
  (ConfiguredNodes.maxconfigurednode_foldl_addNode _).1 n (h.mem_entries.mpr hn)

end NodeDirs

/-! ### One row -/

/-- How many nodes there are from `j` up to `n`. -/
def rankFrom (S : Finset Nat) (j n : Nat) : Nat := (S.filter fun m => j ≤ m ∧ m < n).card

/-- The rank of a node among those of a set. -/
def nodeRank (S : Finset Nat) (n : Nat) : Nat := (S.filter (· < n)).card

section Rank

variable {S : Finset Nat} {j m n : Nat}

theorem rankFrom_zero : rankFrom S 0 n = nodeRank S n := by
  simp [rankFrom, nodeRank]

/-- The first node from `j` on, if there is one. -/
theorem exists_next (h : 0 < (S.filter (j ≤ ·)).card) : ∃ m ∈ S, j ≤ m ∧ ∀ i, j ≤ i → i < m → i ∉ S := by
  have hne := Finset.card_pos.mp h
  obtain ⟨hm, hjm⟩ := Finset.mem_filter.mp (Finset.min'_mem _ hne)
  refine ⟨_, hm, hjm, fun i hji him hi => ?_⟩
  exact absurd him (Nat.not_lt.mpr (Finset.min'_le _ i (Finset.mem_filter.mpr ⟨hi, hji⟩)))

theorem card_after_next (hm : m ∈ S) (hjm : j ≤ m) (hnext : ∀ i, j ≤ i → i < m → i ∉ S) :
    (S.filter (j ≤ ·)).card = (S.filter (m + 1 ≤ ·)).card + 1 := by
  have hinsert : S.filter (j ≤ ·) = insert m (S.filter (m + 1 ≤ ·)) := by
    ext i
    simp only [Finset.mem_filter, Finset.mem_insert]
    constructor
    · rintro ⟨hi, hji⟩
      have hmi : ¬i < m := fun h => hnext i hji h hi
      by_cases heq : i = m
      · exact Or.inl heq
      · exact Or.inr ⟨hi, by omega⟩
    · rintro (rfl | ⟨hi, hmi⟩)
      · exact ⟨hm, hjm⟩
      · exact ⟨hi, by omega⟩
  rw [hinsert, Finset.card_insert_of_notMem (by simp)]

theorem rankFrom_next (hnext : ∀ i, j ≤ i → i < m → i ∉ S) : rankFrom S j m = 0 := by
  rw [rankFrom, Finset.card_eq_zero, Finset.filter_eq_empty_iff]
  rintro i hi ⟨hji, him⟩
  exact hnext i hji him hi

theorem rankFrom_after_next (hm : m ∈ S) (hjm : j ≤ m) (hnext : ∀ i, j ≤ i → i < m → i ∉ S) (hmn : m < n) :
    rankFrom S j n = rankFrom S (m + 1) n + 1 := by
  have hfilter : ∀ k, (S.filter fun i => k ≤ i ∧ i < n) = (S.filter (· < n)).filter (k ≤ ·) := by
    intro k
    rw [Finset.filter_filter]
    exact Finset.filter_congr fun i _ => and_comm
  rw [rankFrom, rankFrom, hfilter, hfilter]
  exact card_after_next (Finset.mem_filter.mpr ⟨hm, hmn⟩) hjm fun i hji him hi =>
    hnext i hji him (Finset.mem_filter.mp hi).1

theorem rankFrom_lt_card (hn : n ∈ S) (hjn : j ≤ n) : rankFrom S j n < (S.filter (j ≤ ·)).card := by
  rw [rankFrom]
  apply Finset.card_lt_card
  refine (Finset.ssubset_iff_of_subset fun i hi => ?_).mpr ⟨n, ?_, ?_⟩
  · rw [Finset.mem_filter] at hi ⊢
    exact ⟨hi.1, hi.2.1⟩
  · exact Finset.mem_filter.mpr ⟨hn, hjn⟩
  · simp

end Rank

/-- What one row file holds: a single line, with these numbers. -/
structure RowFile (s : List Char) (vs : List Nat) : Prop where
  oneLine : '\n' ∉ s.dropLast
  reads : ReadsRow s vs

theorem RowFile.getLine_eq {s : List Char} {vs : List Nat} (h : RowFile s vs) :
    DistanceSystem.getLine s = s := by
  obtain rfl | hne := eq_or_ne s []
  · rfl
  · have hline : ∀ c ∈ s.dropLast, decide (c ≠ '\n') = true := fun c hc => by
      rw [decide_eq_true_eq]
      rintro rfl
      exact h.oneLine hc
    rw [DistanceSystem.getLine, ← List.dropLast_append_getLast hne, List.takeWhile_append_of_pos hline,
      List.dropWhile_append_of_pos hline, List.append_assoc]
    by_cases hlast : s.getLast hne = '\n'
    · simp [hlast]
    · simp [hlast]

/-- What storing a row does: each node's number is in its column, the other places are as before. -/
structure StoresRow (S : Finset Nat) (iptr j : Nat) (vs : List Nat) (table table' : DistanceTable) : Prop where
  length : table'.length = table.length
  column : ∀ n ∈ S, j ≤ n → table'[iptr + n]? = vs[rankFrom S j n]?.map (BitVec.ofNat 32)
  others : ∀ k, (∀ n ∈ S, j ≤ n → k ≠ iptr + n) → table'[k]? = table[k]?

/-- The nodes found are those of `S`, and the table has a row and a column for each. -/
structure FindsNodes (sys : DistanceSystem) (S : Finset Nat) : Prop where
  bits : sys.nodes.numaNodesPtr.bits = S
  lt_maxnode : ∀ n ∈ S, n < sys.maxnode

namespace DistanceSystem

variable {sys : DistanceSystem} {S : Finset Nat}

theorem skipUnavailable_eq (h : FindsNodes sys S) {m : Nat} (hm : m ∈ S) {fuel j : Nat} (hjm : j ≤ m)
    (hnext : ∀ i, j ≤ i → i < m → i ∉ S) (hfuel : m - j ≤ fuel) : sys.skipUnavailable fuel j = m := by
  have hbit : ∀ i, numaBitmaskIsbitset sys.nodes.numaNodesPtr i = true ↔ i ∈ S := by
    intro i
    rw [numaBitmaskIsbitset_eq_true, h.bits]
  induction fuel generalizing j with
  | zero =>
      rw [skipUnavailable]
      omega
  | succ fuel ih =>
      rw [skipUnavailable]
      by_cases heq : j = m
      · subst heq
        exact if_neg fun hskip => hskip.2 ((hbit j).mpr hm)
      · have hlt := h.lt_maxnode m hm
        rw [if_pos ⟨by omega, fun hj => hnext j (le_refl j) (by omega) ((hbit j).mp hj)⟩]
        exact ih (by omega) (fun i hji him => hnext i (by omega) him) (by omega)

theorem parseLoop_eq (h : FindsNodes sys S) {iptr left j : Nat} {s : List Char} {vs : List Nat} {table : DistanceTable}
    (hs : ReadsRow s vs) (hlen : vs.length = (S.filter (j ≤ ·)).card) (hleft : vs.length ≤ left)
    (htable : iptr + sys.maxnode ≤ table.length) :
    ∃ table', sys.parseLoop iptr left j s table = some table' ∧ StoresRow S iptr j vs table table' := by
  induction vs generalizing left j s table with
  | nil =>
      have hnone : ∀ n ∈ S, ¬j ≤ n := by
        rw [List.length_nil] at hlen
        exact Finset.filter_eq_empty_iff.mp (Finset.card_eq_zero.mp hlen.symm)
      refine ⟨table, ?_, rfl, fun n hn hjn => absurd hjn (hnone n hn), fun k hk => rfl⟩
      cases left with
      | zero => rfl
      | succ left =>
          rw [parseLoop]
          exact if_pos (NumberList.readNumber_eq_none.mp hs.readNumber_nil).symm
  | cons v vs ih =>
      obtain ⟨left, rfl⟩ : ∃ k, left = k + 1 := Nat.exists_eq_succ_of_ne_zero (by
        rw [List.length_cons] at hleft
        omega)
      rw [List.length_cons] at hlen hleft
      obtain ⟨rest, hread, hrest⟩ := hs.readNumber_cons
      obtain ⟨hne, hvalue⟩ := NumberList.readNumber_eq_some.mp hread
      obtain ⟨m, hm, hjm, hnext⟩ := exists_next (S := S) (j := j) (by omega)
      have hmlt := h.lt_maxnode m hm
      have hskip : sys.skipUnavailable sys.maxnode j = m := skipUnavailable_eq h hm hjm hnext (by omega)
      have hcard := card_after_next hm hjm hnext
      obtain ⟨table', hloop, hstores⟩ := @ih left (m + 1) rest (table.set (iptr + m) (BitVec.ofNat 32 v))
        hrest (by omega) (by omega) (by rw [List.length_set]; exact htable)
      rw [hvalue] at hne
      refine ⟨table', ?_, ?_, fun n hn hjn => ?_, fun k hk => ?_⟩
      · rw [parseLoop, hvalue, hskip]
        dsimp only
        rw [if_neg (Ne.symm hne), if_pos (by omega)]
        exact hloop
      · rw [hstores.length, List.length_set]
      · obtain hmn | rfl | hmn := lt_trichotomy n m
        · exact absurd hn (hnext n hjn hmn)
        · have hothers := hstores.others (iptr + n) fun k _ hk => by omega
          rw [hothers, List.getElem?_set_self (by omega), rankFrom_next hnext]
          rfl
        · rw [hstores.column n hn hmn, rankFrom_after_next hm hjm hnext hmn, List.getElem?_cons_succ]
      · have hkm : k ≠ iptr + m := hk m hm hjm
        rw [hstores.others k fun n hn hmn => hk n hn (by omega), List.getElem?_set_ne hkm.symm]

/-- A row with a number for every node is stored whole. -/
theorem parseNumbers_eq (h : FindsNodes sys S) {iptr : Nat} {s : List Char} {vs : List Nat} {table : DistanceTable}
    (hs : ReadsRow s vs) (hlen : vs.length = S.card) (htable : iptr + sys.maxnode ≤ table.length) :
    ∃ table', sys.parseNumbers s iptr table = some table' ∧ StoresRow S iptr 0 vs table table' := by
  have hcard : S.card ≤ (Finset.range sys.maxnode).card :=
    Finset.card_le_card fun n hn => Finset.mem_range.mpr (h.lt_maxnode n hn)
  rw [Finset.card_range] at hcard
  apply parseLoop_eq h hs _ (hlen.trans_le hcard) htable
  rw [hlen, Finset.filter_true_of_mem fun n _ => Nat.zero_le n]

end DistanceSystem

/-! ### The table -/

/-- Each node found has a file with a number for every node, and nothing else has one. -/
structure RowFiles (files : List DistanceFile) (S : Finset Nat) (rows : Nat → List Nat) : Prop where
  row : ∀ n ∈ S, ∃ s, files.getD n .missing = .text s ∧ RowFile s (rows n)
  length : ∀ n ∈ S, (rows n).length = S.card
  absent : ∀ n, n ∉ S → files.getD n .missing = .missing

/-- The place of a node pair in the table once the rows up to `nd` are read. -/
def cell (S : Finset Nat) (rows : Nat → List Nat) (nd a b : Nat) : Option (BitVec 32) :=
  if a ∈ S ∧ b ∈ S ∧ a < nd then (rows a)[nodeRank S b]?.map (BitVec.ofNat 32) else some 0

/-- A table of `n` rows whose first `nd` are read. -/
structure HoldsRows (S : Finset Nat) (rows : Nat → List Nat) (n nd : Nat) (table : DistanceTable) : Prop where
  length : table.length = n * n
  cells : ∀ a b, a < n → b < n → table[a * n + b]? = cell S rows nd a b

section Table

variable {S : Finset Nat} {rows : Nat → List Nat} {n nd : Nat} {table : DistanceTable}

theorem holdsRows_zero : HoldsRows S rows n 0 (List.replicate (n * n) 0) where
  length := List.length_replicate
  cells a b ha hb := by
    rw [List.getElem?_replicate_of_lt (Words.place_lt ha hb), cell, if_neg (by omega)]

/-- A number without a row leaves the table as it is. -/
theorem HoldsRows.skip (h : HoldsRows S rows n nd table) (hnd : nd ∉ S) : HoldsRows S rows n (nd + 1) table where
  length := h.length
  cells a b ha hb := by
    rw [h.cells a b ha hb, cell, cell]
    apply if_congr _ rfl rfl
    refine and_congr_right fun haS => and_congr_right fun _ => ?_
    have hne : a ≠ nd := fun heq => hnd (heq ▸ haS)
    omega

/-- The rows before `nd` stay when row `nd` is stored. -/
theorem HoldsRows.store (h : HoldsRows S rows n nd table) (hS : ∀ m ∈ S, m < n) (hnd : nd ∈ S)
    {table' : DistanceTable} (hstores : StoresRow S (nd * n) 0 (rows nd) table table') :
    HoldsRows S rows n (nd + 1) table' where
  length := hstores.length.trans h.length
  cells a b ha hb := by
    by_cases hrow : a = nd ∧ b ∈ S
    · obtain ⟨rfl, hbS⟩ := hrow
      rw [hstores.column b hbS (Nat.zero_le b), rankFrom_zero, cell, if_pos ⟨hnd, hbS, Nat.lt_succ_self a⟩]
    · rw [hstores.others (a * n + b) fun m hm _ heq => ?_, h.cells a b ha hb, cell, cell]
      · apply if_congr _ rfl rfl
        refine and_congr_right fun _ => and_congr_right fun hbS => ?_
        have hne : a ≠ nd := fun heq => hrow ⟨heq, hbS⟩
        omega
      · obtain ⟨rfl, rfl⟩ := Words.place_inj hb (hS m hm) heq
        exact hrow ⟨rfl, hm⟩

end Table

namespace DistanceSystem

variable {sys : DistanceSystem} {S : Finset Nat} {rows : Nat → List Nat}

/-- The loop over the rows, from number `nd` on. What `err` was does not matter, as the first number above
the highest node has no file. -/
theorem readRows_eq (h : FindsNodes sys S) (hfiles : RowFiles sys.files S rows) {fuel nd : Nat} {err : Int}
    {table : Option DistanceTable} (hnd : nd ≤ sys.maxnode) (hfuel : sys.maxnode - nd < fuel)
    (htable : HoldsRows S rows sys.maxnode nd (table.getD (List.replicate (sys.maxnode * sys.maxnode) 0)))
    (hnone : table = none → ∀ n ∈ S, nd ≤ n) :
    ∃ table', sys.readRows fuel nd err table = some (0, table') ∧
      HoldsRows S rows sys.maxnode sys.maxnode
        (table'.getD (List.replicate (sys.maxnode * sys.maxnode) 0)) ∧ (table' = none → S = ∅) := by
  induction fuel generalizing nd err table with
  | zero => omega
  | succ fuel ih =>
      rw [readRows]
      by_cases hS : nd ∈ S
      · have hlt := h.lt_maxnode nd hS
        obtain ⟨s, hopen, hrow⟩ := hfiles.row nd hS
        have hlen := hfiles.length nd hS
        have hne : s ≠ [] := by
          obtain ⟨v, vs, hvs⟩ := List.exists_cons_of_length_pos (hlen ▸ Finset.card_pos.mpr ⟨nd, hS⟩)
          have hreads := hrow.reads
          rw [hvs] at hreads
          exact hreads.ne_nil
        have hplace : nd * sys.maxnode + sys.maxnode ≤ sys.maxnode * sys.maxnode := by
          rw [← Nat.succ_mul]
          exact Nat.mul_le_mul_right _ hlt
        obtain ⟨table', hparse, hstores⟩ := parseNumbers_eq h hrow.reads hlen (hplace.trans htable.length.ge)
        rw [hopen]
        dsimp only
        rw [hrow.getLine_eq, if_neg (by rw [Nat.le_zero, List.length_eq_zero_iff]; exact hne), hparse]
        dsimp only
        exact ih hlt (by omega) (htable.store h.lt_maxnode hS hstores) fun habs => by cases habs
      · rw [hfiles.absent nd hS]
        dsimp only
        split
        · next hlt =>
          refine ih hlt (by omega) (htable.skip hS) fun htab n hn => ?_
          have hle := hnone htab n hn
          have hneq : n ≠ nd := fun heq => hS (heq ▸ hn)
          omega
        · next hge =>
          obtain rfl : nd = sys.maxnode := by omega
          refine ⟨table, rfl, htable, fun htab => Finset.eq_empty_of_forall_notMem fun n hn => ?_⟩
          have hle := hnone htab n hn
          have hlt := h.lt_maxnode n hn
          omega

/-- A table in the cache is the one of the row files. -/
def CacheHolds (S : Finset Nat) (rows : Nat → List Nat) (n : Nat) (cache : DistanceCache) : Prop :=
  ∀ table, cache.distanceTable = some table → cache.distanceNumnodes = n ∧ HoldsRows S rows n n table

theorem readDistanceTable_eq (h : FindsNodes sys S) (hfiles : RowFiles sys.files S rows) {cache : DistanceCache}
    (hcache : cache.distanceTable = none) :
    ∃ table, sys.readDistanceTable cache = some (0, ⟨sys.maxnode, table⟩) ∧
      CacheHolds S rows sys.maxnode ⟨sys.maxnode, table⟩ ∧ (table = none → S = ∅) := by
  have hfuel : sys.maxnode - 0 < max sys.files.length sys.maxnode + 1 :=
    Nat.lt_succ_of_le ((Nat.sub_le _ _).trans (Nat.le_max_right _ _))
  obtain ⟨table, hrows, hholds, hnone⟩ := @readRows_eq sys S rows h hfiles _ 0 (-1) none (Nat.zero_le sys.maxnode)
    hfuel holdsRows_zero fun _ n _ => Nat.zero_le n
  refine ⟨table, ?_, fun t ht => ⟨rfl, ?_⟩, hnone⟩
  · rw [readDistanceTable, hrows, hcache]
    rfl
  · obtain rfl : table = some t := ht
    exact hholds

/-- What is looked up in a table that is there, or in none because there is no node. -/
theorem lookup_eq (h : FindsNodes sys S) {cache : DistanceCache} (hholds : CacheHolds S rows sys.maxnode cache)
    (hnone : cache.distanceTable = none → S = ∅) (a b : BitVec 32) :
    lookup cache a b = cell S rows sys.maxnode a.toNat b.toNat := by
  cases htable : cache.distanceTable with
  | none =>
      rw [lookup, htable, cell, hnone htable, if_neg fun hcell => absurd hcell.1 (Finset.notMem_empty _)]
  | some table =>
      obtain ⟨hnum, hrows⟩ := hholds table htable
      rw [lookup, htable, hnum]
      dsimp only
      by_cases hout : sys.maxnode ≤ a.toNat ∨ sys.maxnode ≤ b.toNat
      · rw [if_pos hout, cell, if_neg]
        rintro ⟨ha, hb, -⟩
        have ha := h.lt_maxnode _ ha
        have hb := h.lt_maxnode _ hb
        omega
      · rw [not_or, not_le, not_le] at hout
        rw [if_neg (by omega), hrows.cells _ _ hout.1 hout.2]

theorem exists_cell (hfiles : RowFiles sys.files S rows) (a b : Nat) :
    ∃ r, cell S rows sys.maxnode a b = some r := by
  rw [cell]
  split
  · next hab =>
    have hrank : nodeRank S b < (rows a).length := by
      have hlt := rankFrom_lt_card hab.2.1 (Nat.zero_le b)
      rwa [rankFrom_zero, Finset.filter_true_of_mem fun n _ => Nat.zero_le n, ← hfiles.length a hab.1] at hlt
    exact ⟨BitVec.ofNat 32 ((rows a)[nodeRank S b]), by rw [List.getElem?_eq_getElem hrank]; rfl⟩
  · exact ⟨0, rfl⟩

/-- One call of `numa_distance`: its result, and a cache that can serve the next one. -/
theorem numaDistance_eq (h : FindsNodes sys S) (hfiles : RowFiles sys.files S rows) {cache : DistanceCache}
    (hholds : CacheHolds S rows sys.maxnode cache) (a b : BitVec 32) :
    ∃ r cache', cell S rows sys.maxnode a.toNat b.toNat = some r ∧ sys.numaDistance cache a b = some (r, cache') ∧
      CacheHolds S rows sys.maxnode cache' := by
  obtain ⟨r, hr⟩ := exists_cell hfiles a.toNat b.toNat
  cases htable : cache.distanceTable with
  | none =>
      obtain ⟨table, hread, hnew, hnone⟩ := readDistanceTable_eq h hfiles htable
      refine ⟨r, ⟨sys.maxnode, table⟩, hr, ?_, hnew⟩
      rw [numaDistance, htable, hread]
      dsimp only [Option.isNone_none]
      rw [if_pos rfl, if_neg (lt_irrefl 0), lookup_eq h hnew hnone, hr]
      rfl
  | some table =>
      refine ⟨r, cache, hr, ?_, hholds⟩
      rw [numaDistance, htable, lookup_eq h hholds (fun hnone => by rw [htable] at hnone; cases hnone), hr]
      rfl

theorem cacheHolds_after (h : FindsNodes sys S) (hfiles : RowFiles sys.files S rows) (calls : List DistanceCall) :
    ∃ cache, Runs.after sys.step (some .initial) calls = some cache ∧ CacheHolds S rows sys.maxnode cache := by
  apply Runs.invariant_rule (I := fun c => ∃ cache, c = some cache ∧ CacheHolds S rows sys.maxnode cache)
  · exact ⟨_, rfl, fun table htable => by cases htable⟩
  · rintro _ call ⟨cache, rfl, hholds⟩
    cases call with
    | distance a b =>
        obtain ⟨r, cache', -, hcall, hholds'⟩ := numaDistance_eq h hfiles hholds a b
        exact ⟨cache', by rw [step, hcall]; rfl, hholds'⟩
    | cleanup => exact ⟨_, rfl, fun table htable => by cases htable⟩

end DistanceSystem

/-! ### The distance of two nodes -/

theorem NodeDirs.findsNodes {names : List (List Char)} {S : Finset Nat} (h : NodeDirs names S) {nodemaskSz : Nat}
    (hS : ∀ n ∈ S, n < nodemaskSz) (files : List DistanceFile) :
    FindsNodes ⟨setConfiguredNodes nodemaskSz (some names), files⟩ S where
  bits := h.bits_setConfiguredNodes hS
  lt_maxnode n hn := by
    have hle : (n : Int) ≤ numaMaxNode (setConfiguredNodes nodemaskSz (some names)) := h.le_numaMaxNode hn
    rw [DistanceSystem.maxnode]
    dsimp only
    omega

/-- Whatever has been called before: the distance of two nodes is the number at the rank of the second in the
row of the first, as an `int`, and it is 0 where one number is not that of a node, be it negative, above the
highest node or in a gap. The size of a node mask is an `int`. -/
theorem numaDistance_rank {nodemaskSz : Nat} (hsize : nodemaskSz < 2 ^ 31) {names : List (List Char)}
    {S : Finset Nat} (hdirs : NodeDirs names S) (hS : ∀ n ∈ S, n < nodemaskSz) {files : List DistanceFile}
    {rows : Nat → List Nat} (hfiles : RowFiles files S rows) (calls : List DistanceCall) (a b : BitVec 32) :
    ∃ cache r cache',
      Runs.after (DistanceSystem.step ⟨setConfiguredNodes nodemaskSz (some names), files⟩) (some .initial) calls =
        some cache ∧
      DistanceSystem.numaDistance ⟨setConfiguredNodes nodemaskSz (some names), files⟩ cache a b =
        some (r, cache') ∧
      (∀ n ∈ S, ∀ m ∈ S, a.toInt = n → b.toInt = m → ∃ d, (rows n)[nodeRank S m]? = some d ∧
        r = BitVec.ofNat 32 d ∧ (d < 2 ^ 31 → r.toInt = d)) ∧
      (((∀ n ∈ S, a.toInt ≠ n) ∨ ∀ n ∈ S, b.toInt ≠ n) → r = 0) := by
  have h := hdirs.findsNodes hS files
  obtain ⟨cache, hafter, hholds⟩ := DistanceSystem.cacheHolds_after h hfiles calls
  obtain ⟨r, cache', hcell, hcall, -⟩ := DistanceSystem.numaDistance_eq h hfiles hholds a b
  refine ⟨cache, r, cache', hafter, hcall, fun n hn m hm ha hb => ?_, fun hnot => ?_⟩
  · have hna : a.toNat = n := by
      rw [BitVec.toInt_eq_toNat_cond] at ha
      split at ha <;> omega
    have hmb : b.toNat = m := by
      rw [BitVec.toInt_eq_toNat_cond] at hb
      split at hb <;> omega
    rw [cell, hna, hmb, if_pos ⟨hn, hm, h.lt_maxnode n hn⟩, Option.map_eq_some_iff] at hcell
    obtain ⟨d, hd, rfl⟩ := hcell
    refine ⟨d, hd, rfl, fun hlt => ?_⟩
    have hnat : (BitVec.ofNat 32 d).toNat = d := by
      rw [BitVec.toNat_ofNat, Nat.mod_eq_of_lt (by omega)]
    rw [BitVec.toInt_eq_toNat_of_lt (by omega), hnat]
  · rw [cell, if_neg, Option.some.injEq] at hcell
    · exact hcell.symm
    · rintro ⟨ha, hb, -⟩
      have hna : a.toInt = (a.toNat : Int) := BitVec.toInt_eq_toNat_of_lt (by have := hS _ ha; omega)
      have hmb : b.toInt = (b.toNat : Int) := BitVec.toInt_eq_toNat_of_lt (by have := hS _ hb; omega)
      obtain hnot | hnot := hnot
      · exact hnot _ ha hna
      · exact hnot _ hb hmb

/-- Nodes 1, 2 and 5. -/
def gappedNodes : Finset Nat := {1, 2, 5}

def gappedNames : List (List Char) := ["node5".toList, "online".toList, "node1".toList, "node2".toList]

def gappedRow : Nat → List Nat
  | 1 => [10, 20, 30]
  | 2 => [20, 10, 40]
  | _ => [30, 40, 10]

def gappedFiles : List DistanceFile :=
  [.missing, .text "10 20 30\n".toList, .text "20 10 40\n".toList, .missing, .missing, .text "30 40 10\n".toList]

theorem nodeDirs_gapped : NodeDirs gappedNames gappedNodes where
  dir := by
    intro n hn
    obtain rfl | rfl | rfl : n = 1 ∨ n = 2 ∨ n = 5 := by simpa [gappedNodes] using hn
    · exact ⟨"1".toList, by decide, by decide⟩
    · exact ⟨"2".toList, by decide, by decide⟩
    · exact ⟨"5".toList, by decide, by decide⟩
  only := by
    intro name hname htake
    obtain rfl | rfl | rfl | rfl : name = "node5".toList ∨ name = "online".toList ∨ name = "node1".toList ∨
        name = "node2".toList := by
      simpa only [gappedNames, List.mem_cons, List.not_mem_nil, or_false] using hname
    · exact ⟨5, by decide, "5".toList, by decide, rfl⟩
    · exact absurd htake (by decide)
    · exact ⟨1, by decide, "1".toList, by decide, rfl⟩
    · exact ⟨2, by decide, "2".toList, by decide, rfl⟩

theorem readsRow_three {t u w : List Char} {x y z : Nat} (ht : Numeral t x) (hu : Numeral (' ' :: u) y)
    (hw : Numeral (' ' :: w) z) : ReadsRow (t ++ (' ' :: u ++ (' ' :: w ++ ['\n']))) [x, y, z] := by
  have hnewline : ReadsRow ['\n'] [] := .done fun c hc => by
    obtain rfl := List.mem_singleton.mp hc
    decide
  refine .number ht (fun c hc => ?_) (.number hu (fun c hc => ?_) (.number hw (fun c hc => ?_) hnewline))
  all_goals
    cases hc
    decide

theorem rowFiles_gapped : RowFiles gappedFiles gappedNodes gappedRow where
  row := by
    intro n hn
    obtain rfl | rfl | rfl : n = 1 ∨ n = 2 ∨ n = 5 := by simpa [gappedNodes] using hn
    · exact ⟨_, rfl, by decide, readsRow_three (t := "10".toList) (u := "20".toList) (w := "30".toList)
        (by decide) (by decide) (by decide)⟩
    · exact ⟨_, rfl, by decide, readsRow_three (t := "20".toList) (u := "10".toList) (w := "40".toList)
        (by decide) (by decide) (by decide)⟩
    · exact ⟨_, rfl, by decide, readsRow_three (t := "30".toList) (u := "40".toList) (w := "10".toList)
        (by decide) (by decide) (by decide)⟩
  length := by decide
  absent := by
    intro n hn
    obtain hlt | hge := Nat.lt_or_ge n 6
    · interval_cases n <;> first | rfl | exact absurd (by decide) hn
    · exact List.getD_eq_default gappedFiles _ hge

theorem numaDistance_gapped : ∃ cache r cache',
    Runs.after (DistanceSystem.step ⟨setConfiguredNodes 64 (some gappedNames), gappedFiles⟩) (some .initial)
      [.distance 3 5, .cleanup] = some cache ∧
    DistanceSystem.numaDistance ⟨setConfiguredNodes 64 (some gappedNames), gappedFiles⟩ cache 2 5 =
      some (r, cache') ∧
    r.toInt = 40 := by
  obtain ⟨cache, r, cache', hafter, hcall, hnodes, -⟩ := @numaDistance_rank 64 (by decide) _ _ nodeDirs_gapped
    (by decide) _ _ rowFiles_gapped [.distance 3 5, .cleanup] 2 5
  obtain ⟨d, hd, -, hr⟩ := hnodes 2 (by decide) 5 (by decide) (by decide) (by decide)
  obtain rfl : 40 = d := Option.some.inj hd
  exact ⟨cache, r, cache', hafter, hcall, hr (by decide)⟩

end Numactl
