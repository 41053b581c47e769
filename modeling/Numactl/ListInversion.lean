import Numactl.NodeList

/-! Inverted lists: `!` in front of a list. The parsers flip every number below a count, whatever numbers
are allowed, so the result is the complement of the list only where the count and the allowed set agree
outside the list. -/

namespace Numactl

/-- Every bit below the count and the mask's size is flipped, and no other. -/
theorem bits_invertMask (conf : Nat) (mask : Bitmask) :
    (invertMask conf mask).size = mask.size ∧ (invertMask conf mask).bits =
      (Finset.range mask.size).filter fun i => if i < conf then i ∉ mask.bits else i ∈ mask.bits := by
  induction conf with
  | zero =>
      refine ⟨rfl, Finset.ext fun i => ?_⟩
      rw [Finset.mem_filter, Finset.mem_range, if_neg (Nat.not_lt_zero i)]
      exact ⟨fun h => ⟨(Bitmask.mem_bits.mp h).1, h⟩, fun h => h.2⟩
  | succ conf ih =>
      obtain ⟨hsize, hbits⟩ := ih
      have hstep : invertMask (conf + 1) mask =
          if numaBitmaskIsbitset (invertMask conf mask) conf then
            numaBitmaskClearbit (invertMask conf mask) conf
          else numaBitmaskSetbit (invertMask conf mask) conf := by
        rw [invertMask, List.range_succ, List.foldl_append]
        rfl
      -- the bit flipped last is still as it was in the mask
      have hmem : conf ∈ (invertMask conf mask).bits ↔ conf ∈ mask.bits := by
        rw [hbits, Finset.mem_filter, Finset.mem_range, if_neg (Nat.lt_irrefl conf)]
        exact ⟨fun h => h.2, fun h => ⟨(Bitmask.mem_bits.mp h).1, h⟩⟩
      by_cases hset : conf ∈ mask.bits
      · rw [hstep, if_pos ((numaBitmaskIsbitset_eq_true _ _).mpr (hmem.mpr hset))]
        refine ⟨(size_numaBitmaskClearbit _ _).trans hsize, Finset.ext fun i => ?_⟩
        rw [numaBitmaskClearbit, bits_setbit_false, hbits]
        simp only [Finset.mem_erase, Finset.mem_filter, Finset.mem_range]
        obtain hlt | rfl | hgt := Nat.lt_trichotomy i conf
        · simp [hlt, hlt.ne, Nat.lt_succ_of_lt hlt]
        · simp [hset]
        · simp [hgt.ne', show ¬i < conf by omega, show ¬i < conf + 1 by omega]
      · rw [hstep, if_neg (mt (numaBitmaskIsbitset_eq_true _ _).mp (mt hmem.mp hset))]
        refine ⟨(size_numaBitmaskSetbit _ _).trans hsize, Finset.ext fun i => ?_⟩
        rw [bits_numaBitmaskSetbit, hbits, hsize]
        simp only [Finset.mem_union, Finset.mem_filter, Finset.mem_range, Finset.mem_singleton]
        obtain hlt | rfl | hgt := Nat.lt_trichotomy i conf
        · simp [hlt, hlt.ne, Nat.lt_succ_of_lt hlt]
        · simp [hset]
        · simp [hgt.ne', show ¬i < conf by omega, show ¬i < conf + 1 by omega]

/-- The `!` only flips what the rest of the text gives. -/
theorem parseString_bang (args : Bool → ListArgs) (conf : Nat) {s : List Char}
    (hbang : s.head? ≠ some '!') (mask : Bitmask) :
    parseString args conf ('!' :: s) mask = (parseString args conf s mask).map (invertMask conf) := by
  simp only [parseString, List.head?_cons, if_true, List.tail_cons, hbang, if_false, Option.map_id']

theorem size_parseString {args : Bool → ListArgs} {n conf : Nat} (M : ∀ r, ListMeaning (args r) n)
    {s : List Char} {mask m : Bitmask} (h : parseString args conf s mask = some m) :
    m.size = mask.size := by
  rw [parseString, Option.map_eq_some_iff] at h
  obtain ⟨m', hm', hm⟩ := h
  have hsize := size_parseItems (M _) hm'
  split at hm
  · rw [← hm, (bits_invertMask conf m').1, hsize]
  · rw [← hm, hsize]

/-! ### The four parsers -/

/-- The entry points of the two list parsers. -/
inductive ListParser where
  | nodestring
  | nodestringAll
  | cpustring
  | cpustringAll
  deriving DecidableEq

/-- A mask made of set bits can be copied into every mask that is as long as they need. -/
theorem fitsIn_foldl_setbit (ns : List Nat) (size : Nat) {n : Nat} (hlt : ∀ k ∈ ns, k < size → k < n) :
    (ns.foldl numaBitmaskSetbit (zeroBitmask size)).FitsIn n := by
  intro i
  have hbit : Words.bit (ns.foldl numaBitmaskSetbit (zeroBitmask size)).maskp i = true ↔
      i ∈ ns ∧ i < size := by
    change Words.bit (ns.foldl (fun b k => setbit b k true) (zeroBitmask size)).maskp i = true ↔ _
    rw [bit_foldl_setbit]
    simp [zeroBitmask]
  have hsize : (ns.foldl numaBitmaskSetbit (zeroBitmask size)).size = size :=
    size_foldl_numaBitmaskSetbit ns (zeroBitmask size)
  rw [Bitmask.mem_bits, hbit, hsize]
  exact ⟨fun h => ⟨h.2.2.2, h.2.2⟩, fun h => ⟨hlt i h.2.1 h.1, h.1.trans_le (le_longsperbits size), h.2⟩⟩

namespace ListParser

variable (g : Globals) (dv : Devices)

def parse : ListParser → List Char → Option Bitmask
  | nodestring => numaParseNodestring g dv
  | nodestringAll => numaParseNodestringAll g dv
  | cpustring => numaParseCpustring g
  | cpustringAll => numaParseCpustringAll g

/-- The mask a list is checked against, and that `all` copies. -/
def allowed : ListParser → Bitmask
  | nodestring => g.numaAllNodesPtr
  | nodestringAll => g.numaPossibleNodesPtr
  | cpustring => g.numaAllCpusPtr
  | cpustringAll => g.numaPossibleCpusPtr

/-- The count an inversion runs to. -/
def conf : ListParser → Nat
  | nodestring | nodestringAll => g.numaNumConfiguredNodes
  | cpustring | cpustringAll => g.numConfiguredCpus

/-- The size of the mask returned. -/
def maskSize : ListParser → Nat
  | nodestring | nodestringAll => g.nodemaskSz
  | cpustring | cpustringAll => g.cpumaskSz

def args : ListParser → Bool → ListArgs
  | nodestring => nodeArgs g dv g.numaAllNodesPtr
  | nodestringAll => nodeArgs g dv g.numaPossibleNodesPtr
  | cpustring => cpuArgs g g.numaAllCpusPtr
  | cpustringAll => cpuArgs g g.numaPossibleCpusPtr

theorem fitsIn_allowed (p : ListParser) : (p.allowed g).FitsIn (p.maskSize g) := by
  cases p with
  | nodestring =>
      have h := Bitmask.fitsIn_size g.numaAllNodesPtr
      rwa [g.all_nodes_size] at h
  | nodestringAll =>
      refine fitsIn_foldl_setbit _ _ fun k hk _ => ?_
      have hmax := g.maxnode_lt
      have hk := List.mem_range.mp hk
      change k < g.nodemaskSz
      omega
  | cpustring =>
      have h := Bitmask.fitsIn_size g.numaAllCpusPtr
      rwa [g.all_cpus_size] at h
  | cpustringAll => exact fitsIn_foldl_setbit _ _ fun k _ hk => hk

/-- What the words of a parser's lists mean. -/
def meaning (p : ListParser) (relative : Bool) : ListMeaning (p.args g dv relative) (p.maskSize g) :=
  match p with
  | nodestring => nodeMeaning g dv (fitsIn_allowed g nodestring) relative
  | nodestringAll => nodeMeaning g dv (fitsIn_allowed g nodestringAll) relative
  | cpustring => cpuMeaning g (fitsIn_allowed g cpustring) relative
  | cpustringAll => cpuMeaning g (fitsIn_allowed g cpustringAll) relative

/-- The list text `s`, which may start with `+`, names the numbers `X`. -/
def Lists (p : ListParser) (s : List Char) (X : Finset Nat) : Prop :=
  if s.head? = some '+' then (p.meaning g dv true).Named s.tail X else (p.meaning g dv false).Named s X

theorem parse_eq (p : ListParser) {s : List Char} (hs : s ≠ []) :
    p.parse g dv s = parseString (p.args g dv) (p.conf g) s (zeroBitmask (p.maskSize g)) := by
  cases p with
  | nodestring => exact if_neg hs
  | nodestringAll => exact if_neg hs
  | cpustring => exact if_neg hs
  | cpustringAll => exact if_neg hs

/-- A parser accepts exactly the texts that name something, and returns what they name. -/
theorem bits_parse_iff (p : ListParser) {s : List Char} (hs : s ≠ []) (hbang : s.head? ≠ some '!')
    (X : Finset Nat) : (p.parse g dv s).map Bitmask.bits = some X ↔ p.Lists g dv s X := by
  rw [parse_eq g dv p hs]
  exact bits_parseString_iff (p.meaning g dv) hbang (size_zeroBitmask _) (bits_zeroBitmask _) X

theorem parse_bang (p : ListParser) {s : List Char} (hs : s ≠ []) (hbang : s.head? ≠ some '!') :
    p.parse g dv ('!' :: s) = (p.parse g dv s).map (invertMask (p.conf g)) := by
  rw [parse_eq g dv p hs, parse_eq g dv p (List.cons_ne_nil _ _)]
  exact parseString_bang _ _ hbang _

theorem bits_parse_all (p : ListParser) :
    (p.parse g dv all).map Bitmask.bits = some (p.allowed g).bits := by
  rw [bits_parse_iff g dv p (by decide) (by decide), Lists, if_neg (by decide)]
  cases p with
  | nodestring => exact ⟨[], some all, ∅, .word rfl, rfl, rfl⟩
  | nodestringAll => exact ⟨[], some all, ∅, .word rfl, rfl, rfl⟩
  | cpustring => exact ⟨[], some all, ∅, .word rfl, rfl, rfl⟩
  | cpustringAll => exact ⟨[], some all, ∅, .word rfl, rfl, rfl⟩

/-- `!` followed by the list is accepted, and the two results partition the result for `all`. -/
def InversionPartitions (p : ListParser) (s : List Char) : Prop :=
  ∃ X inv A : Finset Nat, (p.parse g dv s).map Bitmask.bits = some X ∧
    (p.parse g dv ('!' :: s)).map Bitmask.bits = some inv ∧
    (p.parse g dv all).map Bitmask.bits = some A ∧ Disjoint (inv ∩ A) (X ∩ A) ∧ inv = A \ X

/-- The numbers the list names are below the count, and the other numbers are allowed exactly where they
are below the count and fit the mask. -/
def CountIsAllowed (p : ListParser) (X : Finset Nat) : Prop :=
  (∀ i ∈ X, i < p.conf g) ∧
    ∀ i, i ∉ X → (i ∈ (p.allowed g).bits ↔ i < p.conf g ∧ i < p.maskSize g)

/-- The inverse of a list that names `X`. -/
theorem bits_parse_bang (p : ListParser) {s : List Char} {X : Finset Nat} (hs : s ≠ [])
    (hbang : s.head? ≠ some '!') (hX : p.Lists g dv s X) :
    (p.parse g dv ('!' :: s)).map Bitmask.bits =
      some ((Finset.range (p.maskSize g)).filter fun i => if i < p.conf g then i ∉ X else i ∈ X) := by
  have hbits := (bits_parse_iff g dv p hs hbang X).mpr hX
  rw [Option.map_eq_some_iff] at hbits
  obtain ⟨mask, hmask, rfl⟩ := hbits
  have hsize : mask.size = p.maskSize g := by
    rw [parse_eq g dv p hs] at hmask
    exact size_parseString (p.meaning g dv) hmask
  rw [parse_bang g dv p hs hbang, hmask, Option.map_some, Option.map_some,
    (bits_invertMask _ _).2, hsize]

theorem Lists.lt {p : ListParser} {s : List Char} {X : Finset Nat} (hX : p.Lists g dv s X) (hs : s ≠ [])
    (hbang : s.head? ≠ some '!') : ∀ i ∈ X, i < p.maskSize g := by
  intro i hi
  have hbits := (bits_parse_iff g dv p hs hbang X).mpr hX
  rw [Option.map_eq_some_iff] at hbits
  obtain ⟨mask, hmask, rfl⟩ := hbits
  rw [parse_eq g dv p hs] at hmask
  have hsize := size_parseString (p.meaning g dv) hmask
  exact (Bitmask.mem_bits.mp hi).1.trans_eq hsize

/-- The flipped mask is the complement exactly where the count agrees with the allowed set. -/
theorem flip_eq_sdiff_iff {X : Finset Nat} (p : ListParser) (hX : ∀ i ∈ X, i < p.maskSize g) :
    ((Finset.range (p.maskSize g)).filter fun i => if i < p.conf g then i ∉ X else i ∈ X) =
      (p.allowed g).bits \ X ↔ p.CountIsAllowed g X := by
  rw [Finset.ext_iff]
  simp only [Finset.mem_filter, Finset.mem_range, Finset.mem_sdiff]
  refine ⟨fun h => ⟨fun i hi => ?_, fun i hi => ?_⟩, fun h i => ?_⟩
  · by_cases hlt : i < p.conf g
    · exact hlt
    · have hmem := (h i).mp ⟨hX i hi, by rw [if_neg hlt]; exact hi⟩
      exact absurd hi hmem.2
  · refine ⟨fun hA => ?_, fun hlt => ?_⟩
    · obtain ⟨hsize, hflip⟩ := (h i).mpr ⟨hA, hi⟩
      by_cases hlt : i < p.conf g
      · exact ⟨hlt, hsize⟩
      · rw [if_neg hlt] at hflip
        exact absurd hflip hi
    · exact ((h i).mp ⟨hlt.2, by rw [if_pos hlt.1]; exact hi⟩).1
  · by_cases hi : i ∈ X
    · simp [hi, h.1 i hi]
    · rw [h.2 i hi]
      by_cases hlt : i < p.conf g <;> simp [hi, hlt]

/-- For a list that names allowed numbers only, such as a node list without devices, the condition does
not depend on the list: the allowed numbers are those below the count. -/
theorem countIsAllowed_iff_of_subset (p : ListParser) {X : Finset Nat} (hX : X ⊆ (p.allowed g).bits) :
    p.CountIsAllowed g X ↔ ∀ i, i ∈ (p.allowed g).bits ↔ i < p.conf g ∧ i < p.maskSize g := by
  have hsize : ∀ i ∈ X, i < p.maskSize g := fun i hi => (fitsIn_allowed g p).lt (hX hi)
  refine ⟨fun h i => ?_, fun h => ⟨fun i hi => ((h i).mp (hX hi)).1, fun i _ => h i⟩⟩
  by_cases hi : i ∈ X
  · exact iff_of_true (hX hi) ⟨h.1 i hi, hsize i hi⟩
  · exact h.2 i hi

/-- An accepted list and its inverse partition what `all` names exactly where the count agrees with the
allowed set on the numbers the list does not name, and the list stays below the count. -/
theorem inversionPartitions_iff (p : ListParser) {s : List Char} (hs : s ≠ [])
    (hbang : s.head? ≠ some '!') (haccepted : (p.parse g dv s).isSome = true) :
    p.InversionPartitions g dv s ↔ ∃ X, p.Lists g dv s X ∧ p.CountIsAllowed g X := by
  obtain ⟨mask, hmask⟩ := Option.isSome_iff_exists.mp haccepted
  have hbits : (p.parse g dv s).map Bitmask.bits = some mask.bits := by rw [hmask, Option.map_some]
  have hX := (bits_parse_iff g dv p hs hbang mask.bits).mp hbits
  have hlt := hX.lt g dv hs hbang
  have hinv := bits_parse_bang g dv p hs hbang hX
  have hall := bits_parse_all g dv p
  refine ⟨fun h => ?_, fun h => ?_⟩
  · obtain ⟨Y, inv, A, hY, hinv', hA, -, heq⟩ := h
    obtain rfl := Option.some.inj (hbits.symm.trans hY)
    obtain rfl := Option.some.inj (hinv.symm.trans hinv')
    obtain rfl := Option.some.inj (hall.symm.trans hA)
    exact ⟨mask.bits, hX, (flip_eq_sdiff_iff g p hlt).mp heq⟩
  · obtain ⟨Y, hY, hcount⟩ := h
    obtain rfl := Option.some.inj (hbits.symm.trans ((bits_parse_iff g dv p hs hbang Y).mpr hY))
    have heq := (flip_eq_sdiff_iff g p hlt).mpr hcount
    refine ⟨_, _, _, hbits, hinv, hall, ?_, heq⟩
    rw [heq]
    exact Finset.disjoint_of_subset_left Finset.inter_subset_left
      (Finset.disjoint_of_subset_right Finset.inter_subset_left Finset.sdiff_disjoint)

theorem inversionPartitions_cpus : InversionPartitions gapGlobals noDevices .cpustring "1-2".toList := by
  have hlists : Lists gapGlobals noDevices .cpustring "1-2".toList {1, 2} :=
    (bits_parse_iff gapGlobals noDevices .cpustring (by decide) (by decide) {1, 2}).mp (by decide +kernel)
  have hallowed : (ListParser.cpustring.allowed gapGlobals).bits = Finset.range 4 := by decide +kernel
  refine (inversionPartitions_iff gapGlobals noDevices .cpustring (by decide) (by decide)
    (by decide +kernel)).mpr ⟨{1, 2}, hlists, by decide, fun i _ => ?_⟩
  rw [hallowed, Finset.mem_range]
  change i < 4 ↔ i < 4 ∧ i < 64
  omega

/-- With the nodes 0 and 2 there are two nodes with memory: the inverse of `0` is the node 1. -/
theorem not_inversionPartitions_gap :
    (numaParseNodestring gapGlobals noDevices "0".toList).isSome = true ∧
      ¬InversionPartitions gapGlobals noDevices .nodestring "0".toList := by
  refine ⟨by decide +kernel, fun h => ?_⟩
  obtain ⟨X, inv, A, hX, hinv, hA, -, heq⟩ := h
  have hlist : (ListParser.nodestring.parse gapGlobals noDevices "0".toList).map Bitmask.bits = some {0} := by
    decide +kernel
  have hflip : (ListParser.nodestring.parse gapGlobals noDevices ('!' :: "0".toList)).map Bitmask.bits =
      some {1} := by decide +kernel
  have hall : (ListParser.nodestring.parse gapGlobals noDevices all).map Bitmask.bits = some {0, 2} := by
    decide +kernel
  obtain rfl := Option.some.inj (hlist.symm.trans hX)
  obtain rfl := Option.some.inj (hflip.symm.trans hinv)
  obtain rfl := Option.some.inj (hall.symm.trans hA)
  exact absurd heq (by decide)

end ListParser

end Numactl
