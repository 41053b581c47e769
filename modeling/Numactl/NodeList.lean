import Mathlib.Data.Nat.Nth
import Numactl.ListSets

/-! What the words of the two list parsers mean, what `get_nr` does with a relative number, and from both
the language of node lists: which strings `numa_parse_nodestring` accepts and which nodes they name. -/

namespace Numactl

open NumberList (Item Numeral readItem ReadsItem ReadsList)

/-! ### Words -/

/-- The mask holds in its words no number below `n` but those below its own size: it can be copied into a
mask of `n` bits and loses none. -/
def Bitmask.FitsIn (bmp : Bitmask) (n : Nat) : Prop :=
  ∀ i, (i < n ∧ i < longsperbits bmp.size * 64 ∧ Words.bit bmp.maskp i = true) ↔ i ∈ bmp.bits

theorem Bitmask.FitsIn.bits_copy {bmp mask : Bitmask} {n : Nat} (h : bmp.FitsIn n)
    (hsize : mask.size = n) : (copyBitmaskToBitmask bmp mask).bits = bmp.bits := by
  apply Finset.ext
  intro i
  rw [mem_bits_copyBitmaskToBitmask, hsize, h i]

theorem Bitmask.FitsIn.lt {bmp : Bitmask} {n i : Nat} (h : bmp.FitsIn n) (hi : i ∈ bmp.bits) : i < n :=
  ((h i).mpr hi).1

theorem Bitmask.fitsIn_size (bmp : Bitmask) : bmp.FitsIn bmp.size := by
  intro i
  rw [Bitmask.mem_bits]
  exact ⟨fun h => ⟨h.1, h.2.2⟩, fun h => ⟨h.1, h.1.trans_le (le_longsperbits _), h.2⟩⟩

/-- A reading that returns the same whatever the mask holds, and sets the same bits of it. -/
def Adds (f : Bitmask → Int × Bitmask) : Prop :=
  ∃ (ret : Int) (ns : List Nat), ∀ mask, f mask = (ret, ns.foldl numaBitmaskSetbit mask)

theorem bits_foldl_numaBitmaskSetbit (ns : List Nat) (mask : Bitmask) :
    (ns.foldl numaBitmaskSetbit mask).bits = mask.bits ∪ ns.toFinset.filter (· < mask.size) :=
  bits_foldl_setbit mask ns

theorem size_foldl_numaBitmaskSetbit (ns : List Nat) (mask : Bitmask) :
    (ns.foldl numaBitmaskSetbit mask).size = mask.size :=
  size_foldl_setbit mask true ns

theorem adds_const (ret : Int) : Adds fun mask => (ret, mask) := ⟨ret, [], fun _ => rfl⟩

theorem Adds.nodeParse {f : Bitmask → Int × Bitmask} (h : Adds f) : Adds fun mask => nodeParse (f mask) := by
  obtain ⟨ret, ns, h⟩ := h
  refine ⟨if ret < 0 then -1 else 0, ns, fun mask => ?_⟩
  unfold Numactl.nodeParse
  dsimp only
  rw [h mask]
  split
  · rfl
  · rfl

theorem adds_sysfsNodeLoop (numprocnode fuel : Nat) (m : List Char) : Adds (sysfsNodeLoop numprocnode fuel m) := by
  induction fuel generalizing m with
  | zero => exact adds_const (-1)
  | succ fuel ih =>
      change Adds fun mask => sysfsNodeLoop numprocnode (fuel + 1) m mask
      simp only [sysfsNodeLoop]
      by_cases hnone : (CString.strtol 0 m).2 = m
      · simp only [hnone, if_true]
        exact adds_const (-1)
      by_cases hneg : (BitVec.ofInt 32 (CString.strtol 0 m).1).toInt < 0
      · simp only [hnone, hneg, if_true, if_false]
        exact adds_const (-2)
      by_cases hlarge : (numprocnode : Int) ≤ (BitVec.ofInt 32 (CString.strtol 0 m).1).toInt
      · simp only [hnone, hneg, hlarge, if_true, if_false]
        exact adds_const (-1)
      simp only [hnone, hneg, hlarge, if_false]
      generalize (BitVec.ofInt 32 (CString.strtol 0 m).1).toInt.toNat = num
      generalize (CString.strtol 0 m).2.dropWhile (fun c => CString.isspace c || c = ',') = rest
      by_cases hmore : rest.head?.any CString.isdigit = true
      · obtain ⟨ret, ns, h⟩ := ih rest
        refine ⟨ret, num :: ns, fun mask => ?_⟩
        dsimp only
        rw [if_pos hmore, h, List.foldl_cons]
      · refine ⟨0, [num], fun mask => ?_⟩
        dsimp only
        rw [if_neg hmore]
        rfl

theorem adds_sysfsNodeRead (g : Globals) (file : Option (List Char)) : Adds (sysfsNodeRead g file) := by
  cases file with
  | none => exact adds_const (-1)
  | some text => exact adds_sysfsNodeLoop _ _ _

theorem adds_affinityClass (g : Globals) (dv : Devices) (cls dev : List Char) :
    Adds fun mask => affinityClass g dv mask cls dev := by
  unfold affinityClass
  dsimp only
  by_cases hbad : ((dev.dropWhile CString.isspace).any fun c => c = '/' || c = '.') = true
  · simp only [hbad, if_true]
    exact adds_const (-1)
  · simp only [hbad, if_false, Bool.false_eq_true]
    exact (adds_sysfsNodeRead g _).nodeParse

theorem adds_handler (g : Globals) (dv : Devices) (desc : List Char) (h : Handler) :
    Adds fun mask => h.handler g dv mask desc := by
  cases h with
  | netdev => exact adds_affinityClass g dv _ _
  | ip =>
      simp only [Handler.handler, affinityIp]
      cases dv.routeInterface desc with
      | none => exact adds_const (-1)
      | some name => exact adds_affinityClass g dv _ _
  | file =>
      simp only [Handler.handler, affinityFile]
      cases dv.blockDevice desc with
      | none => exact adds_const (-1)
      | some name => exact adds_affinityClass g dv _ _
  | block => exact adds_affinityClass g dv _ _
  | pci => exact (adds_sysfsNodeRead g _).nodeParse

theorem adds_resolveAffinity (g : Globals) (dv : Devices) (id : List Char) :
    Adds (resolveAffinity g dv id) := by
  unfold resolveAffinity
  cases handlers.find? fun h => h.name.isPrefixOf id with
  | none => exact adds_const noIoAffinity
  | some h => exact adds_handler g dv _ h

theorem isalpha_of_handler {s : List Char} {h : Handler} (hs : h.name.isPrefixOf s = true) :
    s.head?.any CString.isalpha = true := by
  rw [List.isPrefixOf_iff_prefix] at hs
  obtain ⟨rest, rfl⟩ := hs
  cases h <;> rfl

theorem resolveAffinity_ne {g : Globals} {dv : Devices} {id : List Char} {mask : Bitmask}
    (h : (handlers.any fun h => h.name.isPrefixOf id) = true) :
    (resolveAffinity g dv id mask).1 ≠ noIoAffinity := by
  have hparse : ∀ r : Int × Bitmask, (nodeParse r).1 ≠ noIoAffinity := by
    intro r
    unfold nodeParse noIoAffinity
    split <;> simp
  have hclass : ∀ cls dev, (affinityClass g dv mask cls dev).1 ≠ noIoAffinity := by
    intro cls dev
    unfold affinityClass
    dsimp only
    split
    · simp [noIoAffinity]
    · exact hparse _
  unfold resolveAffinity
  cases hfind : handlers.find? fun h => h.name.isPrefixOf id with
  | none =>
      rw [List.find?_eq_none] at hfind
      rw [List.any_eq_true] at h
      obtain ⟨k, hk, hname⟩ := h
      exact absurd hname (hfind k hk)
  | some k =>
      cases k with
      | netdev => exact hclass _ _
      | ip =>
          simp only [Handler.handler, affinityIp]
          cases dv.routeInterface _ with
          | none => simp [noIoAffinity]
          | some name => exact hclass _ _
      | file =>
          simp only [Handler.handler, affinityFile]
          cases dv.blockDevice _ with
          | none => simp [noIoAffinity]
          | some name => exact hclass _ _
      | block => exact hclass _ _
      | pci => exact hparse _

theorem resolveAffinity_eq {g : Globals} {dv : Devices} {id : List Char} {mask : Bitmask}
    (h : ¬(handlers.any fun h => h.name.isPrefixOf id) = true) :
    resolveAffinity g dv id mask = (noIoAffinity, mask) := by
  have hfind : (handlers.find? fun h => h.name.isPrefixOf id) = none := by
    rw [List.find?_eq_none]
    intro k hk hname
    exact h (List.any_eq_true.mpr ⟨k, hk, hname⟩)
  rw [resolveAffinity, hfind]

/-- An item of a node list that is a word: `all`, or a device. -/
def isNodeWord (s : List Char) : Bool :=
  decide (s = all) || handlers.any fun h => h.name.isPrefixOf s

theorem isalpha_of_isNodeWord {s : List Char} (h : isNodeWord s = true) :
    s.head?.any CString.isalpha = true := by
  rw [isNodeWord, Bool.or_eq_true, decide_eq_true_eq, List.any_eq_true] at h
  obtain rfl | ⟨k, -, hname⟩ := h
  · rfl
  · exact isalpha_of_handler hname

/-- The nodes a device item stands for. -/
def deviceNodes (g : Globals) (dv : Devices) (s : List Char) : Finset Nat :=
  (resolveAffinity g dv s g.numaAllocateNodemask).2.bits

/-- The branch of the loop body for items that start with a letter. -/
theorem nodeArgs_word (g : Globals) (dv : Devices) (allowed : Bitmask) (relative : Bool) (s : List Char)
    (mask : Bitmask) :
    (nodeArgs g dv allowed relative).word s mask =
      if isNodeWord s = true then
        some (if s = all then some (copyBitmaskToBitmask allowed mask)
          else if (resolveAffinity g dv s mask).1 < 0 then none else some (resolveAffinity g dv s mask).2)
      else none := by
  simp only [nodeArgs]
  by_cases hword : isNodeWord s = true
  · rw [if_pos hword, if_pos (isalpha_of_isNodeWord hword)]
    by_cases hall : s = all
    · rw [if_pos hall, if_pos hall]
    · have hdev : (handlers.any fun h => h.name.isPrefixOf s) = true := by
        simpa [isNodeWord, hall] using hword
      rw [if_neg hall, if_neg hall, if_neg (resolveAffinity_ne hdev)]
      split <;> rfl
  · have hnot : s ≠ all ∧ ¬(handlers.any fun h => h.name.isPrefixOf s) = true := by
      rw [isNodeWord, Bool.or_eq_true, decide_eq_true_eq] at hword
      exact not_or.mp hword
    rw [if_neg hword, if_neg hnot.1, resolveAffinity_eq hnot.2, if_pos rfl]
    split <;> rfl

/-- The words of node lists: `all` stands for the allowed nodes, a device adds its nodes. -/
def nodeMeaning (g : Globals) (dv : Devices) {allowed : Bitmask} (hfits : allowed.FitsIn g.nodemaskSz)
    (relative : Bool) : ListMeaning (nodeArgs g dv allowed relative) g.nodemaskSz where
  isWord := isNodeWord
  wordSet s X :=
    if s = all then some allowed.bits
    else if (resolveAffinity g dv s g.numaAllocateNodemask).1 < 0 then none
    else some (X ∪ deviceNodes g dv s)
  isSome_word s mask := by
    rw [nodeArgs_word]
    by_cases h : isNodeWord s = true <;> simp [h]
  size_word s mask m h := by
    obtain ⟨ret, ns, hadds⟩ := adds_resolveAffinity g dv s
    rw [nodeArgs_word, Option.ite_none_right_eq_some, Option.some.injEq] at h
    obtain ⟨-, h⟩ := h
    by_cases hall : s = all
    · rw [if_pos hall, Option.some.injEq] at h
      rw [← h, size_copyBitmaskToBitmask]
    · rw [if_neg hall, Option.ite_none_left_eq_some, Option.some.injEq] at h
      rw [← h.2, hadds mask, size_foldl_numaBitmaskSetbit]
  bits_word s mask hword hsize := by
    obtain ⟨ret, ns, hadds⟩ := adds_resolveAffinity g dv s
    rw [nodeArgs_word, if_pos hword, Option.getD_some]
    by_cases hall : s = all
    · rw [if_pos hall, if_pos hall, Option.map_some, hfits.bits_copy hsize]
    · have hzero : g.numaAllocateNodemask.bits = ∅ := bits_zeroBitmask _
      have hnodes : deviceNodes g dv s = ns.toFinset.filter (· < g.nodemaskSz) := by
        rw [deviceNodes, hadds, bits_foldl_numaBitmaskSetbit, hzero, Finset.empty_union]
        rfl
      rw [if_neg hall, if_neg hall, hnodes, hadds mask, hadds g.numaAllocateNodemask]
      dsimp only
      split
      · rfl
      · rw [Option.map_some, bits_foldl_numaBitmaskSetbit, hsize]
  readItem_word s h := NumberList.readItem_of_isalpha (isalpha_of_isNodeWord h)

/-- The only word of CPU lists is `all`. -/
def cpuMeaning (g : Globals) {allowed : Bitmask} (hfits : allowed.FitsIn g.cpumaskSz) (relative : Bool) :
    ListMeaning (cpuArgs g allowed relative) g.cpumaskSz where
  isWord s := decide (s = all)
  wordSet _ _ := some allowed.bits
  isSome_word s mask := by
    by_cases h : s = all <;> simp [cpuArgs, h]
  size_word s mask m h := by
    by_cases hall : s = all
    · simp only [cpuArgs, hall, if_true, Option.some.injEq] at h
      rw [← h, size_copyBitmaskToBitmask]
    · simp [cpuArgs, hall] at h
  bits_word s mask hword hsize := by
    simp only [cpuArgs, of_decide_eq_true hword, if_true, Option.getD_some, Option.map_some,
      hfits.bits_copy hsize]
  readItem_word s h := NumberList.readItem_of_isalpha (by rw [of_decide_eq_true h]; rfl)

/-! ### Relative numbers -/

/-- The loop of `get_nr` with `k` set bits still to pass: it stops behind the set bit that has `k` more
set bits before it than `i`, if there is one in its reach, else at its end. -/
theorem getNrLoop_spec (bmp : Bitmask) (fuel i k : Nat) :
    (∃ a ∈ bmp.bits, a < i + fuel ∧ Nat.count (· ∈ bmp.bits) a = Nat.count (· ∈ bmp.bits) i + k ∧
        getNrLoop bmp fuel i k = a + 1) ∨
      ((∀ a ∈ bmp.bits, i ≤ a → a < i + fuel →
          Nat.count (· ∈ bmp.bits) a ≠ Nat.count (· ∈ bmp.bits) i + k) ∧
        getNrLoop bmp fuel i k = i + fuel) := by
  induction fuel generalizing i k with
  | zero => exact Or.inr ⟨fun a _ hi hlt => absurd hlt (by omega), rfl⟩
  | succ fuel ih =>
      have hcount := Nat.count_succ (· ∈ bmp.bits) i
      rw [getNrLoop, if_pos (Int.natCast_nonneg k)]
      by_cases hbit : i ∈ bmp.bits
      · rw [if_pos ((numaBitmaskIsbitset_eq_true _ _).mpr hbit)]
        rw [if_pos hbit] at hcount
        cases k with
        | zero =>
            refine Or.inl ⟨i, hbit, by omega, by omega, ?_⟩
            cases fuel with
            | zero => rfl
            | succ fuel => rw [getNrLoop, if_neg (by simp)]
        | succ k =>
            rw [Int.natCast_succ, Int.add_sub_cancel]
            obtain ⟨a, ha, hlt, hrank, hloop⟩ | ⟨hnone, hloop⟩ := ih (i + 1) k
            · exact Or.inl ⟨a, ha, by omega, by omega, hloop⟩
            · refine Or.inr ⟨fun a ha hi hlt hrank => ?_, by omega⟩
              obtain rfl | hne := Nat.eq_or_lt_of_le hi
              · omega
              · exact hnone a ha hne (by omega) (by omega)
      · rw [if_neg (mt (numaBitmaskIsbitset_eq_true _ _).mp hbit)]
        rw [if_neg hbit] at hcount
        obtain ⟨a, ha, hlt, hrank, hloop⟩ | ⟨hnone, hloop⟩ := ih (i + 1) k
        · exact Or.inl ⟨a, ha, by omega, by omega, hloop⟩
        · refine Or.inr ⟨fun a ha hi hlt hrank => ?_, by omega⟩
          obtain rfl | hne := Nat.eq_or_lt_of_le hi
          · exact hbit ha
          · exact hnone a ha hne (by omega) (by omega)

/-- The numeral's value `v` names `a`: under `+` the `v`-th allowed number, counted from 0, else the
allowed number `v`. -/
def Names (allowed : Finset Nat) (relative : Bool) (v a : Nat) : Prop :=
  a ∈ allowed ∧ if relative then Nat.count (· ∈ allowed) a = v else a = v

/-- A relative number counts off the allowed numbers. Where there are not enough of them, what `get_nr`
returns is past the mask. -/
theorem translate_relative {bmp : Bitmask} (hsize : bmp.size < 2 ^ 31) {v : Nat} (hv : v < 2 ^ 64) :
    (∃ a ∈ bmp.bits, Nat.count (· ∈ bmp.bits) a = v ∧ translate bmp true v = a) ∨
      (∀ a ∈ bmp.bits, Nat.count (· ∈ bmp.bits) a ≠ v) ∧ bmp.size ≤ translate bmp true v := by
  simp only [translate, if_true]
  have hlt : ∀ b ∈ bmp.bits, b < bmp.size := fun b hb => (Bitmask.mem_bits.mp hb).1
  have hzero : Nat.count (· ∈ bmp.bits) 0 = 0 := Nat.count_zero _
  by_cases hneg : 2 ^ 63 ≤ v
  · have hint : (BitVec.ofNat 64 v).toInt < 0 := by
      rw [BitVec.toInt_eq_toNat_cond, BitVec.toNat_ofNat, Nat.mod_eq_of_lt hv, if_neg (by omega)]
      omega
    have hloop : getNrLoop bmp (bmp.size + 1) 0 (BitVec.ofNat 64 v).toInt = 0 := by
      rw [getNrLoop, if_neg (by omega)]
    rw [hloop]
    refine Or.inr ⟨fun a ha hrank => ?_, by omega⟩
    have := hlt a ha
    have := Nat.count_le (p := (· ∈ bmp.bits)) (n := a)
    omega
  · have hint : (BitVec.ofNat 64 v).toInt = (v : Int) := by
      rw [BitVec.toInt_eq_toNat_cond, BitVec.toNat_ofNat, Nat.mod_eq_of_lt hv, if_pos (by omega)]
    rw [hint]
    obtain ⟨b, hb, hreach, hrank, hloop⟩ | ⟨hnone, hloop⟩ := getNrLoop_spec bmp (bmp.size + 1) 0 v
    · have := hlt b hb
      exact Or.inl ⟨b, hb, by omega, by omega⟩
    · refine Or.inr ⟨fun a ha hrank => ?_, by omega⟩
      have := hlt a ha
      exact absurd (by omega) (hnone a ha (Nat.zero_le a) (by omega))

/-- What `get_nr` returns is the number named, where it is an allowed number at all. -/
theorem translate_eq_iff {bmp : Bitmask} (hsize : bmp.size < 2 ^ 31) (relative : Bool) {v : Nat}
    (hv : v < 2 ^ 64) (a : Nat) :
    translate bmp relative v = a ∧ a ∈ bmp.bits ↔ Names bmp.bits relative v a := by
  cases relative with
  | false =>
      simp only [translate, Names, Bool.false_eq_true, if_false]
      exact ⟨fun h => ⟨h.2, h.1.symm⟩, fun h => ⟨h.2.symm, h.1⟩⟩
  | true =>
      simp only [Names, if_true]
      obtain ⟨b, hb, hrank, hval⟩ | ⟨hnone, hpast⟩ := translate_relative hsize hv
      · rw [hval]
        refine ⟨fun h => ⟨h.2, ?_⟩, fun h => ⟨?_, h.1⟩⟩
        · rw [← h.1, hrank]
        · exact Nat.count_injective (p := (· ∈ bmp.bits)) hb h.1 (hrank.trans h.2.symm)
      · refine ⟨fun h => ?_, fun h => absurd h.2 (hnone a h.1)⟩
        have := (Bitmask.mem_bits.mp h.2).1
        omega

/-- A relative numeral names a node exactly when it is below the number of allowed nodes. -/
theorem exists_names_relative_iff (allowed : Finset Nat) (v : Nat) :
    (∃ a, Names allowed true v a) ↔ v < allowed.card := by
  have hfin : (Set.ofPred (· ∈ allowed)).Finite := allowed.finite_toSet
  have hcard : hfin.toFinset = allowed := Finset.finite_toSet_toFinset allowed
  simp only [Names, if_true]
  refine ⟨fun h => ?_, fun h => ?_⟩
  · obtain ⟨a, ha, rfl⟩ := h
    calc Nat.count (· ∈ allowed) a < hfin.toFinset.card := Nat.count_lt_card hfin ha
      _ = allowed.card := by rw [hcard]
  · have hlt : v < hfin.toFinset.card := by rw [hcard]; exact h
    exact ⟨Nat.nth (· ∈ allowed) v, Nat.nth_mem_of_lt_card hfin hlt, Nat.count_nth fun _ => hlt⟩

/-! ### Node lists -/

/-- The nodes an item stands for. -/
inductive ItemMeans (allowed : Finset Nat) (relative : Bool) : Item → Finset Nat → Prop where
  | one {v a} : Names allowed relative v a → ItemMeans allowed relative (.one v) {a}
  | range {v w a b} : Names allowed relative v a → Names allowed relative w b →
      ItemMeans allowed relative (.range v w) (insert a (allowed.filter fun i => a ≤ i ∧ i ≤ b))

inductive ItemsMean (allowed : Finset Nat) (relative : Bool) : List Item → Finset Nat → Prop where
  | nil : ItemsMean allowed relative [] ∅
  | cons {it its X Y} : ItemMeans allowed relative it X → ItemsMean allowed relative its Y →
      ItemsMean allowed relative (it :: its) (X ∪ Y)

/-- Comma-separated numerals and ranges, possibly with a final `all`, stand for the nodes `X`. -/
def ItemsText (allowed : Finset Nat) (relative : Bool) (s : List Char) (X : Finset Nat) : Prop :=
  ∃ its w Y, ReadsList (fun t => decide (t = all)) s its w ∧ ItemsMean allowed relative its Y ∧
    X = w.elim Y fun _ => Y ∪ allowed

/-- The language of node lists without inversion and devices: the string `s` stands for the nodes `X`. -/
inductive NodeList (allowed : Finset Nat) : List Char → Finset Nat → Prop where
  | empty : NodeList allowed [] ∅
  | absolute {s X} : s.head? ≠ some '+' → ItemsText allowed false s X → NodeList allowed s X
  | relative {s X} : ItemsText allowed true s X → NodeList allowed ('+' :: s) X

/-- `t` is the string from an item on: after an optional `+`, or after a comma. -/
def AtItem (s t : List Char) : Prop := t = s ∨ s = '+' :: t ∨ ∃ pre, s = pre ++ ',' :: t

/-- No item of the string starts with `netdev:`, `ip:`, `file:`, `block:` or `pci:`. -/
def NoDevice (s : List Char) : Prop := ∀ t, AtItem s t → ∀ h : Handler, ¬h.name <+: t

theorem noDevice_of_no_colon {s : List Char} (h : ':' ∉ s) : NoDevice s := by
  intro t ht k hk
  have hcolon : ':' ∈ k.name := by cases k <;> decide
  have hmem : ':' ∈ t := hk.subset hcolon
  obtain rfl | rfl | ⟨pre, rfl⟩ := ht
  · exact h hmem
  · exact h (List.mem_cons_of_mem _ hmem)
  · exact h (List.mem_append_right _ (List.mem_cons_of_mem _ hmem))

theorem ItemsMean.subset {allowed : Finset Nat} {relative : Bool} {its : List Item} {X : Finset Nat}
    (h : ItemsMean allowed relative its X) : X ⊆ allowed := by
  have hitem : ∀ it Y, ItemMeans allowed relative it Y → Y ⊆ allowed := by
    intro it Y hit
    cases hit with
    | one ha => exact Finset.singleton_subset_iff.mpr ha.1
    | range ha hb => exact Finset.insert_subset ha.1 (Finset.filter_subset _ _)
  induction h with
  | nil => exact Finset.empty_subset allowed
  | cons hit _ ih => exact Finset.union_subset (hitem _ _ hit) ih

section

variable (g : Globals) (dv : Devices) {allowed : Bitmask} (relative : Bool)

theorem outOfRange_nodeArgs (arg : Nat) :
    ¬(nodeArgs g dv allowed relative).outOfRange arg = true ↔ arg ∈ allowed.bits := by
  simp only [nodeArgs, Bool.or_eq_true, decide_eq_true_eq, Bool.not_eq_true', not_or, not_le,
    Bool.not_eq_false, numaBitmaskIsbitset_eq_true]
  exact ⟨fun h => h.2, fun h => ⟨(Bitmask.mem_bits.mp h).1, h⟩⟩

/-- What an argument has to be, seen from the text. -/
theorem nr_nodeArgs_iff (hsize : allowed.size < 2 ^ 31) {v : Nat} (hv : v < 2 ^ 64) (a : Nat) :
    (nodeArgs g dv allowed relative).nr v = a ∧ ¬(nodeArgs g dv allowed relative).outOfRange a = true ↔
      Names allowed.bits relative v a := by
  rw [outOfRange_nodeArgs]
  exact translate_eq_iff hsize relative hv a

theorem itemSet_nodeArgs_iff (hsize : allowed.size < 2 ^ 31) {n : Nat} (hlt : ∀ i ∈ allowed.bits, i < n)
    {t : List Char} {it : Item} (hit : ReadsItem t it) (X : Finset Nat) :
    (nodeArgs g dv allowed relative).itemSet n it = some X ↔ ItemMeans allowed.bits relative it X := by
  have hkeep : ∀ Y ⊆ allowed.bits, Y.filter (· < n) = Y := fun Y hY =>
    Finset.filter_true_of_mem fun i hi => hlt i (hY hi)
  cases hit with
  | @one t v hv =>
      have hiff := nr_nodeArgs_iff g dv relative hsize hv.lt
      simp only [ListArgs.itemSet, Option.ite_none_left_eq_some, Option.some.injEq]
      refine ⟨fun h => ?_, fun h => ?_⟩
      · obtain ⟨hok, rfl⟩ := h
        have ha := (hiff _).mp ⟨rfl, hok⟩
        rw [hkeep _ (Finset.singleton_subset_iff.mpr ha.1)]
        exact .one ha
      · cases h with
        | one ha =>
            obtain ⟨rfl, hok⟩ := (hiff _).mpr ha
            exact ⟨hok, hkeep _ (Finset.singleton_subset_iff.mpr ha.1)⟩
  | @range t u v w hv hw =>
      have hiff := nr_nodeArgs_iff g dv relative hsize hv.lt
      have hiff' := nr_nodeArgs_iff g dv relative hsize hw.lt
      have hset : ∀ a b, a ∈ allowed.bits →
          (insert a ((nodeArgs g dv allowed relative).allowed.bits.filter fun i => a ≤ i ∧ i ≤ b)).filter
              (· < n) = insert a (allowed.bits.filter fun i => a ≤ i ∧ i ≤ b) := fun a b ha =>
        hkeep _ (Finset.insert_subset ha (Finset.filter_subset _ _))
      simp only [ListArgs.itemSet, Option.ite_none_left_eq_some, Option.some.injEq]
      refine ⟨fun h => ?_, fun h => ?_⟩
      · obtain ⟨hok, hok', rfl⟩ := h
        have ha := (hiff _).mp ⟨rfl, hok⟩
        have hb := (hiff' _).mp ⟨rfl, hok'⟩
        rw [hset _ _ ha.1]
        exact .range ha hb
      · cases h with
        | range ha hb =>
            obtain ⟨rfl, hok⟩ := (hiff _).mpr ha
            obtain ⟨rfl, hok'⟩ := (hiff' _).mpr hb
            exact ⟨hok, hok', hset _ _ ha.1⟩

theorem itemsSet_nodeArgs_iff (hsize : allowed.size < 2 ^ 31) {n : Nat} (hlt : ∀ i ∈ allowed.bits, i < n)
    {isWord : List Char → Bool} {t : List Char} {its : List Item} {w : Option (List Char)}
    (hlist : ReadsList isWord t its w) (X : Finset Nat) :
    (nodeArgs g dv allowed relative).itemsSet n its = some X ↔ ItemsMean allowed.bits relative its X := by
  have hnil : ∀ Y, (nodeArgs g dv allowed relative).itemsSet n [] = some Y ↔
      ItemsMean allowed.bits relative [] Y := by
    intro Y
    rw [ListArgs.itemsSet, Option.some.injEq]
    refine ⟨fun h => h ▸ .nil, fun h => ?_⟩
    cases h
    rfl
  have hcons : ∀ {t it its}, ReadsItem t it →
      (∀ Y, (nodeArgs g dv allowed relative).itemsSet n its = some Y ↔ ItemsMean allowed.bits relative its Y) →
      ∀ Y, (nodeArgs g dv allowed relative).itemsSet n (it :: its) = some Y ↔
        ItemsMean allowed.bits relative (it :: its) Y := by
    intro t it its hit ih Y
    have hitem := itemSet_nodeArgs_iff g dv relative hsize hlt hit
    simp only [ListArgs.itemsSet, Option.bind_eq_some_iff, Option.map_eq_some_iff]
    refine ⟨fun h => ?_, fun h => ?_⟩
    · obtain ⟨X, hX, Z, hZ, rfl⟩ := h
      exact .cons ((hitem X).mp hX) ((ih Z).mp hZ)
    · cases h with
      | cons hX hZ => exact ⟨_, (hitem _).mpr hX, _, (ih _).mpr hZ, rfl⟩
  induction hlist generalizing X with
  | word _ => exact hnil X
  | last hit => exact hcons hit hnil X
  | cons hit _ ih => exact hcons hit ih X

end

/-- Where no item is a device, the only word is `all`. -/
theorem readsList_all_iff {t : List Char}
    (hdev : ∀ u, u = t ∨ (∃ pre, t = pre ++ ',' :: u) → ∀ h : Handler, ¬h.name <+: u)
    (its : List Item) (w : Option (List Char)) :
    ReadsList isNodeWord t its w ↔ ReadsList (fun u => decide (u = all)) t its w := by
  refine ⟨fun h => h.imp fun u hu hword => ?_, fun h => h.imp fun u _ hword => ?_⟩
  · rw [isNodeWord, Bool.or_eq_true, List.any_eq_true] at hword
    obtain hall | ⟨k, -, hk⟩ := hword
    · exact hall
    · exact absurd (List.isPrefixOf_iff_prefix.mp hk) (hdev u hu k)
  · rw [isNodeWord, hword, Bool.true_or]

theorem named_nodeMeaning_iff (g : Globals) (dv : Devices) {allowed : Bitmask} (relative : Bool)
    (hsize : allowed.size < 2 ^ 31) (hfits : allowed.FitsIn g.nodemaskSz) {t : List Char}
    (hdev : ∀ u, u = t ∨ (∃ pre, t = pre ++ ',' :: u) → ∀ h : Handler, ¬h.name <+: u) (X : Finset Nat) :
    (nodeMeaning g dv hfits relative).Named t X ↔ ItemsText allowed.bits relative t X := by
  have hlt : ∀ i ∈ allowed.bits, i < g.nodemaskSz := fun i hi => hfits.lt hi
  have hword : ∀ {u its Y}, ReadsList isNodeWord t its (some u) → ItemsMean allowed.bits relative its Y →
      ((nodeMeaning g dv hfits relative).wordSet u Y = some X ↔ X = Y ∪ allowed.bits) := by
    intro u its Y hread hmean
    have hall : u = all := of_decide_eq_true ((readsList_all_iff hdev _ _).mp hread).isWord
    rw [nodeMeaning]
    dsimp only
    rw [if_pos hall, Option.some.injEq, Finset.union_eq_right.mpr hmean.subset, eq_comm]
  have hfinal : ∀ {its w Y}, ReadsList isNodeWord t its w → ItemsMean allowed.bits relative its Y →
      (w.elim (some Y) (fun u => (nodeMeaning g dv hfits relative).wordSet u Y) = some X ↔
        X = w.elim Y fun _ => Y ∪ allowed.bits) := by
    intro its w Y hread hmean
    cases w with
    | none => rw [Option.elim_none, Option.elim_none, Option.some.injEq, eq_comm]
    | some u => exact hword hread hmean
  refine ⟨fun h => ?_, fun h => ?_⟩
  · obtain ⟨its, w, Y, hread, hset, hX⟩ := h
    have hmean := (itemsSet_nodeArgs_iff g dv relative hsize hlt hread Y).mp hset
    exact ⟨its, w, Y, (readsList_all_iff hdev its w).mp hread, hmean, (hfinal hread hmean).mp hX⟩
  · obtain ⟨its, w, Y, hread, hmean, hX⟩ := h
    have hread := (readsList_all_iff hdev its w).mpr hread
    exact ⟨its, w, Y, hread, (itemsSet_nodeArgs_iff g dv relative hsize hlt hread Y).mpr hmean,
      (hfinal hread hmean).mpr hX⟩

/-- Without the inversion, what follows an optional `+` is parsed into the set it names. -/
theorem bits_parseString_iff {args : Bool → ListArgs} {n conf : Nat} (M : ∀ r, ListMeaning (args r) n)
    {s : List Char} (hbang : s.head? ≠ some '!') {mask : Bitmask} (hsize : mask.size = n)
    (hempty : mask.bits = ∅) (X : Finset Nat) :
    (parseString args conf s mask).map Bitmask.bits = some X ↔
      if s.head? = some '+' then (M true).Named s.tail X else (M false).Named s X := by
  unfold parseString
  by_cases hplus : s.head? = some '+'
  · simp only [hplus, if_false, if_true, decide_true, Option.map_id', Option.some.injEq, Char.reduceEq]
    exact parseItems_iff (M true) s.tail hsize hempty X
  · simp only [hplus, hbang, if_false, decide_false, Option.map_id', Bool.false_eq_true]
    exact parseItems_iff (M false) s hsize hempty X

/-- A list text without inversion and devices gives a mask exactly when it is a node list, and the mask
holds the nodes the list stands for. -/
theorem numaParseNodestring_iff_nodeList (g : Globals) (dv : Devices) (s : List Char)
    (hbang : s.head? ≠ some '!') (hdev : NoDevice s) :
    (∀ X, (numaParseNodestring g dv s).map Bitmask.bits = some X ↔ NodeList g.numaAllNodesPtr.bits s X) ∧
      (numaParseNodestring g dv s = none ↔ ∀ X, ¬NodeList g.numaAllNodesPtr.bits s X) := by
  have hfits : g.numaAllNodesPtr.FitsIn g.nodemaskSz := g.all_nodes_size ▸ Bitmask.fitsIn_size _
  have hsize : g.numaAllNodesPtr.size < 2 ^ 31 := g.all_nodes_size ▸ g.nodemask_lt
  have hiff : ∀ X, (numaParseNodestring g dv s).map Bitmask.bits = some X ↔
      NodeList g.numaAllNodesPtr.bits s X := by
    intro X
    unfold numaParseNodestring parseNodestring
    cases s with
    | nil =>
        have hno : g.numaNoNodesPtr.FitsIn g.nodemaskSz := Bitmask.fitsIn_size _
        have hempty : (copyBitmaskToBitmask g.numaNoNodesPtr g.numaAllocateNodemask).bits = ∅ :=
          (hno.bits_copy (size_zeroBitmask _)).trans (bits_zeroBitmask _)
        rw [if_pos rfl, Option.map_some, hempty, Option.some.injEq]
        refine ⟨fun h => h ▸ .empty, fun h => ?_⟩
        cases h with
        | empty => rfl
        | absolute _ htext =>
            obtain ⟨its, w, Y, hread, -⟩ := htext
            exact absurd rfl (hread.ne_nil rfl)
    | cons c t =>
        have hempty : g.numaAllocateNodemask.bits = ∅ := bits_zeroBitmask _
        have hzero : g.numaAllocateNodemask.size = g.nodemaskSz := size_zeroBitmask _
        dsimp only
        rw [if_neg (List.cons_ne_nil c t),
          bits_parseString_iff (nodeMeaning g dv hfits) hbang hzero hempty X]
        by_cases hplus : c = '+'
        · subst hplus
          rw [List.head?_cons, if_pos rfl, List.tail_cons,
            named_nodeMeaning_iff g dv true hsize hfits fun u hu => hdev u (by
              obtain rfl | ⟨pre, rfl⟩ := hu
              · exact Or.inr (Or.inl rfl)
              · exact Or.inr (Or.inr ⟨'+' :: pre, rfl⟩))]
          refine ⟨.relative, fun h => ?_⟩
          cases h with
          | absolute hne _ => exact absurd rfl hne
          | relative h => exact h
        · have hhead : (c :: t).head? ≠ some '+' := by simpa using hplus
          rw [if_neg hhead, named_nodeMeaning_iff g dv false hsize hfits fun u hu => hdev u (by
              obtain rfl | h := hu
              · exact Or.inl rfl
              · exact Or.inr (Or.inr h))]
          refine ⟨.absolute hhead, fun h => ?_⟩
          cases h with
          | absolute _ h => exact h
          | relative h => exact absurd rfl hplus
  refine ⟨hiff, fun h X hX => ?_, fun h => ?_⟩
  · rw [← hiff, h] at hX
    cases hX
  · cases hparse : numaParseNodestring g dv s with
    | none => rfl
    | some mask =>
        refine absurd ((hiff mask.bits).mp ?_) (h mask.bits)
        rw [hparse, Option.map_some]

/-- A machine with the nodes 0 and 2, all of them allowed. -/
def gapGlobals : Globals where
  nodemaskSz := 64
  cpumaskSz := 64
  maxconfigurednode := 2
  numConfiguredCpus := 4
  numprocnode := 2
  numaMemnodePtr := [0, 2].foldl numaBitmaskSetbit (zeroBitmask 64)
  numaAllNodesPtr := [0, 2].foldl numaBitmaskSetbit (zeroBitmask 64)
  numaAllCpusPtr := [0, 1, 2, 3].foldl numaBitmaskSetbit (zeroBitmask 64)
  nodemask_lt := by decide
  cpumask_lt := by decide
  cpumask_pos := by decide
  maxnode_lt := by decide
  memnode_size := rfl
  all_nodes_size := rfl
  all_cpus_size := rfl
  all_nodes_clear _ hi := Words.bit_eq_false_of_length_le hi

def noDevices : Devices := ⟨fun _ _ => none, fun _ => none, fun _ => none, fun _ => none⟩

theorem nodeList_relative_gap : NodeList gapGlobals.numaAllNodesPtr.bits "+1,0x0".toList {0, 2} :=
  ((numaParseNodestring_iff_nodeList gapGlobals noDevices "+1,0x0".toList (by decide)
    (noDevice_of_no_colon (by decide))).1 {0, 2}).mp (by decide +kernel)

end Numactl
