import Numactl.NodeList

/-! CPU lists: comma-separated numerals, ranges and `all`, after an optional `+`. A numeral alone may name
any configured CPU, a range stands for the allowed CPUs in it. `__numa_parse_cpustring` puts the first
CPU of a range into the mask before it knows that it reads a range, and it reads `all` only where the
string ends in it, in place of what was read before. -/

namespace Numactl

open NumberList (Item Numeral ReadsItem ReadsList readItem readList)

/-! ### The language -/

inductive CpuItem where
  | item (it : Item)
  | all
  deriving DecidableEq

/-- `a-b` is a range where `a` is at most `b`. -/
def Ordered : Item → Prop
  | .one _ => True
  | .range v w => v ≤ w

inductive ReadsCpuItem : List Char → CpuItem → Prop where
  | item {t it} : ReadsItem t it → Ordered it → ReadsCpuItem t (.item it)
  | all : ReadsCpuItem Numactl.all .all

inductive ReadsCpus : List Char → List CpuItem → Prop where
  | last {t it} : ReadsCpuItem t it → ReadsCpus t [it]
  | cons {t it s its} : ReadsCpuItem t it → ReadsCpus s its → ReadsCpus (t ++ ',' :: s) (it :: its)

/-- The list `s` is not inverted; the flag says whether it starts with `+`. -/
inductive CpuList : List Char → Bool → List CpuItem → Prop where
  | empty : CpuList [] false []
  | absolute {s its} : s.head? ≠ some '!' → s.head? ≠ some '+' → ReadsCpus s its → CpuList s false its
  | relative {s its} : ReadsCpus s its → CpuList ('+' :: s) true its

def numerals : CpuItem → List Nat
  | .item (.one v) => [v]
  | .item (.range v w) => [v, w]
  | .all => []

section

variable (allowed : Finset Nat) (relative : Bool)

/-- The CPU a numeral's value selects: under `+` it is an index into the allowed CPUs. -/
noncomputable def selected (v : Nat) : Nat := if relative then Nat.nth (· ∈ allowed) v else v

/-- The numeral is an index below the number of allowed CPUs, and the CPU it selects is configured. -/
def InRange (conf v : Nat) : Prop := (relative → v < allowed.card) ∧ selected allowed relative v < conf

/-- The CPUs an item stands for. -/
noncomputable def itemCpus : CpuItem → Finset Nat
  | .item (.one v) => {selected allowed relative v}
  | .item (.range v w) =>
      allowed.filter fun i => selected allowed relative v ≤ i ∧ i ≤ selected allowed relative w
  | .all => allowed

noncomputable def listCpus : List CpuItem → Finset Nat
  | [] => ∅
  | it :: its => itemCpus allowed relative it ∪ listCpus its

/-- What the source puts into the mask for an item, the first endpoint of a range being a CPU alone. -/
noncomputable def setCpus : Item → Finset Nat
  | .one v => {selected allowed relative v}
  | .range v w =>
      insert (selected allowed relative v)
        (allowed.filter fun i => selected allowed relative v ≤ i ∧ i ≤ selected allowed relative w)

noncomputable def setCpusOf : List Item → Finset Nat
  | [] => ∅
  | it :: its => setCpus allowed relative it ∪ setCpusOf its

theorem mem_listCpus {its : List CpuItem} {i : Nat} :
    i ∈ listCpus allowed relative its ↔ ∃ it ∈ its, i ∈ itemCpus allowed relative it := by
  induction its with
  | nil => simp [listCpus]
  | cons it its ih => rw [listCpus, Finset.mem_union, ih, List.exists_mem_cons_iff]

theorem mem_setCpusOf {its : List Item} {i : Nat} :
    i ∈ setCpusOf allowed relative its ↔ ∃ it ∈ its, i ∈ setCpus allowed relative it := by
  induction its with
  | nil => simp [setCpusOf]
  | cons it its ih => rw [setCpusOf, Finset.mem_union, ih, List.exists_mem_cons_iff]

end

/-! ### Reading -/

def isAll (s : List Char) : Bool := decide (s = all)

theorem readItem_all (rest : List Char) : readItem (all ++ rest) = none :=
  NumberList.readItem_of_isalpha (by rw [all]; rfl)

theorem not_isAll_append (t s : List Char) : isAll (t ++ ',' :: s) ≠ true := by
  intro h
  have hcomma : ',' ∈ all := of_decide_eq_true h ▸ List.mem_append_right _ List.mem_cons_self
  exact absurd hcomma (by decide)

/-- Where `all` is not the last item, the text is not read. -/
theorem ReadsCpus.readList_eq_none {s : List Char} {its : List CpuItem} (h : ReadsCpus s its)
    (hall : .all ∈ its.dropLast) (fuel : Nat) : readList isAll fuel s = none := by
  induction h generalizing fuel with
  | last _ => cases hall
  | @cons t it s its hit hrest ih =>
      cases fuel with
      | zero => rfl
      | succ fuel =>
          rw [readList, if_neg (not_isAll_append t s)]
          cases hit with
          | all => rw [readItem_all]
          | @item _ it hread _ =>
              have hne : its ≠ [] := by
                rintro rfl
                cases hrest
              rw [List.dropLast_cons_of_ne_nil hne, List.mem_cons] at hall
              obtain hhead | htail := hall
              · cases hhead
              · rw [NumberList.readItem_append hread (',' :: s) (Or.inr rfl)]
                dsimp only
                rw [if_pos rfl, ih htail fuel]

/-- A text whose only `all` is its last item is read as its items, and the word at its end. -/
theorem ReadsCpus.readsList {s : List Char} {its : List CpuItem} (h : ReadsCpus s its)
    (hall : .all ∉ its.dropLast) :
    ∃ l : List Item, (∀ it ∈ l, Ordered it) ∧
      (its = l.map .item ∧ ReadsList isAll s l none ∨
        its = l.map .item ++ [.all] ∧ ReadsList isAll s l (some all)) := by
  induction h with
  | last hit =>
      cases hit with
      | all => exact ⟨[], by simp, Or.inr ⟨rfl, .word rfl⟩⟩
      | @item _ it hread hord => exact ⟨[it], by simpa using hord, Or.inl ⟨rfl, .last hread⟩⟩
  | @cons t it s its hit hrest ih =>
      have hne : its ≠ [] := by
        rintro rfl
        cases hrest
      rw [List.dropLast_cons_of_ne_nil hne, List.mem_cons, not_or] at hall
      cases hit with
      | all => exact absurd rfl hall.1
      | @item _ it hread hord =>
          obtain ⟨l, hl, hcase⟩ := ih hall.2
          refine ⟨it :: l, List.forall_mem_cons.mpr ⟨hord, hl⟩, ?_⟩
          obtain ⟨rfl, hlist⟩ | ⟨rfl, hlist⟩ := hcase
          · exact Or.inl ⟨rfl, .cons hread hlist⟩
          · exact Or.inr ⟨rfl, .cons hread hlist⟩

/-- What is read are the values of numerals. -/
theorem numerals_lt {isWord : List Char → Bool} {s : List Char} {l : List Item} {w : Option (List Char)}
    (h : ReadsList isWord s l w) : ∀ it ∈ l, ∀ v ∈ numerals (.item it), v < 2 ^ 64 := by
  have hitem : ∀ {t it}, ReadsItem t it → ∀ v ∈ numerals (.item it), v < 2 ^ 64 := by
    intro t it hit v hv
    cases hit with
    | one hn =>
        rw [List.mem_singleton.mp hv]
        exact hn.lt
    | range hn hn' =>
        obtain rfl | hv := List.mem_cons.mp hv
        · exact hn.lt
        · rw [List.mem_singleton.mp hv]
          exact hn'.lt
  induction h with
  | word _ => simp
  | last hit => exact fun it hmem => List.mem_singleton.mp hmem ▸ hitem hit
  | cons hit _ ih => exact List.forall_mem_cons.mpr ⟨hitem hit, ih⟩

/-! ### Items -/

section

variable (g : Globals) {allowed : Bitmask} (relative : Bool)

/-- What `get_nr` returns for a numeral passes the check exactly where the numeral is in range, and is
then the CPU selected. -/
theorem nr_cpuArgs (hsize : allowed.size < 2 ^ 31) (hconf : g.numConfiguredCpus ≤ allowed.size) {v : Nat}
    (hv : v < 2 ^ 64) :
    InRange allowed.bits relative g.numConfiguredCpus v ∧
        (cpuArgs g allowed relative).nr v = selected allowed.bits relative v ∧
        (cpuArgs g allowed relative).outOfRange (selected allowed.bits relative v) = false ∨
      ¬InRange allowed.bits relative g.numConfiguredCpus v ∧
        (cpuArgs g allowed relative).outOfRange ((cpuArgs g allowed relative).nr v) = true := by
  simp only [ListArgs.nr, cpuArgs, decide_eq_true_eq, decide_eq_false_iff_not, not_le, InRange]
  cases relative with
  | false =>
      simp only [translate, selected, Bool.false_eq_true, if_false, false_imp_iff, true_and]
      obtain hlt | hle := Nat.lt_or_ge v g.numConfiguredCpus
      · exact Or.inl ⟨hlt, hlt⟩
      · exact Or.inr ⟨Nat.not_lt.mpr hle, hle⟩
  | true =>
      have hfin : (Set.ofPred (· ∈ allowed.bits)).Finite := allowed.bits.finite_toSet
      simp only [selected, if_true, true_imp_iff]
      obtain ⟨a, ha, hrank, hval⟩ | ⟨hnone, hpast⟩ := translate_relative hsize hv
      · have hindex : v < allowed.bits.card :=
          (exists_names_relative_iff allowed.bits v).mp ⟨a, ha, by rw [if_pos rfl, hrank]⟩
        have hnth : Nat.nth (· ∈ allowed.bits) v = a := by rw [← hrank, Nat.nth_count ha]
        rw [hval, hnth]
        obtain hlt | hle := Nat.lt_or_ge a g.numConfiguredCpus
        · exact Or.inl ⟨⟨hindex, hlt⟩, rfl, hlt⟩
        · exact Or.inr ⟨fun h => absurd h.2 (Nat.not_lt.mpr hle), hle⟩
      · refine Or.inr ⟨fun h => ?_, hconf.trans hpast⟩
        obtain ⟨a, ha, hrank⟩ := (exists_names_relative_iff allowed.bits v).mpr h.1
        exact hnone a ha (by rwa [if_pos rfl] at hrank)

theorem InRange.selected_lt {X : Finset Nat} {relative : Bool} {conf v : Nat} (h : InRange X relative conf v) :
    selected X relative v < conf := h.2

/-- The CPUs of a range's endpoints are in the order of the numerals. -/
theorem selected_mono {X : Finset Nat} {conf v w : Nat} (hvw : v ≤ w) (hw : InRange X relative conf w) :
    selected X relative v ≤ selected X relative w := by
  cases relative with
  | false => exact hvw
  | true =>
      have hfin : (Set.ofPred (· ∈ X)).Finite := X.finite_toSet
      have hcard : hfin.toFinset = X := Finset.finite_toSet_toFinset X
      have hlt : w < hfin.toFinset.card := by
        rw [hcard]
        exact hw.1 rfl
      exact Nat.nth_le_nth_of_lt_card hfin hvw hlt

theorem itemSet_cpuArgs (hsize : allowed.size < 2 ^ 31) (hconf : g.numConfiguredCpus ≤ allowed.size)
    {it : Item} (hlt : ∀ v ∈ numerals (.item it), v < 2 ^ 64) :
    (∀ v ∈ numerals (.item it), InRange allowed.bits relative g.numConfiguredCpus v) ∧
        (cpuArgs g allowed relative).itemSet allowed.size it = some (setCpus allowed.bits relative it) ∨
      (∃ v ∈ numerals (.item it), ¬InRange allowed.bits relative g.numConfiguredCpus v) ∧
        (cpuArgs g allowed relative).itemSet allowed.size it = none := by
  have hallowed : ∀ i ∈ allowed.bits, i < allowed.size := fun i hi => (Bitmask.mem_bits.mp hi).1
  cases it with
  | one v =>
      simp only [numerals, List.mem_singleton, forall_eq, exists_eq_left, ListArgs.itemSet, setCpus]
      obtain ⟨hin, hnr, hok⟩ | ⟨hout, hbad⟩ := nr_cpuArgs g relative hsize hconf (hlt v (by simp [numerals]))
      · refine Or.inl ⟨hin, ?_⟩
        rw [hnr, hok, if_neg Bool.false_ne_true, Finset.filter_singleton,
          if_pos (hin.selected_lt.trans_le hconf)]
      · exact Or.inr ⟨hout, if_pos hbad⟩
  | range v w =>
      simp only [numerals, List.forall_mem_cons, List.exists_mem_cons_iff, List.not_mem_nil,
        false_imp_iff, implies_true, and_true, false_and, exists_false, or_false, ListArgs.itemSet, setCpus]
      obtain ⟨hin, hnr, hok⟩ | ⟨hout, hbad⟩ := nr_cpuArgs g relative hsize hconf (hlt v (by simp [numerals]))
      · obtain ⟨hin', hnr', hok'⟩ | ⟨hout', hbad'⟩ :=
          nr_cpuArgs g relative hsize hconf (hlt w (by simp [numerals]))
        · refine Or.inl ⟨⟨hin, hin'⟩, ?_⟩
          rw [hnr, hnr', hok, hok', if_neg Bool.false_ne_true, if_neg Bool.false_ne_true, Option.some.injEq]
          refine Finset.filter_true_of_mem fun i hi => ?_
          obtain rfl | hi := Finset.mem_insert.mp hi
          · exact hin.selected_lt.trans_le hconf
          · exact hallowed i (Finset.mem_filter.mp hi).1
        · refine Or.inr ⟨Or.inr hout', ?_⟩
          rw [hnr, hok, if_neg Bool.false_ne_true, if_pos hbad']
      · exact Or.inr ⟨Or.inl hout, if_pos hbad⟩

theorem itemsSet_cpuArgs (hsize : allowed.size < 2 ^ 31) (hconf : g.numConfiguredCpus ≤ allowed.size)
    {l : List Item} (hlt : ∀ it ∈ l, ∀ v ∈ numerals (.item it), v < 2 ^ 64) :
    (∀ it ∈ l, ∀ v ∈ numerals (.item it), InRange allowed.bits relative g.numConfiguredCpus v) ∧
        (cpuArgs g allowed relative).itemsSet allowed.size l = some (setCpusOf allowed.bits relative l) ∨
      ¬(∀ it ∈ l, ∀ v ∈ numerals (.item it), InRange allowed.bits relative g.numConfiguredCpus v) ∧
        (cpuArgs g allowed relative).itemsSet allowed.size l = none := by
  induction l with
  | nil => exact Or.inl ⟨by simp, rfl⟩
  | cons it l ih =>
      rw [List.forall_mem_cons] at hlt
      rw [List.forall_mem_cons, ListArgs.itemsSet, setCpusOf]
      obtain ⟨hin, hset⟩ | ⟨⟨v, hv, hout⟩, hset⟩ := itemSet_cpuArgs g relative hsize hconf hlt.1
      · obtain ⟨hin', hset'⟩ | ⟨hout', hset'⟩ := ih hlt.2
        · exact Or.inl ⟨⟨hin, hin'⟩, by rw [hset, hset', Option.bind_some, Option.map_some]⟩
        · exact Or.inr ⟨fun h => hout' h.2, by rw [hset, hset', Option.bind_some, Option.map_none]⟩
      · exact Or.inr ⟨fun h => hout (h.1 v hv), by rw [hset, Option.bind_none]⟩

end

/-! ### What the source puts in, and what the list stands for -/

section

variable (X : Finset Nat) (relative : Bool) {conf : Nat}

theorem mem_listCpus_map {l : List Item} {i : Nat} :
    i ∈ listCpus X relative (l.map .item) ↔ ∃ it ∈ l, i ∈ itemCpus X relative (.item it) := by
  rw [mem_listCpus]
  refine ⟨fun h => ?_, fun h => ?_⟩
  · obtain ⟨_, hmem, hi⟩ := h
    obtain ⟨it, hit, rfl⟩ := List.mem_map.mp hmem
    exact ⟨it, hit, hi⟩
  · obtain ⟨it, hmem, hi⟩ := h
    exact ⟨_, List.mem_map_of_mem hmem, hi⟩

/-- The two differ by the first endpoints of the ranges. -/
theorem setCpusOf_eq_listCpus_iff {l : List Item} (hord : ∀ it ∈ l, Ordered it)
    (hin : ∀ it ∈ l, ∀ v ∈ numerals (.item it), InRange X relative conf v) :
    setCpusOf X relative l = listCpus X relative (l.map .item) ↔
      ∀ v w, .range v w ∈ l →
        selected X relative v ∈ X ∨ ∃ u, .one u ∈ l ∧ selected X relative u = selected X relative v := by
  refine ⟨fun h v w hmem => ?_, fun h => Finset.ext fun i => ?_⟩
  · have hset : selected X relative v ∈ setCpusOf X relative l :=
      (mem_setCpusOf X relative).mpr ⟨_, hmem, Finset.mem_insert_self _ _⟩
    rw [h, mem_listCpus_map] at hset
    obtain ⟨it, hit, hv⟩ := hset
    cases it with
    | one u => exact Or.inr ⟨u, hit, (Finset.mem_singleton.mp hv).symm⟩
    | range u w => exact Or.inl (Finset.mem_filter.mp hv).1
  · rw [mem_setCpusOf, mem_listCpus_map]
    refine ⟨fun hi => ?_, fun hi => ?_⟩
    · obtain ⟨it, hit, hi⟩ := hi
      cases it with
      | one v => exact ⟨.one v, hit, hi⟩
      | range v w =>
          obtain rfl | hi := Finset.mem_insert.mp hi
          · obtain hallowed | ⟨u, hu, heq⟩ := h v w hit
            · have hle := selected_mono relative (hord _ hit) (hin _ hit w (by simp [numerals]))
              exact ⟨.range v w, hit, Finset.mem_filter.mpr ⟨hallowed, le_rfl, hle⟩⟩
            · exact ⟨.one u, hu, Finset.mem_singleton.mpr heq.symm⟩
          · exact ⟨.range v w, hit, hi⟩
    · obtain ⟨it, hit, hi⟩ := hi
      cases it with
      | one v => exact ⟨.one v, hit, hi⟩
      | range v w => exact ⟨.range v w, hit, Finset.mem_insert_of_mem hi⟩

/-- Before a final `all`, only the numerals alone can stand for CPUs that are not allowed. -/
theorem eq_listCpus_all_iff {l : List Item} :
    X = listCpus X relative (l.map .item ++ [.all]) ↔
      ∀ v, .one v ∈ l → selected X relative v ∈ X := by
  have hmem : ∀ i, i ∈ listCpus X relative (l.map .item ++ [.all]) ↔
      i ∈ listCpus X relative (l.map .item) ∨ i ∈ X := by
    intro i
    simp only [mem_listCpus, List.mem_append, List.mem_singleton, or_and_right, exists_or,
      exists_eq_left, itemCpus]
  refine ⟨fun h v hv => ?_, fun h => Finset.Subset.antisymm (fun i hi => ?_) fun i hi => ?_⟩
  · have hself : selected X relative v ∈ listCpus X relative (l.map .item ++ [.all]) :=
      (hmem _).mpr (Or.inl ((mem_listCpus_map X relative).mpr ⟨.one v, hv, Finset.mem_singleton_self _⟩))
    rwa [← h] at hself
  · exact (hmem i).mpr (Or.inr hi)
  · obtain hi | hi := (hmem i).mp hi
    · obtain ⟨it, hit, hi⟩ := (mem_listCpus_map X relative).mp hi
      cases it with
      | one v => exact Finset.mem_singleton.mp hi ▸ h v hit
      | range v w => exact (Finset.mem_filter.mp hi).1
    · exact hi

end

/-! ### The parser -/

section

variable (g : Globals) {s : List Char} {relative : Bool} {its : List CpuItem}

def NumeralsInRange (relative : Bool) (its : List CpuItem) : Prop :=
  ∀ it ∈ its, ∀ v ∈ numerals it, InRange g.numaAllCpusPtr.bits relative g.numConfiguredCpus v

/-- `numa_parse_cpustring` accepts the list exactly when its numerals are in range, and gives the CPUs its
items stand for. -/
def ParsesAsListed (s : List Char) (relative : Bool) (its : List CpuItem) : Prop :=
  ((numaParseCpustring g s).isSome ↔ NumeralsInRange g relative its) ∧
    ∀ mask, numaParseCpustring g s = some mask → mask.bits = listCpus g.numaAllCpusPtr.bits relative its

theorem numaParseCpustring_eq (h : CpuList s relative its) :
    s = [] ∧ its = [] ∨ ∃ t, ReadsCpus t its ∧ numaParseCpustring g s =
      parseItems (cpuArgs g g.numaAllCpusPtr relative) (t.length + 1) t g.numaAllocateCpumask := by
  cases h with
  | empty => exact Or.inl ⟨rfl, rfl⟩
  | absolute hbang hplus hread =>
      refine Or.inr ⟨s, hread, ?_⟩
      have hne : s ≠ [] := by
        rintro rfl
        generalize hs : ([] : List Char) = t at hread
        cases hread with
        | last hit =>
            cases hit with
            | item hit _ => exact hit.ne_nil hs.symm
            | all => cases hs
        | cons hit _ => simp at hs
      rw [numaParseCpustring, parseCpustring, if_neg hne, parseString]
      simp only [hbang, hplus, if_false, decide_false, Bool.false_eq_true, Option.map_id']
  | @relative t _ hread =>
      refine Or.inr ⟨t, hread, ?_⟩
      rw [numaParseCpustring, parseCpustring, if_neg (List.cons_ne_nil _ _), parseString]
      simp only [List.head?_cons, Option.some.injEq, Char.reduceEq, if_false, decide_true, if_true,
        List.tail_cons, Option.map_id']

theorem parsesAsListed_of_none (h : numaParseCpustring g s = none) :
    ParsesAsListed g s relative its ↔ ¬NumeralsInRange g relative its := by
  simp only [ParsesAsListed, h, Option.isSome_none, Bool.false_eq_true, false_iff, reduceCtorEq,
    false_imp_iff, implies_true, and_true]

theorem parsesAsListed_of_some {Y : Finset Nat} (h : (numaParseCpustring g s).map Bitmask.bits = some Y)
    (hin : NumeralsInRange g relative its) :
    ParsesAsListed g s relative its ↔ Y = listCpus g.numaAllCpusPtr.bits relative its := by
  obtain ⟨mask, hmask, rfl⟩ := Option.map_eq_some_iff.mp h
  rw [ParsesAsListed, hmask]
  refine ⟨fun hlaw => hlaw.2 mask rfl, fun hset => ⟨⟨fun _ => hin, fun _ => rfl⟩, fun m hm => ?_⟩⟩
  rw [← Option.some.inj hm, hset]

/-- What the parser makes of a text that has been read. -/
theorem parse_reads (hconf : g.numConfiguredCpus ≤ g.cpumaskSz) {t : List Char} {l : List Item}
    {w : Option (List Char)} (hread : ReadsList isAll t l w) (hitem : ∀ it, .item it ∈ its ↔ it ∈ l)
    (hparse : numaParseCpustring g s =
      parseItems (cpuArgs g g.numaAllCpusPtr relative) (t.length + 1) t g.numaAllocateCpumask) :
    NumeralsInRange g relative its ∧ (numaParseCpustring g s).map Bitmask.bits =
        some (w.elim (setCpusOf g.numaAllCpusPtr.bits relative l) fun _ => g.numaAllCpusPtr.bits) ∨
      ¬NumeralsInRange g relative its ∧ numaParseCpustring g s = none := by
  have hsize : g.numaAllCpusPtr.size < 2 ^ 31 := g.all_cpus_size ▸ g.cpumask_lt
  have hfits : g.numaAllCpusPtr.FitsIn g.cpumaskSz := g.all_cpus_size ▸ Bitmask.fitsIn_size _
  have hempty : g.numaAllocateCpumask.bits = ∅ := bits_zeroBitmask _
  have hzero : g.numaAllocateCpumask.size = g.cpumaskSz := size_zeroBitmask _
  have hbits := bits_parseItems (cpuMeaning g hfits relative) hread hzero hempty
  have hset := itemsSet_cpuArgs g relative hsize (g.all_cpus_size ▸ hconf) (numerals_lt hread)
  rw [g.all_cpus_size] at hset
  rw [← hparse] at hbits
  obtain ⟨hin, hset⟩ | ⟨hout, hset⟩ := hset
  · refine Or.inl ⟨fun it hit => ?_, ?_⟩
    · cases it with
      | item it => exact hin it ((hitem it).mp hit)
      | all => exact fun v hv => absurd hv List.not_mem_nil
    · rw [hbits, hset, Option.bind_some]
      cases w with
      | none => rfl
      | some _ => rfl
  · rw [hset, Option.bind_none, Option.map_eq_none_iff] at hbits
    exact Or.inr ⟨fun h => hout fun it hit => h _ ((hitem it).mpr hit), hbits⟩

/-- The parser is right about a list in exactly these cases: a numeral is out of range; or `all` is
nowhere but at the end, and either it is there and the CPUs named alone are allowed, or it is not there
and every range starts at a CPU that is allowed or also named alone. -/
theorem parsesAsListed_iff (hconf : g.numConfiguredCpus ≤ g.cpumaskSz) (h : CpuList s relative its) :
    ParsesAsListed g s relative its ↔
      ¬NumeralsInRange g relative its ∨ .all ∉ its.dropLast ∧
        if its.getLast? = some .all then
          ∀ v, .item (.one v) ∈ its → selected g.numaAllCpusPtr.bits relative v ∈ g.numaAllCpusPtr.bits
        else
          ∀ v w, .item (.range v w) ∈ its →
            selected g.numaAllCpusPtr.bits relative v ∈ g.numaAllCpusPtr.bits ∨
              ∃ u, .item (.one u) ∈ its ∧ selected g.numaAllCpusPtr.bits relative u =
                selected g.numaAllCpusPtr.bits relative v := by
  obtain ⟨rfl, rfl⟩ | ⟨t, hread, hparse⟩ := numaParseCpustring_eq g h
  · have hbits : (numaParseCpustring g []).map Bitmask.bits = some ∅ := congrArg some (bits_zeroBitmask _)
    rw [parsesAsListed_of_some g hbits (by simp [NumeralsInRange])]
    simp [listCpus]
  by_cases hall : .all ∈ its.dropLast
  · have hfits : g.numaAllCpusPtr.FitsIn g.cpumaskSz := g.all_cpus_size ▸ Bitmask.fitsIn_size _
    have hnone : numaParseCpustring g s = none := by
      rw [hparse, ListArgs.parseItems_eq _ (cpuMeaning g hfits relative).isSome_word]
      exact congrArg (Option.bind · _) (hread.readList_eq_none hall _)
    rw [parsesAsListed_of_none g hnone]
    simp [hall]
  obtain ⟨l, hord, hlist⟩ := hread.readsList hall
  have hitem : ∀ it, CpuItem.item it ∈ its ↔ it ∈ l := by
    obtain ⟨rfl, -⟩ | ⟨rfl, -⟩ := hlist <;> simp
  simp only [hall, hitem, not_false_eq_true, true_and]
  obtain ⟨rfl, hlist⟩ | ⟨rfl, hlist⟩ := hlist
  · have hlast : (l.map CpuItem.item).getLast? ≠ some .all := by
      intro hlast
      obtain ⟨_, _, heq⟩ := List.mem_map.mp (List.mem_of_getLast? hlast)
      cases heq
    rw [if_neg hlast]
    obtain ⟨hin, hbits⟩ | ⟨hout, hnone⟩ := parse_reads g hconf hlist hitem hparse
    · rw [parsesAsListed_of_some g hbits hin, Option.elim_none, or_iff_right (not_not_intro hin)]
      exact setCpusOf_eq_listCpus_iff _ _ hord fun it hit => hin _ ((hitem it).mpr hit)
    · rw [parsesAsListed_of_none g hnone]
      exact ⟨Or.inl, fun _ => hout⟩
  · rw [if_pos List.getLast?_concat]
    obtain ⟨hin, hbits⟩ | ⟨hout, hnone⟩ := parse_reads g hconf hlist hitem hparse
    · rw [parsesAsListed_of_some g hbits hin, Option.elim_some, or_iff_right (not_not_intro hin)]
      exact eq_listCpus_all_iff _ _
    · rw [parsesAsListed_of_none g hnone]
      exact ⟨Or.inl, fun _ => hout⟩

end

/-- A machine with four CPUs of which 1 and 3 are allowed. -/
def oddGlobals : Globals :=
  { gapGlobals with
    numaAllCpusPtr := [1, 3].foldl numaBitmaskSetbit (zeroBitmask 64)
    all_cpus_size := rfl }

theorem oddGlobals_bits : oddGlobals.numaAllCpusPtr.bits = {1, 3} := by decide +kernel

theorem cpuList_single_range : CpuList "0,1-3".toList false [.item (.one 0), .item (.range 1 3)] :=
  .absolute (by decide) (by decide)
    (.cons (t := ['0']) (.item (.one ⟨by decide, by decide⟩) trivial)
      (.last (.item (.range (t := ['1']) ⟨by decide, by decide⟩ ⟨by decide, by decide⟩) (by decide : 1 ≤ 3))))

theorem parsesAsListed_single_range :
    ParsesAsListed oddGlobals "0,1-3".toList false [.item (.one 0), .item (.range 1 3)] := by
  refine (parsesAsListed_iff oddGlobals (by decide) cpuList_single_range).mpr (Or.inr ⟨by decide, ?_⟩)
  rw [if_neg (by decide)]
  intro v w hmem
  have hrange : v = 1 ∧ w = 3 := by simpa using hmem
  rw [hrange.1, oddGlobals_bits]
  exact Or.inl (by decide)

/-- CPU 0 is not allowed, and the range `0-3` puts it into the mask. -/
theorem not_parsesAsListed_range : oddGlobals.numConfiguredCpus ≤ oddGlobals.cpumaskSz ∧
    CpuList "0-3".toList false [.item (.range 0 3)] ∧
      ¬ParsesAsListed oddGlobals "0-3".toList false [.item (.range 0 3)] := by
  refine ⟨by decide, .absolute (by decide) (by decide) (.last (.item (.range (t := ['0'])
    ⟨by decide, by decide⟩ ⟨by decide, by decide⟩) (by decide : 0 ≤ 3))), fun h => ?_⟩
  have hbits : (numaParseCpustring oddGlobals "0-3".toList).map Bitmask.bits = some {0, 1, 3} := by
    decide +kernel
  obtain ⟨mask, hmask, hset⟩ := Option.map_eq_some_iff.mp hbits
  have hzero : 0 ∈ listCpus oddGlobals.numaAllCpusPtr.bits false [.item (.range 0 3)] := by
    rw [← h.2 mask hmask, hset]
    decide
  rw [oddGlobals_bits, mem_listCpus] at hzero
  simp [itemCpus] at hzero

end Numactl
