import Mathlib.Algebra.GroupWithZero.Nat
import Mathlib.Data.Finset.Range
import Mathlib.Data.List.Sort
import Numactl.Base.Chains

/-! The list for the test `ptrchase` (`union node`, `cmp_node` and `ptrchase_init` in `numademo.c`), and the walk over
it in `memtest`. The elements are sorted by random values, but each is then linked to the place behind the one it
had before, whatever was sorted there. The walk always ends; it visits the whole list exactly when no elements are
sorted onto the places behind them among themselves. -/

namespace Numactl
namespace Numademo

/-! ### The list -/

/-- `union node` before it holds a pointer. -/
structure Node where
  nexti : BitVec 32
  val : BitVec 32
  deriving DecidableEq

/-- `sizeof(union node)`. -/
def sizeofNode : Nat := 8

def cmpNode (a b : Node) : Int := (a.val - b.val).toInt

/-- `RAND_MAX`: `rand` returns an `int` that is not negative. -/
def randMax : Nat := 2 ^ 31 - 1

/-- `qsort` with `cmp_node`. Elements that compare equal may come in any order. -/
structure Qsort (qsort : List Node → List Node) : Prop where
  perm : ∀ nodes, (qsort nodes).Perm nodes
  sorted : ∀ nodes, (∀ n ∈ nodes, n.val.toNat ≤ randMax) → (qsort nodes).Pairwise fun a b => cmpNode a b ≤ 0

/-- Element `i` before the sort. `rand i` is what `rand` returns for it. -/
def initNode (rand : Nat → BitVec 32) (i : Nat) : Node where
  val := rand i
  nexti := BitVec.ofNat 32 (i + 1)

section

variable (qsort : List Node → List Node) (rand : Nat → BitVec 32) (msize : Nat)

/-- The elements in the order of their values. -/
def sortedNodes : List Node := qsort ((List.range (msize / sizeofNode)).map (initNode rand))

/-- `none` for `NULL`, and `some j` for `&nodes[j]`. -/
def ptrchaseInit : List (Option Nat) :=
  let nmemb := msize / sizeofNode
  (sortedNodes qsort rand msize).map fun n => if nmemb ≤ n.nexti.toNat then none else some n.nexti.toNat

/-- The numbers the elements had before the sort, by their places after it. -/
def sortOrder : List Nat := (sortedNodes qsort rand msize).map fun n => n.nexti.toNat - 1

end

/-- The loop of `memtest`, from the first element: the elements visited; `none` where it has not come to an end. -/
def ptrchase (nodes : List (Option Nat)) (fuel : Nat) : Option (List Nat) :=
  Chains.follow (fun p => nodes.getD p none) fuel 0

/-- The loop ends, and has visited each element once. -/
def VisitsAllOnce (nodes : List (Option Nat)) : Prop :=
  ∃ fuel visited, ptrchase nodes fuel = some visited ∧ visited.Perm (List.range nodes.length)

/-- The elements sorted to the places `c` are those that stood right in front of them. -/
def Shifted (order : List Nat) (c : Finset Nat) : Prop :=
  c.Nonempty ∧ ∀ p ∈ c, ∃ i, order[p]? = some i ∧ i + 1 ∈ c

/-! ### The order of the elements -/

section Order

variable {qsort : List Node → List Node} {rand : Nat → BitVec 32} {msize : Nat}

theorem toNat_nexti_initNode (rand : Nat → BitVec 32) {i : Nat} (hi : i + 1 < 2 ^ 32) :
    (initNode rand i).nexti.toNat = i + 1 := by
  rw [initNode, BitVec.toNat_ofNat, Nat.mod_eq_of_lt hi]

/-- The sort changes the order of the elements only. -/
theorem sortOrder_perm (hqsort : Qsort qsort) (rand : Nat → BitVec 32) (hlt : msize / sizeofNode < 2 ^ 32) :
    (sortOrder qsort rand msize).Perm (List.range (msize / sizeofNode)) := by
  have hperm := (hqsort.perm ((List.range (msize / sizeofNode)).map (initNode rand))).map fun n => n.nexti.toNat - 1
  rw [List.map_map] at hperm
  refine hperm.trans (List.Perm.of_eq ?_)
  calc (List.range (msize / sizeofNode)).map ((fun n => n.nexti.toNat - 1) ∘ initNode rand)
      = (List.range (msize / sizeofNode)).map id := List.map_congr_left fun i hi => by
        have hi' := List.mem_range.mp hi
        rw [Function.comp_apply, toNat_nexti_initNode rand (by omega)]
        rfl
    _ = List.range (msize / sizeofNode) := List.map_id _

theorem sortedNodes_eq (hqsort : Qsort qsort) (rand : Nat → BitVec 32) (hlt : msize / sizeofNode < 2 ^ 32) :
    sortedNodes qsort rand msize = (sortOrder qsort rand msize).map (initNode rand) := by
  rw [sortOrder, List.map_map]
  conv_lhs => rw [← List.map_id (sortedNodes qsort rand msize)]
  apply List.map_congr_left
  intro n hn
  obtain ⟨i, hi, rfl⟩ := List.mem_map.mp ((hqsort.perm _).mem_iff.mp hn)
  have hi' := List.mem_range.mp hi
  rw [Function.comp_apply, toNat_nexti_initNode rand (by omega)]
  rfl

/-- An element is linked to the place behind the one it had. -/
theorem ptrchaseInit_eq (hqsort : Qsort qsort) (rand : Nat → BitVec 32) (hlt : msize / sizeofNode < 2 ^ 32) :
    ptrchaseInit qsort rand msize =
      (sortOrder qsort rand msize).map fun i => if msize / sizeofNode ≤ i + 1 then none else some (i + 1) := by
  rw [ptrchaseInit, sortedNodes_eq hqsort rand hlt, List.map_map]
  apply List.map_congr_left
  intro i hi
  have hi' := List.mem_range.mp ((sortOrder_perm hqsort rand hlt).mem_iff.mp hi)
  rw [Function.comp_apply, toNat_nexti_initNode rand (by omega)]

end Order

/-! ### The walk -/

section Walk

variable {order : List Nat} {n : Nat}

/-- The link at a place. -/
def linkAt (order : List Nat) (n p : Nat) : Option Nat :=
  (order.map fun i => if n ≤ i + 1 then none else some (i + 1)).getD p none

theorem linkAt_eq_some_iff {p q : Nat} :
    linkAt order n p = some q ↔ ∃ i, order[p]? = some i ∧ i + 1 < n ∧ i + 1 = q := by
  rw [linkAt, List.getD_eq_getElem?_getD, List.getElem?_map]
  cases order[p]? with
  | none => simp
  | some i =>
      rw [Option.map_some, Option.getD_some]
      by_cases hend : n ≤ i + 1
      · rw [if_pos hend]
        refine iff_of_false (Option.some_ne_none q).symm ?_
        rintro ⟨j, hj, hlt, -⟩
        cases hj
        omega
      · rw [if_neg hend, Option.some_inj]
        refine ⟨fun h => ⟨i, rfl, Nat.lt_of_not_le hend, h⟩, ?_⟩
        rintro ⟨j, hj, -, h⟩
        cases hj
        exact h

theorem linkAt_eq_none_iff {p : Nat} (hp : p < order.length) :
    linkAt order n p = none ↔ ∃ i, order[p]? = some i ∧ n ≤ i + 1 := by
  rw [linkAt, List.getD_eq_getElem?_getD, List.getElem?_map, List.getElem?_eq_getElem hp, Option.map_some,
    Option.getD_some]
  by_cases hend : n ≤ order[p] + 1
  · rw [if_pos hend]
    exact iff_of_true rfl ⟨_, rfl, hend⟩
  · rw [if_neg hend]
    refine iff_of_false (Option.some_ne_none _) ?_
    rintro ⟨i, hi, hle⟩
    cases hi
    exact hend hle

section Perm

variable (horder : order.Perm (List.range n))

include horder

theorem length_order : order.length = n := horder.length_eq.trans List.length_range

theorem lt_of_order {p i : Nat} (h : order[p]? = some i) : p < n ∧ i < n := by
  obtain ⟨hp, rfl⟩ := List.getElem?_eq_some_iff.mp h
  exact ⟨length_order horder ▸ hp, List.mem_range.mp (horder.mem_iff.mp (List.getElem_mem hp))⟩

/-- The sort brings an element to one place. -/
theorem order_inj {p p' i : Nat} (h : order[p]? = some i) (h' : order[p']? = some i) : p = p' := by
  have hnodup : order.Nodup := horder.nodup_iff.mpr List.nodup_range
  exact (List.getElem?_inj (List.getElem?_eq_some_iff.mp h).1 hnodup).mp (h.trans h'.symm)

theorem linked_linkAt (hpos : 0 < n) : Chains.Linked (linkAt order n) (Finset.range n) 0 where
  start_mem := Finset.mem_range.mpr hpos
  closed p _ q hlink := by
    obtain ⟨i, -, hlt, rfl⟩ := linkAt_eq_some_iff.mp hlink
    exact ⟨Finset.mem_range.mpr hlt, Nat.succ_ne_zero i⟩
  injective p _ p' _ q hlink hlink' := by
    obtain ⟨i, hi, -, rfl⟩ := linkAt_eq_some_iff.mp hlink
    obtain ⟨i', hi', -, heq⟩ := linkAt_eq_some_iff.mp hlink'
    exact order_inj horder hi (Nat.succ_inj.mp heq ▸ hi')

/-- Only the element that was the last has no link. -/
theorem linkAt_single_end :
    ∀ p ∈ Finset.range n, ∀ p' ∈ Finset.range n, linkAt order n p = none → linkAt order n p' = none → p = p' := by
  intro p hp p' hp' hnone hnone'
  rw [Finset.mem_range, ← length_order horder] at hp hp'
  obtain ⟨i, hi, hend⟩ := (linkAt_eq_none_iff hp).mp hnone
  obtain ⟨i', hi', hend'⟩ := (linkAt_eq_none_iff hp').mp hnone'
  have hlt := (lt_of_order horder hi).2
  have hlt' := (lt_of_order horder hi').2
  obtain rfl : i = i' := by omega
  exact order_inj horder hi hi'

/-- Rings of links are elements sorted onto the places behind them. -/
theorem exists_ring_iff :
    (∃ c ⊆ Finset.range n, Chains.Ring (linkAt order n) c) ↔ ∃ c, Shifted order c := by
  constructor
  · rintro ⟨c, -, hne, hring⟩
    refine ⟨c, hne, fun p hp => ?_⟩
    obtain ⟨q, hq, hlink⟩ := hring p hp
    obtain ⟨i, hi, -, rfl⟩ := linkAt_eq_some_iff.mp hlink
    exact ⟨i, hi, hq⟩
  · rintro ⟨c, hne, hshift⟩
    have hlt : ∀ p ∈ c, p < n := fun p hp => by
      obtain ⟨i, hi, -⟩ := hshift p hp
      exact (lt_of_order horder hi).1
    refine ⟨c, fun p hp => Finset.mem_range.mpr (hlt p hp), hne, fun p hp => ?_⟩
    obtain ⟨i, hi, hnext⟩ := hshift p hp
    exact ⟨i + 1, hnext, linkAt_eq_some_iff.mpr ⟨i, hi, hlt (i + 1) hnext, rfl⟩⟩

end Perm

end Walk

section Chase

variable {qsort : List Node → List Node} {msize : Nat}

theorem length_ptrchaseInit (hqsort : Qsort qsort) (rand : Nat → BitVec 32) :
    (ptrchaseInit qsort rand msize).length = msize / sizeofNode := by
  rw [ptrchaseInit, List.length_map, sortedNodes, (hqsort.perm _).length_eq, List.length_map, List.length_range]

theorem ptrchase_eq_some_iff (hqsort : Qsort qsort) (rand : Nat → BitVec 32) (hlt : msize / sizeofNode < 2 ^ 32)
    {fuel : Nat} {visited : List Nat} :
    ptrchase (ptrchaseInit qsort rand msize) fuel = some visited ↔
      Chains.Chain (linkAt (sortOrder qsort rand msize) (msize / sizeofNode)) 0 visited ∧ visited.length ≤ fuel := by
  rw [ptrchase, ptrchaseInit_eq hqsort rand hlt]
  exact Chains.follow_eq_some_iff

/-- Whatever the order of the elements, the walk ends, and visits no element twice. -/
theorem ptrchase_ends (hqsort : Qsort qsort) (rand : Nat → BitVec 32) (hpos : 0 < msize / sizeofNode)
    (hlt : msize / sizeofNode < 2 ^ 32) :
    ∃ fuel visited, ptrchase (ptrchaseInit qsort rand msize) fuel = some visited ∧ visited.Nodup ∧
      ∀ p ∈ visited, p < msize / sizeofNode := by
  obtain ⟨visited, hchain, hnodup, hmem⟩ := (linked_linkAt (sortOrder_perm hqsort rand hlt) hpos).exists_chain
  exact ⟨visited.length, visited, (ptrchase_eq_some_iff hqsort rand hlt).mpr ⟨hchain, le_rfl⟩, hnodup,
    fun p hp => Finset.mem_range.mp (hmem p hp)⟩

/-- The walk visits the whole list unless there are rings of links, which it does not get into. -/
theorem visitsAllOnce_iff_not_ring (hqsort : Qsort qsort) (rand : Nat → BitVec 32) (hpos : 0 < msize / sizeofNode)
    (hlt : msize / sizeofNode < 2 ^ 32) :
    VisitsAllOnce (ptrchaseInit qsort rand msize) ↔ ¬∃ c ⊆ Finset.range (msize / sizeofNode),
      Chains.Ring (linkAt (sortOrder qsort rand msize) (msize / sizeofNode)) c := by
  have horder := sortOrder_perm hqsort rand hlt
  have hlinked := linked_linkAt horder hpos
  have hend := linkAt_single_end horder
  rw [VisitsAllOnce, length_ptrchaseInit hqsort rand]
  constructor
  · rintro ⟨fuel, visited, hwalk, hperm⟩
    obtain ⟨hchain, -⟩ := (ptrchase_eq_some_iff hqsort rand hlt).mp hwalk
    have hmem : ∀ p, p ∈ visited ↔ p ∈ Finset.range (msize / sizeofNode) := fun p => by
      rw [hperm.mem_iff, List.mem_range, Finset.mem_range]
    exact (hlinked.forall_mem_chain_iff hend hchain fun p => (hmem p).mp).mp fun p => (hmem p).mpr
  · intro hring
    obtain ⟨visited, hchain, hnodup, hmem⟩ := hlinked.exists_chain
    have hall := (hlinked.forall_mem_chain_iff hend hchain hmem).mpr hring
    refine ⟨visited.length, visited, (ptrchase_eq_some_iff hqsort rand hlt).mpr ⟨hchain, le_rfl⟩, ?_⟩
    rw [List.perm_ext_iff_of_nodup hnodup List.nodup_range]
    intro p
    rw [List.mem_range, ← Finset.mem_range]
    exact ⟨hmem p, hall p⟩

/-- The walk visits the whole list exactly when no elements are sorted onto the places behind them among
themselves. -/
theorem visitsAllOnce_iff (hqsort : Qsort qsort) (rand : Nat → BitVec 32) (hpos : 0 < msize / sizeofNode)
    (hlt : msize / sizeofNode < 2 ^ 32) :
    VisitsAllOnce (ptrchaseInit qsort rand msize) ↔ ¬∃ c, Shifted (sortOrder qsort rand msize) c := by
  rw [visitsAllOnce_iff_not_ring hqsort rand hpos hlt, exists_ring_iff (sortOrder_perm hqsort rand hlt)]

end Chase

/-! ### Distinct values -/

section Distinct

variable {qsort : List Node → List Node} {rand : Nat → BitVec 32} {msize : Nat}

/-- Values of `rand` are compared as they are, although their difference is taken modulo `2 ^ 32`. -/
theorem cmpNode_nonpos_iff {a b : Node} (ha : a.val.toNat ≤ randMax) (hb : b.val.toNat ≤ randMax) :
    cmpNode a b ≤ 0 ↔ a.val.toNat ≤ b.val.toNat := by
  rw [randMax] at ha hb
  rw [cmpNode, BitVec.toInt_eq_toNat_cond, BitVec.toNat_sub]
  split
  · omega
  · omega

/-- In a list sorted by keys, the place of an element with a key of its own is the number of smaller keys. -/
theorem countP_lt_of_pairwise {key : Nat → Nat} {l : List Nat} (h : l.Pairwise fun a b => key a ≤ key b)
    (hnodup : l.Nodup) {p a : Nat} (hp : l[p]? = some a) (hown : ∀ b ∈ l, key b = key a → b = a) :
    l.countP (fun b => key b < key a) = p := by
  induction l generalizing p with
  | nil => cases hp
  | cons b l ih =>
      rw [List.pairwise_cons] at h
      rw [List.nodup_cons] at hnodup
      cases p with
      | zero =>
          obtain rfl := Option.some.inj hp
          rw [List.countP_eq_zero]
          intro c hc
          rw [decide_eq_true_eq, Nat.not_lt]
          obtain rfl | hc := List.mem_cons.mp hc
          · exact le_rfl
          · exact h.1 c hc
      | succ p =>
          rw [List.getElem?_cons_succ] at hp
          have ha := List.mem_of_getElem? hp
          have hne : key b ≠ key a := fun heq => hnodup.1 (hown b List.mem_cons_self heq ▸ ha)
          have hfirst : decide (key b < key a) = true := decide_eq_true (lt_of_le_of_ne (h.1 a ha) hne)
          rw [List.countP_cons_of_pos (p := fun b => decide (key b < key a)) hfirst,
            ih h.2 hnodup.2 hp fun c hc => hown c (List.mem_cons_of_mem b hc)]

/-- How many of `n` values are smaller than that of element `i`. -/
def smaller (rand : Nat → BitVec 32) (n i : Nat) : Nat :=
  (List.range n).countP fun j => (rand j).toNat < (rand i).toNat

/-- The sort has no choice where to put an element with a value of its own. -/
theorem getElem?_sortOrder_iff (hqsort : Qsort qsort) (hlt : msize / sizeofNode < 2 ^ 32)
    (hrand : ∀ i < msize / sizeofNode, (rand i).toNat ≤ randMax) {i : Nat}
    (hown : ∀ j < msize / sizeofNode, rand j = rand i → j = i) {p : Nat} :
    (sortOrder qsort rand msize)[p]? = some i ↔ i < msize / sizeofNode ∧ smaller rand (msize / sizeofNode) i = p := by
  have horder := sortOrder_perm hqsort rand hlt
  have hnodup : (sortOrder qsort rand msize).Nodup := horder.nodup_iff.mpr List.nodup_range
  have hsorted : (sortOrder qsort rand msize).Pairwise fun i j => (rand i).toNat ≤ (rand j).toNat := by
    have hcmp : (sortedNodes qsort rand msize).Pairwise fun a b => cmpNode a b ≤ 0 := by
      apply hqsort.sorted
      intro n hn
      obtain ⟨i, hi, rfl⟩ := List.mem_map.mp hn
      exact hrand i (List.mem_range.mp hi)
    rw [sortedNodes_eq hqsort rand hlt, List.pairwise_map] at hcmp
    refine hcmp.imp_of_mem fun {i j} hi hj hij => ?_
    have hi' := hrand i (List.mem_range.mp (horder.mem_iff.mp hi))
    have hj' := hrand j (List.mem_range.mp (horder.mem_iff.mp hj))
    exact (cmpNode_nonpos_iff hi' hj').mp hij
  have hplace : ∀ {p}, (sortOrder qsort rand msize)[p]? = some i → smaller rand (msize / sizeofNode) i = p := by
    intro p hp
    rw [smaller, ← horder.countP_eq]
    refine countP_lt_of_pairwise hsorted hnodup hp fun j hj heq => ?_
    exact hown j (List.mem_range.mp (horder.mem_iff.mp hj)) (BitVec.eq_of_toNat_eq heq)
  constructor
  · exact fun hp => ⟨(lt_of_order horder hp).2, hplace hp⟩
  · rintro ⟨hi, rfl⟩
    obtain ⟨p, hp⟩ := List.getElem?_of_mem (horder.mem_iff.mpr (List.mem_range.mpr hi))
    rw [hplace hp]
    exact hp

/-- With distinct values the walk depends on the values alone. -/
theorem visitsAllOnce_iff_smaller (hqsort : Qsort qsort) (hpos : 0 < msize / sizeofNode)
    (hlt : msize / sizeofNode < 2 ^ 32) (hrand : ∀ i < msize / sizeofNode, (rand i).toNat ≤ randMax)
    (hdistinct : ∀ i < msize / sizeofNode, ∀ j < msize / sizeofNode, rand i = rand j → i = j) :
    VisitsAllOnce (ptrchaseInit qsort rand msize) ↔ ¬∃ c : Finset Nat, c.Nonempty ∧
      ∀ p ∈ c, ∃ i < msize / sizeofNode, smaller rand (msize / sizeofNode) i = p ∧ i + 1 ∈ c := by
  have horder := sortOrder_perm hqsort rand hlt
  have hplace : ∀ p i, (sortOrder qsort rand msize)[p]? = some i ↔
      i < msize / sizeofNode ∧ smaller rand (msize / sizeofNode) i = p := by
    intro p i
    by_cases hi : i < msize / sizeofNode
    · exact getElem?_sortOrder_iff hqsort hlt hrand fun j hj heq => hdistinct j hj i hi heq
    · exact iff_of_false (fun hp => hi (lt_of_order horder hp).2) fun h => hi h.1
  rw [visitsAllOnce_iff_not_ring hqsort rand hpos hlt, exists_ring_iff horder]
  simp only [Shifted, hplace, and_assoc]

/-- Values that exchange the first two elements and leave the others behind them. -/
def exchangeFirst (i : Nat) : BitVec 32 := if i = 0 then 1 else if i = 1 then 0 else 2

theorem toNat_exchangeFirst (i : Nat) :
    (exchangeFirst i).toNat = if i = 0 then 1 else if i = 1 then 0 else 2 := by
  rw [exchangeFirst]
  split
  · rfl
  · split
    · rfl
    · rfl

/-- No list of two elements or more is safe: there are values for which every sort links the second place to
itself. -/
theorem exists_not_visitsAllOnce (msize : Nat) (htwo : 2 ≤ msize / sizeofNode) (hlt : msize / sizeofNode < 2 ^ 32) :
    ∃ rand : Nat → BitVec 32, (∀ i, (rand i).toNat ≤ randMax) ∧
      ∀ qsort, Qsort qsort → ¬VisitsAllOnce (ptrchaseInit qsort rand msize) := by
  have hrand : ∀ i, (exchangeFirst i).toNat ≤ randMax := fun i => by
    rw [toNat_exchangeFirst, randMax]
    split
    · decide
    · split
      · decide
      · decide
  refine ⟨exchangeFirst, hrand, fun qsort hqsort => ?_⟩
  have hown : ∀ j < msize / sizeofNode, exchangeFirst j = exchangeFirst 0 → j = 0 := by
    intro j _ heq
    have hval := congrArg BitVec.toNat heq
    rw [toNat_exchangeFirst, toNat_exchangeFirst, if_pos rfl] at hval
    split at hval
    · assumption
    · split at hval
      · cases hval
      · cases hval
  have hone : smaller exchangeFirst (msize / sizeofNode) 0 = 1 := by
    have hiff : ∀ j, (exchangeFirst j).toNat < (exchangeFirst 0).toNat ↔ j = 1 := fun j => by
      rw [toNat_exchangeFirst, toNat_exchangeFirst, if_pos rfl]
      split
      · omega
      · split
        · omega
        · omega
    calc smaller exchangeFirst (msize / sizeofNode) 0
        = (List.range (msize / sizeofNode)).count 1 :=
          List.countP_congr fun j _ => by rw [decide_eq_true_eq, hiff, beq_iff_eq]
      _ = 1 := List.count_eq_one_of_mem List.nodup_range (List.mem_range.mpr htwo)
  rw [visitsAllOnce_iff_not_ring hqsort _ (by omega) hlt, exists_ring_iff (sortOrder_perm hqsort _ hlt), not_not]
  refine ⟨{1}, Finset.singleton_nonempty 1, fun p hp => ⟨0, ?_, Finset.mem_singleton_self 1⟩⟩
  rw [Finset.mem_singleton.mp hp, getElem?_sortOrder_iff hqsort hlt (fun i _ => hrand i) hown]
  exact ⟨by omega, hone⟩

end Distinct

/-! ### Two lists -/

def sortNodes (nodes : List Node) : List Node := nodes.insertionSort fun a b => a.val.toNat ≤ b.val.toNat

theorem qsort_sortNodes : Qsort sortNodes where
  perm nodes := List.perm_insertionSort _ nodes
  sorted nodes hval := by
    have htotal : Std.Total fun a b : Node => a.val.toNat ≤ b.val.toNat := ⟨fun a b => Nat.le_total _ _⟩
    have htrans : IsTrans Node fun a b => a.val.toNat ≤ b.val.toNat := ⟨fun _ _ _ => Nat.le_trans⟩
    refine (List.pairwise_insertionSort (fun a b : Node => a.val.toNat ≤ b.val.toNat) nodes).imp_of_mem ?_
    intro a b ha hb hle
    rw [List.mem_insertionSort] at ha hb
    exact (cmpNode_nonpos_iff (hval a ha) (hval b hb)).mpr hle

/-- Three values; the smallest is the second. -/
def threeValues (i : Nat) : BitVec 32 := if i = 0 then 3 else BitVec.ofNat 32 i

theorem visitsAllOnce_threeValues : VisitsAllOnce (ptrchaseInit sortNodes threeValues 24) := by
  refine (visitsAllOnce_iff qsort_sortNodes threeValues (by decide) (by decide)).mpr ?_
  rintro ⟨c, ⟨p, hp⟩, hshift⟩
  have horder : sortOrder sortNodes threeValues 24 = [1, 2, 0] := by decide
  rw [horder] at hshift
  have hend : 3 ∉ c := fun h => by
    obtain ⟨i, hi, -⟩ := hshift 3 h
    cases hi
  have h1 : 1 ∉ c := fun h => by
    obtain ⟨i, hi, hnext⟩ := hshift 1 h
    cases hi
    exact hend hnext
  have h2 : 2 ∉ c := fun h => by
    obtain ⟨i, hi, hnext⟩ := hshift 2 h
    cases hi
    exact h1 hnext
  obtain ⟨i, hi, hnext⟩ := hshift p hp
  obtain ⟨hlt, rfl⟩ := List.getElem?_eq_some_iff.mp hi
  match p, hlt with
  | 0, _ => exact h2 hnext
  | 1, _ => exact hend hnext
  | 2, _ => exact h1 hnext

/-- Two values in descending order. -/
def twoValues (i : Nat) : BitVec 32 := if i = 0 then 479142414 else 465566339

/-- The second element is sorted to the first place, and ends the walk there. -/
theorem not_visitsAllOnce_twoValues :
    Qsort sortNodes ∧ ¬VisitsAllOnce (ptrchaseInit sortNodes twoValues 16) := by
  refine ⟨qsort_sortNodes, ?_⟩
  have hlist : ptrchaseInit sortNodes twoValues 16 = [none, some 1] := by decide
  rw [hlist]
  rintro ⟨fuel, visited, hwalk, hperm⟩
  cases fuel with
  | zero => cases hwalk
  | succ fuel =>
      cases hwalk
      exact absurd hperm.length_eq (by decide)

end Numademo
end Numactl
