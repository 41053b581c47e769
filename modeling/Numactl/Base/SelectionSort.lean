import Mathlib.Data.List.Nodup
import Mathlib.Data.List.Range
import Mathlib.Logic.Equiv.Basic
import Mathlib.Order.Lattice

/-! Selection sort in place. An array is a function of its places, and the window from `start` to `stop`, both
included, is put in descending order of a key. Of several elements with the largest key the one at the lowest
place is selected, and it changes places with the element it displaces, so equal keys may change their order. -/

namespace SelectionSort

variable {α κ : Type*} [LinearOrder κ] (key : α → κ)

def swap (m : Nat → α) (i j : Nat) : Nat → α := fun k => if k = i then m j else if k = j then m i else m k

/-- The place of the largest key among `ix` and the places `iys`. -/
def biggestIx (m : Nat → α) (ix : Nat) (iys : List Nat) : Nat :=
  iys.foldl (fun big iy => if key (m big) < key (m iy) then iy else big) ix

/-- One round: the largest element from `ix` on comes to `ix`. -/
def select (stop : Nat) (m : Nat → α) (ix : Nat) : Nat → α :=
  let big := biggestIx key m ix (List.range' (ix + 1) (stop - ix))
  if big ≠ ix then swap m ix big else m

def sort (m : Nat → α) (start stop : Nat) : Nat → α :=
  (List.range' start (stop + 1 - start)).foldl (select key stop) m

/-- The elements at the places from `start` to `stop`. -/
def window (m : Nat → α) (start stop : Nat) : List α := (List.range' start (stop + 1 - start)).map m

/-- The window is in descending order. -/
def Descending (m : Nat → α) (start stop : Nat) : Prop :=
  ∀ i j, start ≤ i → i ≤ j → j ≤ stop → key (m j) ≤ key (m i)

/-! ### One round -/

variable {key} {m : Nat → α} {start stop ix : Nat}

theorem swap_eq (i j : Nat) : swap m i j = m ∘ Equiv.swap i j := by
  funext k
  rw [swap, Function.comp_apply, Equiv.swap_apply_def]
  split
  · rfl
  · split
    · rfl
    · rfl

theorem biggestIx_mem (iys : List Nat) : biggestIx key m ix iys = ix ∨ biggestIx key m ix iys ∈ iys := by
  induction iys generalizing ix with
  | nil => exact Or.inl rfl
  | cons iy iys ih =>
      rw [biggestIx, List.foldl_cons, ← biggestIx]
      obtain heq | hmem := @ih (if key (m ix) < key (m iy) then iy else ix)
      · rw [heq]
        split
        · exact Or.inr List.mem_cons_self
        · exact Or.inl rfl
      · exact Or.inr (List.mem_cons_of_mem iy hmem)

theorem le_biggestIx (iys : List Nat) :
    key (m ix) ≤ key (m (biggestIx key m ix iys)) ∧
      ∀ iy ∈ iys, key (m iy) ≤ key (m (biggestIx key m ix iys)) := by
  induction iys generalizing ix with
  | nil => exact ⟨le_refl _, fun iy h => absurd h List.not_mem_nil⟩
  | cons iy iys ih =>
      rw [biggestIx, List.foldl_cons, ← biggestIx]
      obtain ⟨hix, hiys⟩ := @ih (if key (m ix) < key (m iy) then iy else ix)
      have hboth : key (m ix) ≤ key (m (if key (m ix) < key (m iy) then iy else ix)) ∧
          key (m iy) ≤ key (m (if key (m ix) < key (m iy) then iy else ix)) := by
        split
        · next h => exact ⟨h.le, le_refl _⟩
        · next h => exact ⟨le_refl _, not_lt.mp h⟩
      refine ⟨hboth.1.trans hix, fun k hk => ?_⟩
      obtain rfl | hk := List.mem_cons.mp hk
      · exact hboth.2.trans hix
      · exact hiys k hk

/-- A round changes two places of the window from `ix` on. -/
theorem exists_select (hix : ix ≤ stop) : ∃ big, ix ≤ big ∧ big ≤ stop ∧ select key stop m ix = m ∘ Equiv.swap ix big ∧
    ∀ j, ix ≤ j → j ≤ stop → key (m j) ≤ key (m big) := by
  refine ⟨biggestIx key m ix (List.range' (ix + 1) (stop - ix)), ?_, ?_, ?_, fun j hj hstop => ?_⟩
  · obtain heq | hmem := @biggestIx_mem α κ _ key m ix (List.range' (ix + 1) (stop - ix))
    · exact heq.ge
    · rw [List.mem_range'_1] at hmem
      omega
  · obtain heq | hmem := @biggestIx_mem α κ _ key m ix (List.range' (ix + 1) (stop - ix))
    · exact heq.trans_le hix
    · rw [List.mem_range'_1] at hmem
      omega
  · rw [select]
    split
    · exact swap_eq _ _
    · next h =>
      rw [not_not.mp h, Equiv.swap_self]
      rfl
  · obtain ⟨hself, hothers⟩ := @le_biggestIx α κ _ key m ix (List.range' (ix + 1) (stop - ix))
    obtain rfl | hlt := Nat.eq_or_lt_of_le hj
    · exact hself
    · exact hothers j (List.mem_range'_1.mpr (by omega))

theorem select_of_outside (hix : ix ≤ stop) {k : Nat} (hk : k < ix ∨ stop < k) : select key stop m ix k = m k := by
  obtain ⟨big, hle, hstop, hselect, -⟩ := @exists_select α κ _ key m stop ix hix
  rw [hselect, Function.comp_apply, Equiv.swap_apply_of_ne_of_ne (by omega) (by omega)]

theorem swap_mem_window {i j k : Nat} (hi : start ≤ i ∧ i ≤ stop) (hj : start ≤ j ∧ j ≤ stop)
    (hk : start ≤ k ∧ k ≤ stop) : start ≤ Equiv.swap i j k ∧ Equiv.swap i j k ≤ stop := by
  rw [Equiv.swap_apply_def]
  split
  · exact hj
  · split
    · exact hi
    · exact hk

theorem window_comp_swap {i j : Nat} (hi : start ≤ i ∧ i ≤ stop) (hj : start ≤ j ∧ j ≤ stop) :
    (window (m ∘ Equiv.swap i j) start stop).Perm (window m start stop) := by
  rw [window, ← List.map_map]
  apply List.Perm.map
  rw [List.perm_ext_iff_of_nodup (List.Nodup.map (Equiv.swap i j).injective List.nodup_range') List.nodup_range']
  intro k
  have hmem : ∀ l, l ∈ List.range' start (stop + 1 - start) ↔ start ≤ l ∧ l ≤ stop := by
    intro l
    rw [List.mem_range'_1]
    omega
  rw [List.mem_map, hmem]
  constructor
  · rintro ⟨l, hl, rfl⟩
    exact swap_mem_window hi hj ((hmem l).mp hl)
  · intro hk
    exact ⟨Equiv.swap i j k, (hmem _).mpr (swap_mem_window hi hj hk), Equiv.swap_apply_self i j k⟩

/-! ### The whole sort -/

theorem sort_of_outside {k : Nat} (hk : k < start ∨ stop < k) : sort key m start stop k = m k := by
  rw [sort]
  have hfold : ∀ (ixs : List Nat) (m : Nat → α), (∀ ix ∈ ixs, start ≤ ix ∧ ix ≤ stop) →
      ixs.foldl (select key stop) m k = m k := by
    intro ixs
    induction ixs with
    | nil => exact fun m _ => rfl
    | cons ix ixs ih =>
        intro m hixs
        have hix := hixs ix List.mem_cons_self
        rw [List.foldl_cons, ih _ fun l hl => hixs l (List.mem_cons_of_mem ix hl), select_of_outside hix.2 (by omega)]
  apply hfold
  intro ix hix
  rw [List.mem_range'_1] at hix
  omega

theorem window_sort : (window (sort key m start stop) start stop).Perm (window m start stop) := by
  rw [sort]
  have hfold : ∀ (ixs : List Nat) (m : Nat → α), (∀ ix ∈ ixs, start ≤ ix ∧ ix ≤ stop) →
      (window (ixs.foldl (select key stop) m) start stop).Perm (window m start stop) := by
    intro ixs
    induction ixs with
    | nil => exact fun m _ => List.Perm.refl _
    | cons ix ixs ih =>
        intro m hixs
        have hix := hixs ix List.mem_cons_self
        obtain ⟨big, hle, hstop, hselect, -⟩ := @exists_select α κ _ key m stop ix hix.2
        refine (ih _ fun l hl => hixs l (List.mem_cons_of_mem ix hl)).trans ?_
        rw [hselect]
        exact window_comp_swap hix ⟨hix.1.trans hle, hstop⟩
  apply hfold
  intro ix hix
  rw [List.mem_range'_1] at hix
  omega

/-- The places before `ix` hold elements that are not smaller than any after them. -/
def SortedBefore (key : α → κ) (m : Nat → α) (start stop ix : Nat) : Prop :=
  ∀ i j, start ≤ i → i < ix → i ≤ j → j ≤ stop → key (m j) ≤ key (m i)

theorem SortedBefore.select (h : SortedBefore key m start stop ix) (hix : ix ≤ stop) :
    SortedBefore key (select key stop m ix) start stop (ix + 1) := by
  obtain ⟨big, hle, hstop, hselect, hmax⟩ := @exists_select α κ _ key m stop ix hix
  intro i j hi hlt hij hj
  -- An element from `ix` on is one that was there before the round.
  have hfrom : ∀ k, ix ≤ k → k ≤ stop → ix ≤ Equiv.swap ix big k ∧ Equiv.swap ix big k ≤ stop :=
    fun k hk hkstop => swap_mem_window ⟨le_refl ix, hix⟩ ⟨hle, hstop⟩ ⟨hk, hkstop⟩
  obtain rfl | hlt := Nat.eq_or_lt_of_le (Nat.le_of_lt_succ hlt)
  · rw [hselect, Function.comp_apply, Function.comp_apply, Equiv.swap_apply_left]
    have hplace := hfrom j hij hj
    exact hmax _ hplace.1 hplace.2
  · rw [select_of_outside hix (Or.inl hlt)]
    obtain hjix | hjix := Nat.lt_or_ge j ix
    · rw [select_of_outside hix (Or.inl hjix)]
      exact h i j hi hlt hij hj
    · rw [hselect, Function.comp_apply]
      have hplace := hfrom j hjix hj
      exact h i _ hi hlt (hlt.le.trans hplace.1) hplace.2

theorem descending_sort : Descending key (sort key m start stop) start stop := by
  have hfold : ∀ (n ix : Nat) (m : Nat → α), ix + n = stop + 1 → SortedBefore key m start stop ix →
      SortedBefore key ((List.range' ix n).foldl (select key stop) m) start stop (stop + 1) := by
    intro n
    induction n with
    | zero =>
        rintro ix m rfl h
        exact h
    | succ n ih =>
        intro ix m hn h
        rw [List.range'_succ, List.foldl_cons]
        exact ih (ix + 1) _ (by omega) (h.select (by omega))
  intro i j hi hij hj
  have hinit : SortedBefore key m start stop start := fun i j hi hlt => absurd hi (Nat.not_le.mpr hlt)
  exact hfold (stop + 1 - start) start m (by omega) hinit i j hi (by omega) hij hj

/-- The elements of a sorted window that satisfy `p` do not depend on their order before, where no two of them
have the same key. -/
theorem filter_window_sort {m' : Nat → α} {p : α → Bool} (hperm : (window m start stop).Perm (window m' start stop))
    (hties : ∀ a ∈ window m start stop, ∀ b ∈ window m start stop, p a = true → p b = true → key a = key b → a = b) :
    (window (sort key m start stop) start stop).filter p = (window (sort key m' start stop) start stop).filter p := by
  have hsorted : ∀ m : Nat → α,
      ((window (sort key m start stop) start stop).filter p).Pairwise fun a b => key b ≤ key a := by
    intro m
    apply List.Pairwise.filter
    rw [window, List.pairwise_map]
    refine (List.pairwise_lt_range' (s := start) (n := stop + 1 - start)).imp_of_mem fun {i j} hi hj hlt => ?_
    rw [List.mem_range'_1] at hi hj
    exact descending_sort i j hi.1 hlt.le (by omega)
  have hall : (window (sort key m start stop) start stop).Perm (window (sort key m' start stop) start stop) :=
    window_sort.trans (hperm.trans window_sort.symm)
  apply List.Perm.eq_of_pairwise _ (hsorted m) (hsorted m') (hall.filter p)
  intro a b ha hb hab hba
  obtain ⟨ha, hpa⟩ := List.mem_filter.mp ha
  obtain ⟨hb, hpb⟩ := List.mem_filter.mp hb
  have hb' := window_sort.mem_iff.mp (hall.mem_iff.mpr hb)
  exact hties a (window_sort.mem_iff.mp ha) b hb' hpa hpb (le_antisymm hba hab)

end SelectionSort
