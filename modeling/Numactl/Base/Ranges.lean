import Mathlib.Data.Finset.Sort
import Mathlib.Order.Interval.Finset.Nat
import Numactl.Base.NumberList

/-! Sets of numbers as lists of ranges. A list is canonical when each range starts behind a gap after the
ranges before it: then the ranges are ascending, disjoint and maximal, and their lengths add up to the size
of the set. A list is written with commas between the ranges and a dash inside each of more than one number,
and this text is read back by the grammar of number lists. -/

namespace Ranges

open CString (decimal)
open NumberList (Item ReadsItem)

/-- The numbers from `lo` to `hi`. -/
structure Range where
  lo : Nat
  hi : Nat
  le : lo ≤ hi
  deriving DecidableEq

namespace Range

def Has (r : Range) (n : Nat) : Prop := r.lo ≤ n ∧ n ≤ r.hi

def length (r : Range) : Nat := r.hi - r.lo + 1

def toFinset (r : Range) : Finset Nat := Finset.Icc r.lo r.hi

def single (n : Nat) : Range := ⟨n, n, le_rfl⟩

/-- The range with the next number. -/
def extend (r : Range) : Range := ⟨r.lo, r.hi + 1, Nat.le_succ_of_le r.le⟩

def item (r : Range) : Item := if r.lo = r.hi then .one r.lo else .range r.lo r.hi

def text (r : Range) : List Char := if r.lo = r.hi then decimal r.lo else decimal r.lo ++ '-' :: decimal r.hi

theorem readsItem_text {r : Range} (h : r.hi < 2 ^ 64) : ReadsItem r.text r.item := by
  have hlo : r.lo < 2 ^ 64 := r.le.trans_lt h
  rw [text, item]
  split
  · exact .one (NumberList.numeral_decimal hlo)
  · exact .range (NumberList.numeral_decimal hlo) (NumberList.numeral_decimal h)

theorem text_eq (r : Range) : ∃ rest, r.text = decimal r.lo ++ rest := by
  rw [text]
  split
  · exact ⟨[], (List.append_nil _).symm⟩
  · exact ⟨_, rfl⟩

theorem text_ne_nil (r : Range) : r.text ≠ [] := by
  obtain ⟨rest, h⟩ := r.text_eq
  rw [h]
  exact List.append_ne_nil_of_left_ne_nil (CString.decimal_ne_nil r.lo) rest

theorem head?_text {r : Range} {c : Char} (h : r.text.head? = some c) : CString.isDigitOf 10 c = true := by
  obtain ⟨rest, htext⟩ := r.text_eq
  rw [htext, CString.head?_append_of_ne_nil (CString.decimal_ne_nil r.lo)] at h
  exact CString.isDigitOf_decimal c (List.mem_of_head? h)

end Range

/-- One of the ranges has the number. -/
def Has (rs : List Range) (n : Nat) : Prop := ∃ r ∈ rs, r.Has n

def Canonical (rs : List Range) : Prop := rs.Pairwise fun r r' => r.hi + 1 < r'.lo

/-- The canonical ranges of a set. -/
structure RangesOf (S : Finset Nat) (rs : List Range) : Prop where
  ascending : rs.Pairwise fun r r' => r.hi < r'.lo
  maximal : ∀ r ∈ rs, r.hi + 1 ∉ S ∧ ∀ n, n + 1 = r.lo → n ∉ S
  has : ∀ n, Has rs n ↔ n ∈ S

@[simp] theorem not_has_nil (n : Nat) : ¬Has [] n := fun ⟨_, hr, _⟩ => List.not_mem_nil hr

theorem has_cons {r : Range} {rs : List Range} {n : Nat} : Has (r :: rs) n ↔ r.Has n ∨ Has rs n := by
  simp only [Has, List.mem_cons, or_and_right, exists_or, exists_eq_left]

theorem has_append {rs rs' : List Range} {n : Nat} : Has (rs ++ rs') n ↔ Has rs n ∨ Has rs' n := by
  simp only [Has, List.mem_append, or_and_right, exists_or]

theorem has_singleton {r : Range} {n : Nat} : Has [r] n ↔ r.Has n := by
  simp only [Has, List.mem_singleton, exists_eq_left]

theorem has_single {n m : Nat} : (Range.single n).Has m ↔ m = n :=
  ⟨fun h => le_antisymm h.2 h.1, fun h => ⟨h.ge, h.le⟩⟩

theorem has_extend {r : Range} {m : Nat} : r.extend.Has m ↔ r.Has m ∨ m = r.hi + 1 := by
  have hle := r.le
  simp only [Range.Has, Range.extend]
  omega

theorem canonical_nil : Canonical [] := List.Pairwise.nil

/-- A range behind a gap goes to the end. -/
theorem Canonical.concat {rs : List Range} (h : Canonical rs) {r : Range}
    (hgap : ∀ r' ∈ rs, r'.hi + 1 < r.lo) : Canonical (rs ++ [r]) := by
  rw [Canonical, List.pairwise_append]
  refine ⟨h, List.pairwise_singleton _ _, fun r' hr' r'' hr'' => ?_⟩
  rw [List.mem_singleton.mp hr'']
  exact hgap r' hr'

theorem Canonical.gap {rs : List Range} {r : Range} (h : Canonical (rs ++ [r])) : ∀ r' ∈ rs, r'.hi + 1 < r.lo :=
  fun r' hr' => (List.pairwise_append.mp h).2.2 r' hr' r (List.mem_singleton.mpr rfl)

theorem Canonical.init {rs : List Range} {r : Range} (h : Canonical (rs ++ [r])) : Canonical rs :=
  (List.pairwise_append.mp h).1

/-- The last range may grow. -/
theorem Canonical.extend {rs : List Range} {r : Range} (h : Canonical (rs ++ [r])) : Canonical (rs ++ [r.extend]) :=
  h.init.concat h.gap

/-- No number follows the last range. -/
theorem Canonical.le_hi {rs : List Range} {r : Range} (h : Canonical (rs ++ [r])) {n : Nat}
    (hn : Has (rs ++ [r]) n) : n ≤ r.hi := by
  obtain ⟨r', hr', hn⟩ := hn
  obtain hr' | hr' := List.mem_append.mp hr'
  · have hgap := h.gap r' hr'
    have hle := r.le
    have hhi := hn.2
    omega
  · rw [List.mem_singleton.mp hr'] at hn
    exact hn.2

/-- Two ranges of a canonical list are the same or have a gap between them. -/
theorem Canonical.separate {rs : List Range} (h : Canonical rs) {r r' : Range} (hr : r ∈ rs) (hr' : r' ∈ rs) :
    r = r' ∨ r.hi + 1 < r'.lo ∨ r'.hi + 1 < r.lo := by
  obtain ⟨i, hi, rfl⟩ := List.getElem_of_mem hr
  obtain ⟨j, hj, rfl⟩ := List.getElem_of_mem hr'
  have hpair := List.pairwise_iff_getElem.mp h
  obtain hlt | rfl | hgt := lt_trichotomy i j
  · exact Or.inr (Or.inl (hpair i j hi hj hlt))
  · exact Or.inl rfl
  · exact Or.inr (Or.inr (hpair j i hj hi hgt))

/-- A canonical list has the canonical ranges of its numbers. -/
theorem Canonical.rangesOf {rs : List Range} (h : Canonical rs) {S : Finset Nat} (hS : ∀ n, Has rs n ↔ n ∈ S) :
    RangesOf S rs where
  ascending := h.imp fun hgap => by omega
  maximal := by
    intro r hr
    have hle := r.le
    refine ⟨fun hmem => ?_, fun n hn hmem => ?_⟩
    · obtain ⟨r', hr', hlo, hhi⟩ := (hS _).mpr hmem
      obtain rfl | hsep := h.separate hr hr'
      · omega
      · omega
    · obtain ⟨r', hr', hlo, hhi⟩ := (hS _).mpr hmem
      obtain rfl | hsep := h.separate hr hr'
      · omega
      · omega
  has := hS

/-- The lengths of the ranges add up to the size of the set. -/
theorem Canonical.sum_length {rs : List Range} (h : Canonical rs) {S : Finset Nat} (hS : ∀ n, Has rs n ↔ n ∈ S) :
    (rs.map Range.length).sum = S.card := by
  induction rs using List.reverseRecOn generalizing S with
  | nil =>
      obtain rfl : S = ∅ := Finset.eq_empty_of_forall_notMem fun n hn => not_has_nil n ((hS n).mpr hn)
      rfl
  | append_singleton rs r ih =>
      have hinit := ih h.init (S := S.filter (· < r.lo)) fun n => ?_
      · have hsplit : S.filter (¬· < r.lo) = r.toFinset := by
          apply Finset.ext
          intro n
          rw [Finset.mem_filter, ← hS, Range.toFinset, Finset.mem_Icc, Nat.not_lt]
          refine ⟨fun hn => ⟨hn.2, h.le_hi hn.1⟩, fun hn => ⟨?_, hn.1⟩⟩
          exact has_append.mpr (Or.inr (has_singleton.mpr hn))
        have hle := r.le
        rw [List.map_append, List.sum_append, hinit, List.map_singleton, List.sum_singleton,
          ← Finset.card_filter_add_card_filter_not (s := S) (· < r.lo), hsplit, Range.toFinset, Nat.card_Icc,
          Range.length]
        omega
      · rw [Finset.mem_filter, ← hS, has_append, has_singleton]
        refine ⟨fun hn => ⟨Or.inl hn, ?_⟩, fun hn => hn.1.resolve_right fun hr => ?_⟩
        · obtain ⟨r', hr', hlo, hhi⟩ := hn
          have hgap := h.gap r' hr'
          omega
        · exact absurd hr.1 (Nat.not_le.mpr hn.2)

/-! ### The text -/

/-- The texts `ts` and then `t`, with commas between them. -/
def commas (ts : List (List Char)) (t : List Char) : List Char := [','].intercalate (ts ++ [t])

@[simp] theorem commas_nil (t : List Char) : commas [] t = t := List.intercalate_singleton

theorem head?_intercalate {t : List Char} (ht : t ≠ []) (ts : List (List Char)) :
    ([','].intercalate (t :: ts)).head? = t.head? := by
  cases ts with
  | nil => rw [List.intercalate_singleton]
  | cons u ts =>
      rw [List.intercalate_cons_of_ne_nil (List.cons_ne_nil u ts), List.append_assoc,
        CString.head?_append_of_ne_nil ht]

theorem commas_cons (u : List Char) (ts : List (List Char)) (t : List Char) :
    commas (u :: ts) t = u ++ ',' :: commas ts t := by
  rw [commas, List.cons_append, List.intercalate_cons_of_ne_nil (by simp), List.append_assoc]
  rfl

/-- The last text may grow. -/
theorem commas_append (ts : List (List Char)) (t u : List Char) : commas ts (t ++ u) = commas ts t ++ u := by
  induction ts with
  | nil => rw [commas_nil, commas_nil]
  | cons v ts ih => rw [commas_cons, commas_cons, ih, List.append_assoc, List.cons_append]

theorem commas_concat (ts : List (List Char)) (t u : List Char) : commas (ts ++ [t]) u = commas ts t ++ ',' :: u := by
  induction ts with
  | nil => rw [List.nil_append, commas_cons, commas_nil, commas_nil]
  | cons v ts ih => rw [List.cons_append, commas_cons, commas_cons, ih, List.append_assoc, List.cons_append]

theorem intercalate_concat {ts : List (List Char)} (hne : ts ≠ []) (t : List Char) :
    [','].intercalate (ts ++ [t]) = [','].intercalate ts ++ ',' :: t := by
  have hlast := commas_concat ts.dropLast (ts.getLast hne) t
  rwa [commas, commas, List.dropLast_append_getLast hne] at hlast

/-! ### Numbers one by one -/

theorem flatMap_ite {α β : Type*} (p : α → Bool) (f : α → List β) (xs : List α) :
    xs.flatMap (fun x => if p x = true then f x else []) = (xs.filter p).flatMap f := by
  induction xs with
  | nil => rfl
  | cons x xs ih =>
      rw [List.flatMap_cons, ih, List.filter_cons]
      by_cases hx : p x = true
      · rw [if_pos hx, if_pos hx, List.flatMap_cons]
      · rw [if_neg hx, if_neg hx, List.nil_append]

/-- Going through the numbers below a bound, those of a set come in ascending order. -/
theorem filter_range_eq_sort {S : Finset Nat} {m : Nat} {p : Nat → Bool} (hS : ∀ n, n ∈ S ↔ n < m ∧ p n = true) :
    (List.range m).filter p = S.sort (· ≤ ·) := by
  have hpairwise : ((List.range m).filter p).Pairwise (· ≤ ·) :=
    (List.pairwise_lt_range.imp Nat.le_of_lt).filter _
  apply List.Perm.eq_of_pairwise (fun _ _ _ _ => Nat.le_antisymm) hpairwise (S.pairwise_sort _)
  rw [List.perm_ext_iff_of_nodup (List.nodup_range.filter _) (S.sort_nodup _)]
  intro i
  rw [Finset.mem_sort, List.mem_filter, List.mem_range, hS]

/-- The rank of a number in a set is its place among the numbers in ascending order. -/
theorem card_filter_lt_sort {S : Finset Nat} {i : Nat} (hi : i < (S.sort (· ≤ ·)).length) :
    (S.filter (· < (S.sort (· ≤ ·))[i])).card = i := by
  have hsplit : S.sort (· ≤ ·) = (S.sort (· ≤ ·)).take i ++ (S.sort (· ≤ ·))[i] :: (S.sort (· ≤ ·)).drop (i + 1) := by
    rw [List.getElem_cons_drop, List.take_append_drop]
  have hsorted : (S.sort (· ≤ ·)).Pairwise (· < ·) := S.sortedLT_sort.pairwise
  rw [hsplit, List.pairwise_append, List.pairwise_cons] at hsorted
  have hbelow : S.filter (· < (S.sort (· ≤ ·))[i]) = ((S.sort (· ≤ ·)).take i).toFinset := by
    ext n
    rw [Finset.mem_filter, List.mem_toFinset]
    constructor
    · rintro ⟨hn, hlt⟩
      rw [← Finset.mem_sort (· ≤ ·), hsplit, List.mem_append, List.mem_cons] at hn
      rcases hn with hn | rfl | hn
      · exact hn
      · exact absurd hlt (lt_irrefl _)
      · exact absurd hlt (Nat.lt_asymm (hsorted.2.1.1 n hn))
    · intro hn
      exact ⟨(Finset.mem_sort _).mp (List.mem_of_mem_take hn), hsorted.2.2 n hn _ List.mem_cons_self⟩
  rw [hbelow, List.toFinset_card_of_nodup ((S.sort_nodup _).sublist (List.take_sublist _ _)), List.length_take,
    Nat.min_eq_left (Nat.le_of_lt hi)]

end Ranges
