import Mathlib.Data.List.Pairwise

/-! Run-length encodings of a labelling of the numbers below `n`. A loop over the numbers keeps the segments
it has finished and the one that is pending: the label of the numbers since the pending start. A number with
another label finishes the pending segment and starts the next. Segments of unwanted labels may be left out. -/

namespace RunLength

/-- The numbers from `lo` on below `hi`, with their label. -/
structure Segment (L : Type*) where
  lo : Nat
  hi : Nat
  label : L
  lt : lo < hi

variable {L : Type*} {f : Nat → L}

def Segment.Has (s : Segment L) (p : Nat) : Prop := s.lo ≤ p ∧ p < s.hi

def Has (segs : List (Segment L)) (p : Nat) : Prop := ∃ s ∈ segs, s.Has p

/-- The segments of the numbers below `n` whose labels are kept: no number is in two of them, each number has
the label of its segment, and where one segment ends and another starts the label changes. -/
structure Encodes (keep : L → Prop) (f : Nat → L) (n : Nat) (segs : List (Segment L)) : Prop where
  ascending : segs.Pairwise fun s s' => s.hi ≤ s'.lo
  labelled : ∀ s ∈ segs, ∀ p, s.Has p → f p = s.label
  has : ∀ p, Has segs p ↔ p < n ∧ keep (f p)
  touching : ∀ s ∈ segs, ∀ s' ∈ segs, s.hi = s'.lo → s.label ≠ s'.label

/-- All numbers below `n` are in segments, and each segment starts where the label changes. -/
structure Finished (f : Nat → L) (n : Nat) (segs : List (Segment L)) : Prop where
  ascending : segs.Pairwise fun s s' => s.hi ≤ s'.lo
  labelled : ∀ s ∈ segs, ∀ p, s.Has p → f p = s.label
  has : ∀ p, Has segs p ↔ p < n
  changes : ∀ s ∈ segs, ∀ p, p + 1 = s.lo → f p ≠ s.label

/-- The numbers from `start` on below `k` are pending, with their label. -/
structure Pending (f : Nat → L) (k : Nat) (segs : List (Segment L)) (start : Nat) (label : L) : Prop where
  finished : Finished f start segs
  lt : start < k
  same : ∀ p, start ≤ p → p < k → f p = label
  change : ∀ p, p + 1 = start → f p ≠ label

theorem finished_nil : Finished f 0 [] where
  ascending := List.Pairwise.nil
  labelled _ hs := absurd hs List.not_mem_nil
  has p := iff_of_false (fun ⟨_, hs, _⟩ => List.not_mem_nil hs) (Nat.not_lt_zero p)
  changes _ hs := absurd hs List.not_mem_nil

theorem pending_first : Pending f 1 [] 0 (f 0) where
  finished := finished_nil
  lt := Nat.one_pos
  same p _ hp := by rw [Nat.lt_one_iff.mp hp]
  change p hp := absurd hp (Nat.succ_ne_zero p)

section

variable {k start : Nat} {segs : List (Segment L)} {label : L}

/-- A number with the same label joins the pending segment. -/
theorem Pending.extend (h : Pending f k segs start label) (hk : f k = label) : Pending f (k + 1) segs start label where
  finished := h.finished
  lt := Nat.lt_succ_of_lt h.lt
  same p hstart hp := by
    obtain hlt | rfl := Nat.lt_succ_iff_lt_or_eq.mp hp
    · exact h.same p hstart hlt
    · exact hk
  change := h.change

/-- The pending segment is finished. -/
theorem Pending.flush (h : Pending f k segs start label) : Finished f k (segs ++ [⟨start, k, label, h.lt⟩]) where
  ascending := by
    rw [List.pairwise_append]
    refine ⟨h.finished.ascending, List.pairwise_singleton _ _, fun s hs s' hs' => ?_⟩
    rw [List.mem_singleton.mp hs']
    have hlt := s.lt
    have hlast := (h.finished.has (s.hi - 1)).mp ⟨s, hs, by omega, by omega⟩
    dsimp only
    omega
  labelled s hs p hp := by
    obtain hs | hs := List.mem_append.mp hs
    · exact h.finished.labelled s hs p hp
    · rw [List.mem_singleton.mp hs] at hp ⊢
      exact h.same p hp.1 hp.2
  has p := by
    have hlt := h.lt
    refine ⟨fun ⟨s, hs, hp⟩ => ?_, fun hp => ?_⟩
    · obtain hs | hs := List.mem_append.mp hs
      · exact Nat.lt_trans ((h.finished.has p).mp ⟨s, hs, hp⟩) hlt
      · rw [List.mem_singleton.mp hs] at hp
        exact hp.2
    · obtain hstart | hstart := Nat.lt_or_ge p start
      · obtain ⟨s, hs, hin⟩ := (h.finished.has p).mpr hstart
        exact ⟨s, List.mem_append_left _ hs, hin⟩
      · exact ⟨_, List.mem_append_right _ (List.mem_singleton.mpr rfl), hstart, hp⟩
  changes s hs p hp := by
    obtain hs | hs := List.mem_append.mp hs
    · exact h.finished.changes s hs p hp
    · rw [List.mem_singleton.mp hs] at hp ⊢
      exact h.change p hp

/-- A number with another label finishes the pending segment and is pending itself. -/
theorem Pending.next (h : Pending f k segs start label) (hk : f k ≠ label) :
    Pending f (k + 1) (segs ++ [⟨start, k, label, h.lt⟩]) k (f k) where
  finished := h.flush
  lt := Nat.lt_succ_self k
  same p hstart hp := by rw [Nat.le_antisymm (Nat.le_of_lt_succ hp) hstart]
  change p hp := by
    have hlt := h.lt
    rw [h.same p (by omega) (by omega)]
    exact hk.symm

end

/-- What is kept of the finished segments. -/
theorem Finished.filter {n : Nat} {segs : List (Segment L)} (h : Finished f n segs) (keep : L → Prop)
    [DecidablePred keep] : Encodes keep f n (segs.filter fun s => keep s.label) where
  ascending := h.ascending.filter _
  labelled s hs := h.labelled s (List.mem_filter.mp hs).1
  has p := by
    rw [← h.has p]
    constructor
    · rintro ⟨s, hs, hp⟩
      obtain ⟨hs, hkeep⟩ := List.mem_filter.mp hs
      refine ⟨⟨s, hs, hp⟩, ?_⟩
      rw [h.labelled s hs p hp]
      exact of_decide_eq_true hkeep
    · rintro ⟨⟨s, hs, hp⟩, hkeep⟩
      rw [h.labelled s hs p hp] at hkeep
      exact ⟨s, List.mem_filter.mpr ⟨hs, decide_eq_true hkeep⟩, hp⟩
  touching s hs s' hs' heq := by
    have hlt := s.lt
    have hlast := h.labelled s (List.mem_filter.mp hs).1 (s.hi - 1) ⟨by omega, by omega⟩
    rw [← hlast]
    exact h.changes s' (List.mem_filter.mp hs').1 (s.hi - 1) (by omega)

/-- Where nothing is printed about the other segments, the kept ones print all there is. -/
theorem flatMap_filter {α : Type*} (keep : L → Prop) [DecidablePred keep] {line : Segment L → List α}
    (h : ∀ s, ¬keep s.label → line s = []) (segs : List (Segment L)) :
    (segs.filter fun s => keep s.label).flatMap line = segs.flatMap line := by
  induction segs with
  | nil => rfl
  | cons s segs ih =>
      rw [List.filter_cons, List.flatMap_cons, ← ih]
      by_cases hs : keep s.label
      · rw [if_pos (decide_eq_true hs), List.flatMap_cons]
      · rw [if_neg (mt of_decide_eq_true hs), h s hs, List.nil_append]

end RunLength
