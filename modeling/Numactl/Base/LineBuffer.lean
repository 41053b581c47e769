import Mathlib.Data.List.Basic

/-! Reading a text through a buffer (`fgets`). A call takes a line up to and with its end, as far as there is room,
and what does not fit is left for the next call, where it looks like a line of its own. -/

namespace LineBuffer

variable {α : Type} [DecidableEq α] (eol : α)

/-- What a call takes of the text, and the text it leaves. -/
def fgets : Nat → List α → List α × List α
  | 0, s => ([], s)
  | _ + 1, [] => ([], [])
  | size + 1, c :: s => if c = eol then ([c], s) else (c :: (fgets size s).1, (fgets size s).2)

/-- What the calls take, one after the other, while there is text left. -/
def fills (size : Nat) : Nat → List α → List (List α)
  | 0, _ => []
  | _ + 1, [] => []
  | calls + 1, c :: s => (fgets eol size (c :: s)).1 :: fills size calls (fgets eol size (c :: s)).2

/-- No more calls are needed than there are characters. -/
def buffers (size : Nat) (s : List α) : List (List α) := fills eol size s.length s

/-- Lines, each with its end. -/
def joinLines : List (List α) → List α
  | [] => []
  | l :: ls => l ++ eol :: joinLines ls

/-- What the calls take of a line with an end. -/
def lineBuffers (size : Nat) (l : List α) : List (List α) := buffers eol size (l ++ [eol])

variable {eol}

theorem fgets_append (size : Nat) (s : List α) : (fgets eol size s).1 ++ (fgets eol size s).2 = s := by
  induction size generalizing s with
  | zero => rfl
  | succ size ih =>
      cases s with
      | nil => rfl
      | cons c s =>
          rw [fgets]
          split
          · rfl
          · exact congrArg (c :: ·) (ih s)

/-- Every call takes something. -/
theorem length_fgets_lt {size : Nat} (hsize : 0 < size) (c : α) (s : List α) :
    (fgets eol size (c :: s)).2.length < (c :: s).length := by
  obtain ⟨room, rfl⟩ := Nat.exists_eq_succ_of_ne_zero (Nat.ne_of_gt hsize)
  have hlen := congrArg List.length (@fgets_append α _ eol room s)
  rw [List.length_append] at hlen
  rw [fgets, List.length_cons]
  split
  · exact Nat.lt_succ_self _
  · dsimp only
    omega

theorem fills_eq_buffers {size : Nat} (hsize : 0 < size) {calls : Nat} {s : List α} (hcalls : s.length ≤ calls) :
    fills eol size calls s = buffers eol size s := by
  have hagree : ∀ calls calls' : Nat, ∀ s : List α, s.length ≤ calls → s.length ≤ calls' →
      fills eol size calls s = fills eol size calls' s := by
    intro calls
    induction calls with
    | zero =>
        intro calls' s hs _
        rw [List.length_eq_zero_iff.mp (Nat.le_zero.mp hs)]
        cases calls' with
        | zero => rfl
        | succ calls' => rfl
    | succ calls ih =>
        intro calls' s hs hs'
        cases s with
        | nil =>
            cases calls' with
            | zero => rfl
            | succ calls' => rfl
        | cons c s =>
            have hlt := @length_fgets_lt α _ eol size hsize c s
            rw [List.length_cons] at hlt hs hs'
            obtain ⟨calls', rfl⟩ : ∃ m, calls' = m + 1 := ⟨calls' - 1, by omega⟩
            rw [fills, fills, ih calls' _ (by omega) (by omega)]
  exact hagree calls s.length s hcalls (Nat.le_refl _)

theorem buffers_cons {size : Nat} (hsize : 0 < size) (c : α) (s : List α) :
    buffers eol size (c :: s) =
      (fgets eol size (c :: s)).1 :: buffers eol size (fgets eol size (c :: s)).2 := by
  have hlt := @length_fgets_lt α _ eol size hsize c s
  rw [buffers, List.length_cons, fills, fills_eq_buffers hsize (by rw [List.length_cons] at hlt; omega)]

/-- A line with its end, where there is room for both. -/
theorem fgets_line {l : List α} (hl : eol ∉ l) (s : List α) {size : Nat} (hsize : l.length < size) :
    fgets eol size (l ++ eol :: s) = (l ++ [eol], s) := by
  induction l generalizing size with
  | nil =>
      obtain ⟨room, rfl⟩ := Nat.exists_eq_succ_of_ne_zero (Nat.ne_of_gt hsize)
      exact if_pos rfl
  | cons c l ih =>
      obtain ⟨room, rfl⟩ := Nat.exists_eq_succ_of_ne_zero (Nat.ne_of_gt (Nat.zero_lt_of_lt hsize))
      rw [List.mem_cons, not_or] at hl
      rw [List.cons_append, fgets, if_neg (Ne.symm hl.1), ih hl.2 (Nat.lt_of_succ_lt_succ hsize)]
      rfl

/-- A text without an end of a line that fills the buffer. -/
theorem fgets_full {l : List α} (hl : eol ∉ l) (s : List α) : fgets eol l.length (l ++ s) = (l, s) := by
  induction l with
  | nil => rfl
  | cons c l ih =>
      rw [List.mem_cons, not_or] at hl
      rw [List.length_cons, List.cons_append, fgets, if_neg (Ne.symm hl.1), ih hl.2]

theorem buffers_line {l : List α} (hl : eol ∉ l) (s : List α) {size : Nat} (hsize : l.length < size) :
    buffers eol size (l ++ eol :: s) = (l ++ [eol]) :: buffers eol size s := by
  have hpos : 0 < size := Nat.zero_lt_of_lt hsize
  obtain ⟨c, t, ht⟩ := List.exists_cons_of_ne_nil (List.append_ne_nil_of_right_ne_nil l (List.cons_ne_nil eol s))
  have hfgets := fgets_line hl s hsize
  rw [ht] at hfgets ⊢
  rw [buffers_cons hpos, hfgets]

theorem buffers_full {l : List α} (hl : eol ∉ l) (s : List α) (hpos : 0 < l.length) :
    buffers eol l.length (l ++ s) = l :: buffers eol l.length s := by
  obtain ⟨c, t, ht⟩ := List.exists_cons_of_ne_nil
    (List.append_ne_nil_of_left_ne_nil (List.length_pos_iff.mp hpos) s)
  have hfgets := fgets_full hl s
  rw [ht] at hfgets ⊢
  rw [buffers_cons hpos, hfgets]

/-- The end of a line separates what is read of it from what is read of the text behind it. -/
theorem buffers_append {size : Nat} (hsize : 0 < size) {l : List α} (hl : eol ∉ l) (s : List α) :
    buffers eol size (l ++ eol :: s) = lineBuffers eol size l ++ buffers eol size s := by
  induction hlen : l.length using Nat.strongRecOn generalizing l with
  | _ len ih =>
      by_cases hfits : l.length < size
      · rw [lineBuffers, buffers_line hl s hfits, buffers_line hl [] hfits]
        rfl
      · -- The first buffer is full, and the rest of the line is a shorter one.
        have htake : eol ∉ l.take size := fun h => hl (List.mem_of_mem_take h)
        have hroom : (l.take size).length = size := List.length_take_of_le (Nat.not_lt.mp hfits)
        have hfull := fun t : List α => buffers_full htake t (hroom.symm ▸ hsize)
        rw [hroom] at hfull
        have hshorter : (l.drop size).length < len := by
          rw [List.length_drop]
          omega
        have hrest := ih _ hshorter (fun h => hl (List.mem_of_mem_drop h)) rfl
        have hsplit : ∀ t : List α, l ++ t = l.take size ++ (l.drop size ++ t) := fun t => by
          rw [← List.append_assoc, List.take_append_drop]
        rw [lineBuffers, hsplit, hsplit [eol], hfull, hfull, hrest, lineBuffers]
        rfl

/-- Lines are read one after the other. -/
theorem buffers_joinLines {size : Nat} (hsize : 0 < size) {ls : List (List α)} (hls : ∀ l ∈ ls, eol ∉ l) :
    buffers eol size (joinLines eol ls) = ls.flatMap (lineBuffers eol size) := by
  induction ls with
  | nil => rfl
  | cons l ls ih =>
      rw [List.forall_mem_cons] at hls
      rw [joinLines, buffers_append hsize hls.1, ih hls.2, List.flatMap_cons]

/-- A line shorter than the buffer is read in one piece, and one as long as the buffer is followed by its end. -/
theorem lineBuffers_of_le {l : List α} (hl : eol ∉ l) {size : Nat} (hsize : l.length ≤ size) (hpos : 0 < size) :
    lineBuffers eol size l = [l ++ [eol]] ∨ lineBuffers eol size l = [l, [eol]] := by
  obtain hlt | rfl := Nat.lt_or_eq_of_le hsize
  · exact Or.inl (buffers_line hl [] hlt)
  · refine Or.inr ((buffers_full hl [eol] hpos).trans ?_)
    exact congrArg (l :: ·) (buffers_line List.not_mem_nil [] hpos)

/-- A text without an end of a line that does not fit is cut. -/
theorem fgets_take {l : List α} (hl : eol ∉ l) (s : List α) {size : Nat} (hsize : size ≤ l.length) :
    fgets eol size (l ++ s) = (l.take size, l.drop size ++ s) := by
  have hfull := fgets_full (fun h => hl (List.mem_of_mem_take h) : eol ∉ l.take size) (l.drop size ++ s)
  rwa [List.length_take_of_le hsize, ← List.append_assoc, List.take_append_drop] at hfull

/-- The second buffer of a longer line begins inside it. -/
theorem lineBuffers_of_lt {l : List α} {c : α} {t : List α} (hl : eol ∉ l) (hpos : 0 < l.length) :
    lineBuffers eol l.length (l ++ c :: t) = l :: lineBuffers eol l.length (c :: t) := by
  rw [lineBuffers, List.append_assoc, buffers_full hl _ hpos, lineBuffers]

end LineBuffer
