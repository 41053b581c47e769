import Mathlib.Algebra.GroupWithZero.Nat

/-! A sequence in a buffer that is computed in place. Each element of the sequence is made of those `n`, `n - 1` and
`n - m` places before it, and a buffer of `n` elements holds a window of it. A sweep over the buffer replaces every
element by the one `n` places on, reading the elements it needs at their places in the buffer, some of them already
replaced; behind the sweep the buffer holds the next window. -/

namespace Recurrence

/-- What a traversal keeps, with the number of steps made. -/
theorem foldl_rule {β : Type*} {n : Nat} {step : β → Fin n → β} {P : Nat → β → Prop} {b : β} (hinit : P 0 b)
    (hstep : ∀ (i : Fin n) (b : β), P i b → P (i + 1) (step b i)) : P n (Fin.foldl n step b) := by
  induction n with
  | zero => exact hinit
  | succ n ih =>
      rw [Fin.foldl_succ_last]
      apply hstep (Fin.last n)
      exact ih fun i b hb => hstep i.castSucc b hb

variable {α : Type*} {n m : Nat}

/-- The sequence that starts with `init` and goes on with `f`. -/
def seq (f : α → α → α → α) (n m : Nat) (init : Nat → α) (i : Nat) : α :=
  if _h : i < n ∨ n < 2 ∨ n ≤ m then init i
  else f (seq f n m init (i - n)) (seq f n m init (i - n + 1)) (seq f n m init (i - n + m))
termination_by i
decreasing_by all_goals omega

theorem seq_of_lt (f : α → α → α → α) (init : Nat → α) {i : Nat} (h : i < n) : seq f n m init i = init i := by
  rw [seq, dif_pos (Or.inl h)]

theorem seq_add (f : α → α → α → α) (hn : 2 ≤ n) (hm : m < n) (init : Nat → α) (i : Nat) :
    seq f n m init (i + n) = f (seq f n m init i) (seq f n m init (i + 1)) (seq f n m init (i + m)) := by
  rw [seq, dif_neg (by omega), Nat.add_sub_cancel]

/-- The buffer in a sweep over the window at `base`, with the first `i` elements replaced. -/
def Swept (x : Nat → α) (base i : Nat) (b : Vector α n) : Prop :=
  ∀ j (h : j < n), b[j] = if j < i then x (base + n + j) else x (base + j)

/-- The buffer holds the window at `base`. -/
def Window (x : Nat → α) (base : Nat) (b : Vector α n) : Prop := ∀ j (h : j < n), b[j] = x (base + j)

variable {x : Nat → α} {base i : Nat} {b : Vector α n}

theorem Window.swept (h : Window x base b) : Swept x base 0 b := fun j hj =>
  (h j hj).trans (if_neg (Nat.not_lt_zero j)).symm

theorem Swept.window (h : Swept x base n b) : Window x (base + n) b := fun j hj => (h j hj).trans (if_pos hj)

theorem Swept.replaced (h : Swept x base i b) {j : Nat} (hj : j < n) (hlt : j < i) : b[j] = x (base + n + j) :=
  (h j hj).trans (if_pos hlt)

theorem Swept.kept (h : Swept x base i b) {j : Nat} (hj : j < n) (hle : i ≤ j) : b[j] = x (base + j) :=
  (h j hj).trans (if_neg (Nat.not_lt_of_le hle))

/-- One step of a sweep. The places read are those of the next element and of the one `m` on, around the end. -/
theorem Swept.set {f : α → α → α → α} (hx : ∀ i, x (i + n) = f (x i) (x (i + 1)) (x (i + m)))
    (hn : 2 ≤ n) (hm : m < n) (h : Swept x base i b) (hi : i < n) {p q : Nat} (hp : p < n) (hq : q < n)
    (hnext : p = i + 1 ∨ p + n = i + 1) (hahead : q = i + m ∨ q + n = i + m) :
    Swept x base (i + 1) (b.set i (f b[i] b[p] b[q])) := by
  have hvalue : f b[i] b[p] b[q] = x (base + n + i) := by
    have hthis : b[i] = x (base + i) := h.kept hi (Nat.le_refl i)
    have hp' : b[p] = x (base + i + 1) := by
      rcases hnext with hnext | hwrap
      · rw [h.kept hp (by omega), hnext, Nat.add_assoc]
      · rw [h.replaced hp (by omega)]
        exact congrArg x (by omega)
    have hq' : b[q] = x (base + i + m) := by
      rcases hahead with hahead | hwrap
      · rw [h.kept hq (by omega), hahead, Nat.add_assoc]
      · rw [h.replaced hq (by omega)]
        exact congrArg x (by omega)
    calc f b[i] b[p] b[q] = f (x (base + i)) (x (base + i + 1)) (x (base + i + m)) := by rw [hthis, hp', hq']
      _ = x (base + i + n) := (hx _).symm
      _ = x (base + n + i) := congrArg x (by omega)
  intro j hj
  rw [Vector.getElem_set]
  by_cases hij : i = j
  · subst hij
    rw [if_pos rfl, if_pos (Nat.lt_succ_self i), hvalue]
  · rw [if_neg hij, h j hj]
    by_cases hlt : j < i
    · rw [if_pos hlt, if_pos (by omega)]
    · rw [if_neg hlt, if_neg (by omega)]

end Recurrence
