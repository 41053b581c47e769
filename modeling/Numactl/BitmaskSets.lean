import Numactl.Base.Runs
import Numactl.Bitmask
import Mathlib.Data.Fin.VecNotation

/-! The masks of a program as sets of numbers. A family of bitmasks and of version 1 nodemasks is driven
by a sequence of the library's operations; the abstract machine beside it keeps a finite set for each
mask and knows nothing of words. The two agree on every observation up to the first
`copy_bitmask_to_bitmask` that makes a stray bit visible: a set bit of the source's last word past the
source's size, which an earlier copy of whole words into that mask has left there. -/

namespace Numactl

variable {arch : Arch} {ι κ : Type*}

/-- An operation on a family of bitmasks indexed by `ι` and of nodemasks indexed by `κ`. -/
inductive MaskOp (ι κ : Type*) where
  | setbit (bmp : ι) (n : Nat)
  | clearbit (bmp : ι) (n : Nat)
  | setall (bmp : ι)
  | clearall (bmp : ι)
  | bitmaskToBitmask (bmpfrom bmpto : ι)
  | bitmaskToNodemask (bmp : ι) (nmp : κ)
  | nodemaskToBitmask (nmp : κ) (bmp : ι)

/-- The masks of the program. -/
structure Masks (arch : Arch) (ι κ : Type*) where
  bitmask : ι → Bitmask
  nodemask : κ → Nodemask arch

/-- The sets the masks stand for. -/
structure MaskSets (ι κ : Type*) where
  set : ι → Finset Nat
  nodeset : κ → Finset Nat

namespace Masks

variable [DecidableEq ι] [DecidableEq κ]

def step (m : Masks arch ι κ) : MaskOp ι κ → Masks arch ι κ
  | .setbit b n => { m with bitmask := Function.update m.bitmask b (numaBitmaskSetbit (m.bitmask b) n) }
  | .clearbit b n =>
      { m with bitmask := Function.update m.bitmask b (numaBitmaskClearbit (m.bitmask b) n) }
  | .setall b => { m with bitmask := Function.update m.bitmask b (numaBitmaskSetall (m.bitmask b)) }
  | .clearall b => { m with bitmask := Function.update m.bitmask b (numaBitmaskClearall (m.bitmask b)) }
  | .bitmaskToBitmask f t =>
      { m with
        bitmask := Function.update m.bitmask t (copyBitmaskToBitmask (m.bitmask f) (m.bitmask t)) }
  | .bitmaskToNodemask b k =>
      { m with nodemask := Function.update m.nodemask k (copyBitmaskToNodemask (m.bitmask b) arch) }
  | .nodemaskToBitmask k b =>
      { m with
        bitmask := Function.update m.bitmask b (copyNodemaskToBitmask (m.nodemask k) (m.bitmask b)) }

/-- What the masks hold, as sets. -/
def sets (m : Masks arch ι κ) : MaskSets ι κ where
  set b := (m.bitmask b).bits
  nodeset k := (m.nodemask k).bits

/-- The observers report exactly what the sets say. -/
structure Reports (m : Masks arch ι κ) (s : MaskSets ι κ) : Prop where
  isbitset : ∀ b n, numaBitmaskIsbitset (m.bitmask b) n = decide (n ∈ s.set b)
  equal : ∀ b c, numaBitmaskEqual (m.bitmask b) (m.bitmask c) = decide (s.set b = s.set c)
  weight : ∀ b, numaBitmaskWeight (m.bitmask b) = (s.set b).card
  isset : ∀ k n, nodemaskIssetCompat (m.nodemask k) n = decide (n ∈ s.nodeset k)

end Masks

/-- The operations on sets of numbers, for masks of the sizes `size` and nodemasks of `nodes` bits. A
copy restricts the source's set to the destination's size. -/
def MaskSets.step [DecidableEq ι] [DecidableEq κ] (size : ι → Nat) (nodes : Nat) (s : MaskSets ι κ) :
    MaskOp ι κ → MaskSets ι κ
  | .setbit b n =>
      { s with set := Function.update s.set b (if n < size b then insert n (s.set b) else s.set b) }
  | .clearbit b n => { s with set := Function.update s.set b ((s.set b).erase n) }
  | .setall b => { s with set := Function.update s.set b (Finset.range (size b)) }
  | .clearall b => { s with set := Function.update s.set b ∅ }
  | .bitmaskToBitmask f t =>
      { s with set := Function.update s.set t ((s.set f).filter (· < size t)) }
  | .bitmaskToNodemask b k =>
      { s with nodeset := Function.update s.nodeset k ((s.set b).filter (· < nodes)) }
  | .nodemaskToBitmask k b =>
      { s with set := Function.update s.set b ((s.nodeset k).filter (· < size b)) }

/-- A set bit of the mask's last word past the mask's size. -/
def Bitmask.Stray (bmp : Bitmask) (p : Nat) : Prop :=
  bmp.size ≤ p ∧ p < longsperbits bmp.size * 64 ∧ Words.bit bmp.maskp p = true

/-- The step is no copy into a mask large enough to show a stray bit of its source. -/
def Masks.CopiesClean (m : Masks arch ι κ) : MaskOp ι κ → Prop
  | .bitmaskToBitmask f t => ∀ p, p < (m.bitmask t).size → ¬(m.bitmask f).Stray p
  | _ => True

/-- A copy acts on sets exactly when it shows no stray bit of its source. -/
theorem bits_copyBitmaskToBitmask_iff (bmpfrom bmpto : Bitmask) :
    (copyBitmaskToBitmask bmpfrom bmpto).bits = bmpfrom.bits.filter (· < bmpto.size) ↔
      ∀ p, p < bmpto.size → ¬bmpfrom.Stray p := by
  refine ⟨fun h p hp hstray => ?_, fun h => ?_⟩
  · obtain ⟨hsize, hword, hbit⟩ := hstray
    have hmem : p ∈ (copyBitmaskToBitmask bmpfrom bmpto).bits :=
      (mem_bits_copyBitmaskToBitmask p).mpr ⟨hp, hword, hbit⟩
    rw [h, Finset.mem_filter, Bitmask.mem_bits] at hmem
    omega
  · apply Finset.ext
    intro p
    rw [mem_bits_copyBitmaskToBitmask, Finset.mem_filter, Bitmask.mem_bits]
    refine ⟨fun hmem => ?_, fun hmem => ?_⟩
    · obtain ⟨hp, hword, hbit⟩ := hmem
      by_cases hsize : p < bmpfrom.size
      · exact ⟨⟨hsize, hbit⟩, hp⟩
      · exact absurd ⟨Nat.le_of_not_lt hsize, hword, hbit⟩ (h p hp)
    · obtain ⟨⟨hsize, hbit⟩, hp⟩ := hmem
      exact ⟨hp, hsize.trans_le (le_longsperbits _), hbit⟩

namespace Masks

/-- The observers report what the sets say exactly when the masks hold the sets. -/
theorem reports_iff (m : Masks arch ι κ) (s : MaskSets ι κ) : m.Reports s ↔ m.sets = s := by
  constructor
  · intro h
    obtain ⟨set, nodeset⟩ := s
    have hset : ∀ b, (m.bitmask b).bits = set b := by
      intro b
      ext n
      have := h.isbitset b n
      rw [numaBitmaskIsbitset, getbit_eq_decide, decide_eq_decide] at this
      exact this
    have hnode : ∀ k, (m.nodemask k).bits = nodeset k := by
      intro k
      ext n
      rw [← nodemaskIssetCompat_eq_true, h.isset k n, decide_eq_true_eq]
    rw [sets, MaskSets.mk.injEq]
    exact ⟨funext hset, funext hnode⟩
  · rintro rfl
    refine ⟨fun b n => getbit_eq_decide _ _, fun b c => ?_, fun b => numaBitmaskWeight_eq _, fun k n => ?_⟩
    · rw [Bool.eq_iff_iff, numaBitmaskEqual_iff, decide_eq_true_eq]
      rfl
    · rw [Bool.eq_iff_iff, nodemaskIssetCompat_eq_true, decide_eq_true_eq]
      rfl

variable [DecidableEq ι] [DecidableEq κ]

@[simp] theorem size_step (m : Masks arch ι κ) (op : MaskOp ι κ) (b : ι) :
    ((m.step op).bitmask b).size = (m.bitmask b).size := by
  cases op <;> simp only [step] <;> (try rw [Function.update_apply]) <;> (try split) <;>
    simp_all

/-- The masks of a run keep their sizes. -/
theorem size_after (m : Masks arch ι κ) (ops : List (MaskOp ι κ)) (b : ι) :
    ((Runs.after step m ops).bitmask b).size = (m.bitmask b).size :=
  Runs.invariant_rule (I := fun t : Masks arch ι κ => (t.bitmask b).size = (m.bitmask b).size) rfl
    (fun t op h => (size_step t op b).trans h) ops

omit [DecidableEq κ] in
theorem sets_update (m : Masks arch ι κ) (b : ι) (bmp : Bitmask) :
    sets { m with bitmask := Function.update m.bitmask b bmp } =
      { m.sets with set := Function.update m.sets.set b bmp.bits } := by
  rw [sets, MaskSets.mk.injEq]
  refine ⟨funext fun c => ?_, rfl⟩
  simp only [sets, Function.update_apply]
  split <;> rfl

omit [DecidableEq κ] in
theorem update_set_inj (s : MaskSets ι κ) (b : ι) (x y : Finset Nat) :
    ({ s with set := Function.update s.set b x } : MaskSets ι κ) =
      { s with set := Function.update s.set b y } ↔ x = y := by
  rw [MaskSets.mk.injEq]
  constructor
  · rintro ⟨h, -⟩
    simpa using congrFun h b
  · rintro rfl
    exact ⟨rfl, rfl⟩

/-- One operation does to the masks what it does to the sets, exactly when it shows no stray bit. -/
theorem sets_step_iff (m : Masks arch ι κ) (op : MaskOp ι κ) :
    (m.step op).sets =
        m.sets.step (fun b => (m.bitmask b).size) (numaNumNodes arch) op ↔ m.CopiesClean op := by
  cases op with
  | setbit b n =>
      simp only [step, sets_update, MaskSets.step, update_set_inj, CopiesClean, iff_true]
      exact bits_setbit_true _ _
  | clearbit b n =>
      simp only [step, sets_update, MaskSets.step, update_set_inj, CopiesClean, iff_true]
      exact bits_setbit_false _ _
  | setall b =>
      simp only [step, sets_update, MaskSets.step, update_set_inj, CopiesClean, iff_true]
      exact bits_setall _
  | clearall b =>
      simp only [step, sets_update, MaskSets.step, update_set_inj, CopiesClean, iff_true]
      exact bits_clearall _
  | bitmaskToBitmask f t =>
      simp only [step, sets_update, MaskSets.step, update_set_inj, CopiesClean]
      exact bits_copyBitmaskToBitmask_iff _ _
  | bitmaskToNodemask b k =>
      simp only [step, sets, MaskSets.step, CopiesClean, iff_true, MaskSets.mk.injEq, true_and]
      funext c
      simp only [Function.update_apply]
      split
      · exact bits_copyBitmaskToNodemask _
      · rfl
  | nodemaskToBitmask k b =>
      simp only [step, sets_update, MaskSets.step, update_set_inj, CopiesClean, iff_true]
      exact bits_copyNodemaskToBitmask _ _

/-- The observers report what the set model reports after every prefix of a run exactly when no copy of
the run shows a stray bit of its source. -/
theorem reports_iff_copies_clean (size : ι → Nat) (m : Masks arch ι κ)
    (halloc : ∀ b, numaBitmaskAlloc (size b) = some (m.bitmask b)) (ops : List (MaskOp ι κ)) :
    (∀ pre, pre <+: ops → Reports (Runs.after step m pre)
      (Runs.after (MaskSets.step size (numaNumNodes arch)) m.sets pre)) ↔
      Runs.Along step m ops CopiesClean := by
  have hsize : ∀ b, (m.bitmask b).size = size b := by
    intro b
    have h := halloc b
    unfold numaBitmaskAlloc at h
    split at h
    · cases h
    · rw [← Option.some.inj h, size_zeroBitmask]
  have hstep : ∀ (t : Masks arch ι κ) (s : MaskSets ι κ) (op : MaskOp ι κ),
      ((∀ b, (t.bitmask b).size = size b) ∧ t.sets = s) →
      (((∀ b, ((t.step op).bitmask b).size = size b) ∧
        (t.step op).sets = s.step size (numaNumNodes arch) op) ↔ t.CopiesClean op) := by
    intro t s op hts
    obtain ⟨hts, rfl⟩ := hts
    rw [← sets_step_iff, show (fun b => (t.bitmask b).size) = size from funext hts]
    exact ⟨fun h => h.2, fun h => ⟨fun b => (size_step t op b).trans (hts b), h⟩⟩
  refine Iff.trans ?_ (Runs.simulation_iff
    (R := fun t s => (∀ b, (t.bitmask b).size = size b) ∧ t.sets = s) hstep ⟨hsize, rfl⟩ ops)
  refine forall₂_congr fun pre _ => ?_
  rw [reports_iff]
  exact ⟨fun h => ⟨fun b => (size_after m pre b).trans (hsize b), h⟩, fun h => h.2⟩

/-- Masks of the given sizes as `numa_bitmask_alloc` returns them, and no nodemasks. -/
def allocated {n : Nat} (size : Fin n → Nat) : Masks .x86 (Fin n) (Fin 0) where
  bitmask b := zeroBitmask (size b)
  nodemask := Fin.elim0

theorem reports_iff_copies_clean_two :
    (∀ pre, pre <+: [.setbit 0 69, .bitmaskToBitmask 0 1] →
      Reports (Runs.after step (allocated ![70, 128]) pre)
        (Runs.after (MaskSets.step ![70, 128] 128) (allocated ![70, 128]).sets pre)) ↔
      Runs.Along step (allocated ![70, 128]) [.setbit 0 69, .bitmaskToBitmask 0 1] CopiesClean :=
  reports_iff_copies_clean ![70, 128] _ (by decide) _

/-- Bit 100 of a mask of 128 bits is copied into the last word of a mask of 70 bits, where it is not
seen, and from there into another mask of 128 bits, where it is. -/
theorem stray_bit_copied :
    ¬∀ pre, pre <+: [.setbit 0 100, .bitmaskToBitmask 0 1, .bitmaskToBitmask 1 2] →
      Reports (Runs.after step (allocated ![128, 70, 128]) pre)
        (Runs.after (MaskSets.step ![128, 70, 128] 128) (allocated ![128, 70, 128]).sets pre) := by
  intro h
  have hbit := (h _ (List.prefix_refl _)).isbitset 2 100
  revert hbit
  decide

/-! ### Runs without shrinking copies

Where every copy goes to a mask at least as large as its source, or to one whose size is a whole number
of words, no stray bit ever arises. -/

theorem stray_setbit (bmp : Bitmask) (n : Nat) (v : Bool) (p : Nat) :
    (setbit bmp n v).Stray p ↔ bmp.Stray p := by
  rw [Bitmask.Stray, Bitmask.Stray, size_setbit, bit_setbit]
  by_cases hp : bmp.size ≤ p
  · rw [if_neg (by omega)]
  · simp [hp]

theorem stray_foldl_setbit (bmp : Bitmask) (v : Bool) (ns : List Nat) (p : Nat) :
    (ns.foldl (fun b k => setbit b k v) bmp).Stray p ↔ bmp.Stray p := by
  induction ns generalizing bmp with
  | nil => rfl
  | cons k ns ih => rw [List.foldl_cons, ih, stray_setbit]

theorem not_stray_zeroBitmask (n p : Nat) : ¬(zeroBitmask n).Stray p := by
  rintro ⟨-, -, hbit⟩
  simp [zeroBitmask] at hbit

theorem not_stray_of_dvd {bmp : Bitmask} (h : 64 ∣ bmp.size) (p : Nat) : ¬bmp.Stray p := by
  rintro ⟨hsize, hword, -⟩
  simp only [longsperbits, bitsperlong] at hword
  omega

theorem not_stray_copy {bmpfrom bmpto : Bitmask} (hfrom : ∀ p, ¬bmpfrom.Stray p)
    (h : bmpfrom.size ≤ bmpto.size ∨ 64 ∣ bmpto.size) (p : Nat) :
    ¬(copyBitmaskToBitmask bmpfrom bmpto).Stray p := by
  rcases h with hle | hdvd
  · rintro ⟨hsize, hword, hbit⟩
    rw [size_copyBitmaskToBitmask] at hsize hword
    rw [bit_copyBitmaskToBitmask, if_pos hword, Bool.and_eq_true, decide_eq_true_eq] at hbit
    exact hfrom p ⟨hle.trans hsize, hbit.1, hbit.2⟩
  · exact not_stray_of_dvd (by rwa [size_copyBitmaskToBitmask]) p

/-- A copy of the step goes to a mask of a size it fills. -/
def CopiesAligned (m : Masks arch ι κ) : MaskOp ι κ → Prop
  | .bitmaskToBitmask f t =>
      (m.bitmask f).size ≤ (m.bitmask t).size ∨ 64 ∣ (m.bitmask t).size
  | _ => True

theorem not_stray_step {m : Masks arch ι κ} (hclean : ∀ b p, ¬(m.bitmask b).Stray p) {op : MaskOp ι κ}
    (hop : m.CopiesAligned op) (b : ι) (p : Nat) : ¬((m.step op).bitmask b).Stray p := by
  cases op with
  | setbit c n =>
      simp only [step, Function.update_apply]
      split
      · rw [numaBitmaskSetbit, stray_setbit]
        exact hclean c p
      · exact hclean b p
  | clearbit c n =>
      simp only [step, Function.update_apply]
      split
      · rw [numaBitmaskClearbit, stray_setbit]
        exact hclean c p
      · exact hclean b p
  | setall c =>
      simp only [step, Function.update_apply]
      split
      · rw [numaBitmaskSetall, stray_foldl_setbit]
        exact hclean c p
      · exact hclean b p
  | clearall c =>
      simp only [step, Function.update_apply]
      split
      · rw [numaBitmaskClearall, stray_foldl_setbit]
        exact hclean c p
      · exact hclean b p
  | bitmaskToBitmask f t =>
      simp only [step, Function.update_apply]
      split
      · exact not_stray_copy (hclean f) hop p
      · exact hclean b p
  | bitmaskToNodemask c k => exact hclean b p
  | nodemaskToBitmask k c =>
      simp only [step, Function.update_apply]
      split
      · rw [copyNodemaskToBitmask_eq_foldl, stray_foldl_setbit, numaBitmaskClearall, stray_foldl_setbit]
        exact hclean c p
      · exact hclean b p

/-- Freshly allocated masks under aligned copies behave as sets throughout. -/
theorem copies_clean_of_aligned {m : Masks arch ι κ} (hclean : ∀ b p, ¬(m.bitmask b).Stray p)
    {ops : List (MaskOp ι κ)} (hops : ∀ op ∈ ops, m.CopiesAligned op) :
    Runs.Along step m ops CopiesClean := by
  have haligned : Runs.Along step m ops CopiesAligned := by
    rintro pre op post rfl
    have hop := hops op (by simp)
    cases op <;> simp_all only [CopiesAligned, size_after]
  rintro pre op post rfl
  have hpre := Runs.guarded_rule (I := fun t : Masks arch ι κ => ∀ b p, ¬(t.bitmask b).Stray p)
    hclean (fun t op hinv hop => not_stray_step hinv hop)
    (haligned.of_prefix (List.prefix_append pre (op :: post)))
  cases op with
  | bitmaskToBitmask f t => exact fun p _ => hpre f p
  | _ => exact trivial

end Masks
end Numactl
