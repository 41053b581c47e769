import Mathlib.Data.List.Basic

/-! Regions of an address space and what is held of them. A space gives every mapped address a value; mapping a region
adds its addresses with one value, unmapping takes them away, and colouring changes the value of those that are there.
A list of regions holds a space when no two of them overlap and together they are all that is mapped. Where memory is
handed out in pages, a region is rounded up to whole ones. -/

namespace Regions

structure Block where
  start : Nat
  len : Nat
  deriving DecidableEq

/-- The address lies in the region. -/
def Block.Covers (r : Block) (a : Nat) : Prop := r.start ≤ a ∧ a < r.start + r.len

instance (r : Block) (a : Nat) : Decidable (r.Covers a) := inferInstanceAs (Decidable (_ ∧ _))

/-- Whole pages from the start of the region on, as many as it takes. -/
def Block.roundUp (page : Nat) (r : Block) : Block where
  start := r.start
  len := (r.len + page - 1) / page * page

def Apart (r s : Block) : Prop := ∀ a, r.Covers a → ¬s.Covers a

theorem Apart.symm {r s : Block} (h : Apart r s) : Apart s r := fun a hs hr => h a hr hs

variable {α : Type*}

abbrev Space (α : Type*) := Nat → Option α

def mapped (r : Block) (v : α) (s : Space α) : Space α := fun a => if r.Covers a then some v else s a

def unmapped (r : Block) (s : Space α) : Space α := fun a => if r.Covers a then none else s a

def coloured (r : Block) (v : α) (s : Space α) : Space α := fun a => if r.Covers a then (s a).map fun _ => v else s a

/-- Nothing of the region is mapped. -/
def Free (r : Block) (s : Space α) : Prop := ∀ a, r.Covers a → s a = none

/-- The regions are apart, and an address is mapped exactly if one of them covers it. -/
structure Holds (blocks : List Block) (s : Space α) : Prop where
  apart : blocks.Pairwise Apart
  mapped : ∀ a, (s a).isSome = true ↔ ∃ b ∈ blocks, b.Covers a

variable {blocks : List Block} {r : Block} {s : Space α}

theorem holds_nil : Holds [] fun _ => (none : Option α) where
  apart := List.Pairwise.nil
  mapped a := by simp

theorem Holds.free_apart (h : Holds blocks s) (hfree : Free r s) {b : Block} (hb : b ∈ blocks) : Apart r b := by
  intro a hr hcovers
  have hsome := (h.mapped a).mpr ⟨b, hb, hcovers⟩
  rw [hfree a hr] at hsome
  cases hsome

theorem Holds.map (h : Holds blocks s) (hfree : Free r s) (v : α) : Holds (r :: blocks) (Regions.mapped r v s) where
  apart := List.Pairwise.cons (fun _ hb => h.free_apart hfree hb) h.apart
  mapped a := by
    rw [List.exists_mem_cons_iff, ← h.mapped a, Regions.mapped]
    by_cases hcovers : r.Covers a
    · simp [hcovers]
    · simp [hcovers]

theorem Holds.perm {blocks' : List Block} (h : Holds blocks s) (hperm : blocks.Perm blocks') : Holds blocks' s where
  apart := (hperm.pairwise_iff fun h => h.symm).mp h.apart
  mapped a := by simp only [h.mapped a, hperm.mem_iff]

/-- Unmapping one of the regions leaves the others. -/
theorem Holds.unmap (h : Holds (r :: blocks) s) : Holds blocks (unmapped r s) := by
  obtain ⟨hothers, hrest⟩ := List.pairwise_cons.mp h.apart
  refine ⟨hrest, fun a => ?_⟩
  rw [unmapped]
  by_cases hcovers : r.Covers a
  · rw [if_pos hcovers]
    refine iff_of_false (by simp) ?_
    rintro ⟨b, hb, hcovers'⟩
    exact hothers b hb a hcovers hcovers'
  · rw [if_neg hcovers, h.mapped a, List.exists_mem_cons_iff, or_iff_right hcovers]

theorem Holds.colour (h : Holds blocks s) (r : Block) (v : α) : Holds blocks (coloured r v s) where
  apart := h.apart
  mapped a := by
    rw [← h.mapped a, coloured]
    split
    · rw [Option.isSome_map]
    · rfl

/-- The addresses of a region that is held are mapped. -/
theorem Holds.isSome (h : Holds blocks s) (hr : r ∈ blocks) {a : Nat} (ha : r.Covers a) : (s a).isSome = true :=
  (h.mapped a).mpr ⟨r, hr, ha⟩

/-- Colouring what has just been mapped is mapping it in that colour. -/
theorem coloured_mapped (r : Block) (v w : α) (s : Space α) :
    coloured r w (Regions.mapped r v s) = Regions.mapped r w s := by
  funext a
  rw [coloured, Regions.mapped, Regions.mapped]
  by_cases ha : r.Covers a
  · rw [if_pos ha, if_pos ha, if_pos ha]
    rfl
  · rw [if_neg ha, if_neg ha, if_neg ha]

/-- Unmapping what has been mapped where nothing was leaves the space as it was. -/
theorem unmapped_mapped (hfree : Free r s) (v : α) : unmapped r (Regions.mapped r v s) = s := by
  funext a
  rw [unmapped, Regions.mapped]
  by_cases ha : r.Covers a
  · rw [if_pos ha, hfree a ha]
  · rw [if_neg ha, if_neg ha]

/-! ### Regions of one value -/

/-- The region is mapped, with one value. -/
def Filled (r : Block) (v : α) (s : Space α) : Prop := ∀ a, r.Covers a → s a = some v

variable {q : Block} {v : α}

theorem filled_mapped (r : Block) (v : α) (s : Space α) : Filled r v (Regions.mapped r v s) := fun _ ha => if_pos ha

/-- Nothing is mapped over what is there. -/
theorem Filled.mapped (h : Filled r v s) (hfree : Free q s) (w : α) : Filled r v (Regions.mapped q w s) := by
  intro a ha
  have hthis := h a ha
  rw [Regions.mapped, if_neg fun hq => by rw [hfree a hq] at hthis; cases hthis]
  exact hthis

theorem Filled.unmapped (h : Filled r v s) (hapart : Apart r q) : Filled r v (Regions.unmapped q s) := fun a ha =>
  (if_neg (hapart a ha)).trans (h a ha)

theorem Filled.coloured (h : Filled r v s) (hapart : Apart r q) (w : α) : Filled r v (Regions.coloured q w s) :=
  fun a ha => (if_neg (hapart a ha)).trans (h a ha)

end Regions
