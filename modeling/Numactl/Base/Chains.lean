import Mathlib.Data.Finset.Card
import Mathlib.Data.List.Nodup

/-! Chains of links. A link leads from an element to the next, or there is none. Where no two links lead to the
same element and none leads back to the start, the chain from the start ends, and visits no element twice. With a
single end it visits all elements unless some of them are linked in rings, which the chain does not get into. -/

namespace Chains

variable {α : Type*}

/-- The elements visited from `a` on; `none` where the walk has not come to an end. -/
def follow (next : α → Option α) : Nat → α → Option (List α)
  | 0, _ => none
  | fuel + 1, a =>
      match next a with
      | none => some [a]
      | some b => (follow next fuel b).map (a :: ·)

/-- The elements from `a` to the one without a link. -/
inductive Chain (next : α → Option α) : α → List α → Prop
  | last {a : α} : next a = none → Chain next a [a]
  | step {a b : α} {l : List α} : next a = some b → Chain next b l → Chain next a (a :: l)

/-- The elements are linked among themselves. No two links meet, and none leads to the start. -/
structure Linked (next : α → Option α) (s : Finset α) (start : α) : Prop where
  start_mem : start ∈ s
  closed : ∀ a ∈ s, ∀ b, next a = some b → b ∈ s ∧ b ≠ start
  injective : ∀ a ∈ s, ∀ b ∈ s, ∀ c, next a = some c → next b = some c → a = b

/-- Elements that link to each other only, without an end. -/
def Ring (next : α → Option α) (c : Finset α) : Prop := c.Nonempty ∧ ∀ a ∈ c, ∃ b ∈ c, next a = some b

variable {next : α → Option α} {s : Finset α} {start : α}

theorem follow_eq_some_iff {fuel : Nat} {a : α} {l : List α} :
    follow next fuel a = some l ↔ Chain next a l ∧ l.length ≤ fuel := by
  induction fuel generalizing a l with
  | zero =>
      refine iff_of_false (Option.some_ne_none l).symm fun ⟨h, hlen⟩ => ?_
      cases h
      · exact absurd hlen (Nat.not_succ_le_zero _)
      · exact absurd hlen (Nat.not_succ_le_zero _)
  | succ fuel ih =>
      rw [follow]
      cases hnext : next a with
      | none =>
          dsimp only
          rw [Option.some_inj]
          constructor
          · rintro rfl
            exact ⟨.last hnext, Nat.succ_le_succ (Nat.zero_le fuel)⟩
          · rintro ⟨h, -⟩
            cases h with
            | last _ => rfl
            | step hsome _ =>
                rw [hnext] at hsome
                cases hsome
      | some b =>
          dsimp only
          rw [Option.map_eq_some_iff]
          constructor
          · rintro ⟨rest, hrest, rfl⟩
            obtain ⟨hchain, hlen⟩ := ih.mp hrest
            exact ⟨.step hnext hchain, Nat.succ_le_succ hlen⟩
          · rintro ⟨h, hlen⟩
            cases h with
            | last hnone =>
                rw [hnext] at hnone
                cases hnone
            | step hsome hchain =>
                obtain rfl := Option.some.inj (hnext.symm.trans hsome)
                exact ⟨_, ih.mpr ⟨hchain, Nat.le_of_succ_le_succ hlen⟩, rfl⟩

namespace Chain

variable {a : α} {l : List α}

theorem head_mem (h : Chain next a l) : a ∈ l := by
  cases h with
  | last _ => exact List.mem_singleton_self a
  | step _ _ => exact List.mem_cons_self

theorem exists_last (h : Chain next a l) : ∃ e ∈ l, next e = none := by
  induction h with
  | last hnone => exact ⟨_, List.mem_singleton_self _, hnone⟩
  | step _ _ ih =>
      obtain ⟨e, he, hnone⟩ := ih
      exact ⟨e, List.mem_cons_of_mem _ he, hnone⟩

/-- Every element but the first is linked from one visited before it. -/
theorem eq_or_linked (h : Chain next a l) {b : α} (hb : b ∈ l) : b = a ∨ ∃ c ∈ l, next c = some b := by
  induction h with
  | last _ => exact Or.inl (List.mem_singleton.mp hb)
  | @step a b' l hnext _ ih =>
      obtain rfl | hb := List.mem_cons.mp hb
      · exact Or.inl rfl
      · right
        obtain rfl | ⟨c, hc, hlink⟩ := ih hb
        · exact ⟨a, List.mem_cons_self, hnext⟩
        · exact ⟨c, List.mem_cons_of_mem a hc, hlink⟩

/-- A chain that comes to an end does not get into a ring. -/
theorem notMem_ring (h : Chain next a l) {c : Finset α} (hring : ∀ x ∈ c, ∃ y ∈ c, next x = some y) :
    ∀ x ∈ l, x ∉ c := by
  induction h with
  | last hnone =>
      intro x hx hc
      rw [List.mem_singleton.mp hx] at hc
      obtain ⟨y, -, hlink⟩ := hring _ hc
      rw [hnone] at hlink
      cases hlink
  | step hnext hchain ih =>
      intro x hx hc
      obtain rfl | hx := List.mem_cons.mp hx
      · obtain ⟨y, hy, hlink⟩ := hring x hc
        obtain rfl := Option.some.inj (hnext.symm.trans hlink)
        exact ih _ hchain.head_mem hy
      · exact ih x hx hc

end Chain

namespace Linked

variable [DecidableEq α]

/-- Without the start, the chain goes on from the element it links to. -/
theorem erase (h : Linked next s start) {b : α} (hnext : next start = some b) : Linked next (s.erase start) b where
  start_mem := by
    obtain ⟨hmem, hne⟩ := h.closed start h.start_mem b hnext
    exact Finset.mem_erase.mpr ⟨hne, hmem⟩
  closed a ha c hlink := by
    obtain ⟨hne, ha⟩ := Finset.mem_erase.mp ha
    obtain ⟨hmem, hstart⟩ := h.closed a ha c hlink
    refine ⟨Finset.mem_erase.mpr ⟨hstart, hmem⟩, ?_⟩
    rintro rfl
    exact hne (h.injective a ha start h.start_mem c hlink hnext)
  injective a ha b hb := h.injective a (Finset.mem_of_mem_erase ha) b (Finset.mem_of_mem_erase hb)

/-- The chain from the start ends, and visits no element twice. -/
theorem exists_chain (h : Linked next s start) : ∃ l, Chain next start l ∧ l.Nodup ∧ ∀ a ∈ l, a ∈ s := by
  induction hcard : s.card generalizing s start with
  | zero => exact absurd h.start_mem (Finset.card_eq_zero.mp hcard ▸ Finset.notMem_empty start)
  | succ n ih =>
      cases hnext : next start with
      | none =>
          refine ⟨[start], .last hnext, List.nodup_singleton start, fun a ha => ?_⟩
          rw [List.mem_singleton.mp ha]
          exact h.start_mem
      | some b =>
          have hrest : (s.erase start).card = n := by
            rw [Finset.card_erase_of_mem h.start_mem, hcard, Nat.add_sub_cancel]
          obtain ⟨l, hchain, hnodup, hmem⟩ := ih (h.erase hnext) hrest
          refine ⟨start :: l, .step hnext hchain, List.nodup_cons.mpr ⟨fun hl => ?_, hnodup⟩, fun a ha => ?_⟩
          · exact Finset.notMem_erase start s (hmem start hl)
          · obtain rfl | ha := List.mem_cons.mp ha
            · exact h.start_mem
            · exact Finset.mem_of_mem_erase (hmem a ha)

/-- With a single end, the chain visits all elements unless there is a ring. -/
theorem forall_mem_chain_iff (h : Linked next s start)
    (hend : ∀ a ∈ s, ∀ b ∈ s, next a = none → next b = none → a = b) {l : List α} (hchain : Chain next start l)
    (hmem : ∀ a ∈ l, a ∈ s) : (∀ a ∈ s, a ∈ l) ↔ ¬∃ c ⊆ s, Ring next c := by
  constructor
  · rintro hall ⟨c, hsub, ⟨a, ha⟩, hring⟩
    exact hchain.notMem_ring hring a (hall a (hsub ha)) ha
  · intro hnone a ha
    by_contra hout
    refine hnone ⟨s.filter (· ∉ l), Finset.filter_subset _ s, ⟨a, Finset.mem_filter.mpr ⟨ha, hout⟩⟩, fun x hx => ?_⟩
    obtain ⟨hx, hxout⟩ := Finset.mem_filter.mp hx
    cases hnext : next x with
    | none =>
        obtain ⟨e, he, hlast⟩ := hchain.exists_last
        exact absurd (hend x hx e (hmem e he) hnext hlast ▸ he) hxout
    | some y =>
        obtain ⟨hy, hne⟩ := h.closed x hx y hnext
        refine ⟨y, Finset.mem_filter.mpr ⟨hy, fun hyl => ?_⟩, rfl⟩
        obtain rfl | ⟨z, hz, hlink⟩ := hchain.eq_or_linked hyl
        · exact hne rfl
        · exact hxout (h.injective z (hmem z hz) x hx y hlink hnext ▸ hz)

end Linked

end Chains
