import Mathlib.Data.Finset.Card
import Mathlib.Data.Finset.Range
import Mathlib.Data.Nat.Find
import Mathlib.Logic.Function.Iterate
import Mathlib.Order.Basic

/-! Hash tables with open addressing. A key is put into the first free slot from its hash on, going round, and is
looked for in the same slots up to a free one. As long as a slot is free, every search ends, and a key is found
exactly if it has been put in. -/

namespace ProbeTable

variable {K V : Type*}

/-- The slot behind a slot. -/
def next (n ix : Nat) : Nat := if n ≤ ix + 1 then 0 else ix + 1

/-- The slot that is tried after `d` others. -/
def probe (n ix d : Nat) : Nat := (next n)^[d] ix

/-- `none` where the search does not end, `some none` where the key is not found. -/
def lookup [DecidableEq K] (n : Nat) (slots : Nat → Option (K × V)) (k : K) : Nat → Nat → Option (Option V)
  | 0, _ => none
  | fuel + 1, ix =>
      match slots ix with
      | none => some none
      | some e => if k = e.1 then some (some e.2) else lookup n slots k fuel (next n ix)

/-- The first free slot; `none` where the search does not end. -/
def freeSlot (n : Nat) (slots : Nat → Option (K × V)) : Nat → Nat → Option Nat
  | 0, _ => none
  | fuel + 1, ix =>
      match slots ix with
      | none => some ix
      | some _ => freeSlot n slots fuel (next n ix)

/-- The key with its value, put into the first free slot from `ix` on. -/
def insert (n : Nat) (slots : Nat → Option (K × V)) (k : K) (v : V) (ix : Nat) : Option (Nat → Option (K × V)) :=
  (freeSlot n slots n ix).map fun free => Function.update slots free (some (k, v))

/-- The entries, put into the table one after another. -/
def insertAll (n : Nat) (hash : K → Nat) (es : List (K × V)) (slots : Nat → Option (K × V)) :
    Option (Nat → Option (K × V)) :=
  es.foldlM (fun slots e => insert n slots e.1 e.2 (hash e.1)) slots

/-- The table holds the entries, each behind slots that are taken from the hash of its key on. -/
structure Holds (n : Nat) (hash : K → Nat) (slots : Nat → Option (K × V)) (es : List (K × V)) : Prop where
  mem : ∀ e, e ∈ es ↔ ∃ ix < n, slots ix = some e
  unique : ∀ ix < n, ∀ ix' < n, ∀ e e', slots ix = some e → slots ix' = some e' → e.1 = e'.1 → ix = ix'
  probes : ∀ ix < n, ∀ e, slots ix = some e →
    ∃ d < n, probe n (hash e.1) d = ix ∧ ∀ j < d, slots (probe n (hash e.1) j) ≠ none
  count : ((Finset.range n).filter fun ix => slots ix ≠ none).card = es.length

variable {n : Nat} {hash : K → Nat} {slots : Nat → Option (K × V)} {es : List (K × V)}

theorem probe_succ (n ix d : Nat) : probe n ix (d + 1) = probe n (next n ix) d := Function.iterate_succ_apply _ _ _

theorem probe_eq {ix : Nat} (hix : ix < n) (d : Nat) : probe n ix d = (ix + d) % n := by
  induction d generalizing ix with
  | zero => exact (Nat.mod_eq_of_lt hix).symm
  | succ d ih =>
      rw [probe_succ, next]
      split
      · next hend =>
        obtain rfl : n = ix + 1 := by omega
        have hround : ix + (d + 1) = d + (ix + 1) := by omega
        rw [ih (Nat.succ_pos ix), hround, Nat.zero_add, Nat.add_mod_right]
      · have hround : ix + (d + 1) = ix + 1 + d := by omega
        rw [ih (by omega), hround]

theorem probe_lt {ix : Nat} (hix : ix < n) (d : Nat) : probe n ix d < n := by
  rw [probe_eq hix]
  exact Nat.mod_lt _ (Nat.zero_lt_of_lt hix)

/-- Every slot is tried sooner or later. -/
theorem exists_probe_eq {ix target : Nat} (hix : ix < n) (htarget : target < n) : ∃ d < n, probe n ix d = target := by
  obtain hlt | hle := Nat.lt_or_ge target ix
  · refine ⟨target + n - ix, by omega, ?_⟩
    have hround : ix + (target + n - ix) = target + n := by omega
    rw [probe_eq hix, hround, Nat.add_mod_right, Nat.mod_eq_of_lt htarget]
  · refine ⟨target - ix, by omega, ?_⟩
    rw [probe_eq hix, Nat.add_sub_cancel' hle, Nat.mod_eq_of_lt htarget]

/-- The first slot tried that has a property. -/
theorem exists_first_probe {p : Nat → Prop} {ix d : Nat} (hd : p (probe n ix d)) :
    ∃ m ≤ d, p (probe n ix m) ∧ ∀ j < m, ¬p (probe n ix j) := by
  classical
  have hex : ∃ m, p (probe n ix m) := ⟨d, hd⟩
  exact ⟨Nat.find hex, Nat.find_min' hex hd, Nat.find_spec hex, fun j hj => Nat.find_min hex hj⟩

/-- The search for a free slot gets to the first one. -/
theorem freeSlot_eq {fuel ix d : Nat} (hfuel : d < fuel) (hfree : slots (probe n ix d) = none)
    (htaken : ∀ j < d, slots (probe n ix j) ≠ none) : freeSlot n slots fuel ix = some (probe n ix d) := by
  induction d generalizing fuel ix with
  | zero =>
      obtain ⟨fuel, rfl⟩ := Nat.exists_eq_succ_of_ne_zero (Nat.ne_of_gt hfuel)
      change slots ix = none at hfree
      rw [freeSlot, hfree]
      rfl
  | succ d ih =>
      obtain ⟨fuel, rfl⟩ := Nat.exists_eq_succ_of_ne_zero (Nat.ne_of_gt (Nat.zero_lt_of_lt hfuel))
      obtain ⟨e, he⟩ := Option.ne_none_iff_exists'.mp (htaken 0 (Nat.succ_pos d))
      change slots ix = some e at he
      rw [probe_succ] at hfree
      rw [freeSlot, he, probe_succ]
      refine ih (Nat.lt_of_succ_lt_succ hfuel) hfree fun j hj => ?_
      rw [← probe_succ]
      exact htaken (j + 1) (Nat.succ_lt_succ hj)

section Update

variable {free ix : Nat} {e e' : K × V}

/-- A free slot is given an entry, and the others keep theirs. -/
theorem update_eq_some_iff (hfree : slots free = none) :
    Function.update slots free (some e) ix = some e' ↔ ix = free ∧ e = e' ∨ slots ix = some e' := by
  obtain rfl | hne := eq_or_ne ix free
  · rw [Function.update_self, hfree, Option.some_inj, and_iff_right rfl]
    exact (or_iff_left (Option.some_ne_none e').symm).symm
  · rw [Function.update_of_ne hne]
    exact (or_iff_right fun h => hne h.1).symm

theorem update_ne_none (hfree : slots free = none) (htaken : slots ix ≠ none) :
    Function.update slots free (some e) ix ≠ none := by
  obtain ⟨e', he'⟩ := Option.ne_none_iff_exists'.mp htaken
  rw [(update_eq_some_iff hfree).mpr (Or.inr he')]
  exact Option.some_ne_none e'

/-- One more slot is taken. -/
theorem card_update (hlt : free < n) (hfree : slots free = none) :
    ((Finset.range n).filter fun ix => Function.update slots free (some e) ix ≠ none).card =
      ((Finset.range n).filter fun ix => slots ix ≠ none).card + 1 := by
  have hset : (Finset.range n).filter (fun ix => Function.update slots free (some e) ix ≠ none) =
      Insert.insert free ((Finset.range n).filter fun ix => slots ix ≠ none) := by
    apply Finset.ext
    intro ix
    rw [Finset.mem_filter, Finset.mem_insert, Finset.mem_filter, Finset.mem_range]
    obtain rfl | hne := eq_or_ne ix free
    · rw [Function.update_self]
      exact iff_of_true ⟨hlt, Option.some_ne_none e⟩ (Or.inl rfl)
    · rw [Function.update_of_ne hne]
      exact ⟨Or.inr, fun hor => hor.resolve_left hne⟩
  rw [hset]
  apply Finset.card_insert_of_notMem
  exact fun hmem => (Finset.mem_filter.mp hmem).2 hfree

end Update

section Lookup

variable [DecidableEq K] {k : K}

/-- A search passes over the slots of other keys. -/
theorem lookup_probe {fuel ix d : Nat} (hfuel : d < fuel)
    (hother : ∀ j < d, ∃ e, slots (probe n ix j) = some e ∧ k ≠ e.1) :
    lookup n slots k fuel ix = lookup n slots k (fuel - d) (probe n ix d) := by
  induction d generalizing fuel ix with
  | zero => rfl
  | succ d ih =>
      obtain ⟨fuel, rfl⟩ := Nat.exists_eq_succ_of_ne_zero (Nat.ne_of_gt (Nat.zero_lt_of_lt hfuel))
      obtain ⟨e, he, hne⟩ := hother 0 (Nat.succ_pos d)
      change slots ix = some e at he
      have hrest : ∀ j < d, ∃ e, slots (probe n (next n ix) j) = some e ∧ k ≠ e.1 := fun j hj => by
        rw [← probe_succ]
        exact hother (j + 1) (Nat.succ_lt_succ hj)
      rw [lookup, he]
      dsimp only
      rw [if_neg hne, ih (Nat.lt_of_succ_lt_succ hfuel) hrest, probe_succ, Nat.succ_sub_succ]

end Lookup

namespace Holds

theorem empty (n : Nat) (hash : K → Nat) : Holds n hash (fun _ => (none : Option (K × V))) [] where
  mem e := iff_of_false List.not_mem_nil fun ⟨_, _, h⟩ => (Option.some_ne_none e h.symm).elim
  unique _ _ _ _ e _ h := (Option.some_ne_none e h.symm).elim
  probes _ _ e h := (Option.some_ne_none e h.symm).elim
  count := by simp

/-- Where fewer keys than slots are in the table, a slot is free. -/
theorem exists_free (h : Holds n hash slots es) (hlen : es.length < n) : ∃ ix < n, slots ix = none := by
  by_contra hnone
  have hall : (Finset.range n).filter (fun ix => slots ix ≠ none) = Finset.range n :=
    Finset.filter_true_of_mem fun ix hix hfree => hnone ⟨ix, Finset.mem_range.mp hix, hfree⟩
  have hcount := h.count
  rw [hall, Finset.card_range] at hcount
  omega

/-- The first free slot from a slot on, and the taken slots before it. -/
theorem exists_first_free (h : Holds n hash slots es) (hlen : es.length < n) {ix : Nat} (hix : ix < n) :
    ∃ d < n, slots (probe n ix d) = none ∧ ∀ j < d, slots (probe n ix j) ≠ none := by
  obtain ⟨free, hfree, hnone⟩ := h.exists_free hlen
  obtain ⟨d, hd, rfl⟩ := exists_probe_eq hix hfree
  obtain ⟨m, hm, hm', htaken⟩ := exists_first_probe (p := fun ix => slots ix = none) hnone
  exact ⟨m, Nat.lt_of_le_of_lt hm hd, hm', htaken⟩

variable [DecidableEq K]

/-- A key in the table is found with its value. -/
theorem lookup_of_mem (h : Holds n hash slots es) {k : K} (hhash : hash k < n) {v : V} (hmem : (k, v) ∈ es) :
    lookup n slots k n (hash k) = some (some v) := by
  obtain ⟨ix, hix, hslot⟩ := (h.mem (k, v)).mp hmem
  obtain ⟨d, hd, hprobe, htaken⟩ := h.probes ix hix (k, v) hslot
  obtain ⟨m, hm, hfirst, hbefore⟩ := exists_first_probe (p := fun i => i = ix) hprobe
  have hother : ∀ j < m, ∃ e, slots (probe n (hash k) j) = some e ∧ k ≠ e.1 := by
    intro j hj
    obtain ⟨e, he⟩ := Option.ne_none_iff_exists'.mp (htaken j (Nat.lt_of_lt_of_le hj hm))
    exact ⟨e, he, fun hk => hbefore j hj (h.unique _ (probe_lt hhash j) ix hix _ _ he hslot hk.symm)⟩
  obtain ⟨fuel, hfuel⟩ : ∃ fuel, n - m = fuel + 1 := ⟨n - m - 1, by omega⟩
  rw [lookup_probe (Nat.lt_of_le_of_lt hm hd) hother, hfuel, lookup, hfirst, hslot]
  exact if_pos rfl

/-- The search for another key ends at a free slot. -/
theorem lookup_of_notMem (h : Holds n hash slots es) (hlen : es.length < n) {k : K} (hhash : hash k < n)
    (hk : k ∉ es.map Prod.fst) : lookup n slots k n (hash k) = some none := by
  obtain ⟨d, hd, hfree, htaken⟩ := h.exists_first_free hlen hhash
  have hother : ∀ j < d, ∃ e, slots (probe n (hash k) j) = some e ∧ k ≠ e.1 := by
    intro j hj
    obtain ⟨e, he⟩ := Option.ne_none_iff_exists'.mp (htaken j hj)
    exact ⟨e, he, fun heq => hk (List.mem_map.mpr ⟨e, (h.mem e).mpr ⟨_, probe_lt hhash j, he⟩, heq.symm⟩)⟩
  obtain ⟨fuel, hfuel⟩ : ∃ fuel, n - d = fuel + 1 := ⟨n - d - 1, by omega⟩
  rw [lookup_probe hd hother, hfuel, lookup, hfree]

omit [DecidableEq K] in
/-- A new key finds a free slot, and the table holds it with the others. -/
theorem insert (h : Holds n hash slots es) (hlen : es.length < n) {k : K} (hhash : hash k < n)
    (hk : k ∉ es.map Prod.fst) (v : V) :
    ∃ slots', ProbeTable.insert n slots k v (hash k) = some slots' ∧ Holds n hash slots' (es ++ [(k, v)]) := by
  obtain ⟨d, hd, hfree, htaken⟩ := h.exists_first_free hlen hhash
  have hlt := probe_lt hhash d
  have hfound := freeSlot_eq hd hfree htaken
  generalize hfreeIx : probe n (hash k) d = free at hlt hfound hfree
  have hnew : ∀ ix < n, ∀ e, slots ix = some e → k ≠ e.1 := fun ix hix e he hkey =>
    hk (List.mem_map.mpr ⟨e, (h.mem e).mpr ⟨ix, hix, he⟩, hkey.symm⟩)
  refine ⟨Function.update slots free (some (k, v)), by rw [ProbeTable.insert, hfound]; rfl, ?_, ?_, ?_, ?_⟩
  · intro e
    rw [List.mem_append, List.mem_singleton, h.mem]
    constructor
    · rintro (⟨ix, hix, he⟩ | rfl)
      · exact ⟨ix, hix, (update_eq_some_iff hfree).mpr (Or.inr he)⟩
      · exact ⟨free, hlt, Function.update_self ..⟩
    · rintro ⟨ix, hix, he⟩
      obtain ⟨-, rfl⟩ | he := (update_eq_some_iff hfree).mp he
      · exact Or.inr rfl
      · exact Or.inl ⟨ix, hix, he⟩
  · intro ix hix ix' hix' e e' he he' heq
    obtain ⟨hfirst, rfl⟩ | he := (update_eq_some_iff hfree).mp he
    · obtain ⟨hsecond, -⟩ | he' := (update_eq_some_iff hfree).mp he'
      · exact hfirst.trans hsecond.symm
      · exact absurd heq (hnew ix' hix' e' he')
    · obtain ⟨-, rfl⟩ | he' := (update_eq_some_iff hfree).mp he'
      · exact absurd heq.symm (hnew ix hix e he)
      · exact h.unique ix hix ix' hix' e e' he he' heq
  · intro ix hix e he
    obtain ⟨rfl, rfl⟩ | he := (update_eq_some_iff hfree).mp he
    · exact ⟨d, hd, hfreeIx, fun j hj => update_ne_none hfree (htaken j hj)⟩
    · obtain ⟨d', hd', hprobe, hbefore⟩ := h.probes ix hix e he
      exact ⟨d', hd', hprobe, fun j hj => update_ne_none hfree (hbefore j hj)⟩
  · rw [card_update hlt hfree, h.count, List.length_append, List.length_singleton]

omit [DecidableEq K] in
/-- As many new keys as there are free slots can be put in one after another. -/
theorem insertAll {es' : List (K × V)} (h : Holds n hash slots es) (hhash : ∀ k, hash k < n)
    (hlen : (es ++ es').length ≤ n) (hnodup : ((es ++ es').map Prod.fst).Nodup) :
    ∃ slots', ProbeTable.insertAll n hash es' slots = some slots' ∧ Holds n hash slots' (es ++ es') := by
  induction es' generalizing slots es with
  | nil => exact ⟨slots, rfl, by rwa [List.append_nil]⟩
  | cons e es' ih =>
      have hroom : es.length < n := by
        rw [List.length_append, List.length_cons] at hlen
        omega
      have hnew : e.1 ∉ es.map Prod.fst := by
        rw [List.map_append, List.map_cons, List.nodup_middle, List.nodup_cons, List.mem_append, not_or] at hnodup
        exact hnodup.1.1
      rw [List.append_cons] at hlen hnodup ⊢
      obtain ⟨slots', hinsert, h'⟩ := h.insert hroom (hhash e.1) hnew e.2
      obtain ⟨slots'', hrest, hall⟩ := ih h' hlen hnodup
      refine ⟨slots'', ?_, hall⟩
      rw [ProbeTable.insertAll, List.foldlM_cons, hinsert]
      exact hrest

omit [DecidableEq K] in
/-- In a full table every slot is taken. -/
theorem ne_none_of_full (h : Holds n hash slots es) (hlen : es.length = n) {ix : Nat} (hix : ix < n) :
    slots ix ≠ none := by
  have hall : ((Finset.range n).filter fun ix => slots ix ≠ none).card = (Finset.range n).card := by
    rw [h.count, hlen, Finset.card_range]
  exact Finset.card_filter_eq_iff.mp hall ix (Finset.mem_range.mpr hix)

omit [DecidableEq K] in
/-- In a full table the search for a free slot never ends. -/
theorem freeSlot_of_full (h : Holds n hash slots es) (hlen : es.length = n) (fuel : Nat) {ix : Nat} (hix : ix < n) :
    freeSlot n slots fuel ix = none := by
  induction fuel generalizing ix with
  | zero => rfl
  | succ fuel ih =>
      obtain ⟨e, he⟩ := Option.ne_none_iff_exists'.mp (h.ne_none_of_full hlen hix)
      rw [freeSlot, he]
      apply ih
      exact probe_lt hix 1

/-- In a full table the search for another key never ends. -/
theorem lookup_of_full (h : Holds n hash slots es) (hlen : es.length = n) {k : K} (hk : k ∉ es.map Prod.fst)
    (fuel : Nat) {ix : Nat} (hix : ix < n) : lookup n slots k fuel ix = none := by
  induction fuel generalizing ix with
  | zero => rfl
  | succ fuel ih =>
      obtain ⟨e, he⟩ := Option.ne_none_iff_exists'.mp (h.ne_none_of_full hlen hix)
      have hne : k ≠ e.1 := fun heq => hk (List.mem_map.mpr ⟨e, (h.mem e).mpr ⟨ix, hix, he⟩, heq.symm⟩)
      rw [lookup, he]
      dsimp only
      rw [if_neg hne]
      apply ih
      exact probe_lt hix 1

end Holds

end ProbeTable
