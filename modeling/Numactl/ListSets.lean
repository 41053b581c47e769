import Numactl.NodeString

/-! What the list parsers compute, as sets of numbers. The loop reads the text by the grammar of number
lists and works on a mask as it goes, so it is taken apart into the reading, which knows nothing of masks,
and the evaluation of the items read. The result is one relation, `Named`, between a text and the set of
numbers it names, for any of the parsers. -/

namespace Numactl

open NumberList (Item readNumber readItem readList ReadsList)

/-- The range loop as a loop over the allowed numbers of the range. -/
theorem setRange_eq_foldl (allowed : Bitmask) (arg arg2 : Nat) (mask : Bitmask) :
    setRange allowed arg arg2 mask =
      ((List.range' arg (arg2 + 1 - arg)).filter fun k => numaBitmaskIsbitset allowed k).foldl
        (fun m k => setbit m k true) mask := by
  rw [List.foldl_filter, List.range'_eq_map_range, List.foldl_map]
  rfl

namespace ListArgs

variable (A : ListArgs)

/-- The number `get_nr` makes of a numeral's value. -/
def nr (v : Nat) : Nat := translate A.allowed A.relative v

/-- The mask after an item. -/
def itemMask : Item → Bitmask → Option Bitmask
  | .one v, mask => if A.outOfRange (A.nr v) then none else some (numaBitmaskSetbit mask (A.nr v))
  | .range v w, mask =>
      if A.outOfRange (A.nr v) then none
      else if A.outOfRange (A.nr w) then none
      else some (setRange A.allowed (A.nr v) (A.nr w) (numaBitmaskSetbit mask (A.nr v)))

def itemsMask : List Item → Bitmask → Option Bitmask
  | [], mask => some mask
  | it :: its, mask => (A.itemMask it mask).bind (itemsMask its)

/-- The numbers an item names, in a mask of `n` bits: the first endpoint, and the allowed numbers from it
to the second. -/
def itemSet (n : Nat) : Item → Option (Finset Nat)
  | .one v => if A.outOfRange (A.nr v) then none else some (({A.nr v} : Finset Nat).filter (· < n))
  | .range v w =>
      if A.outOfRange (A.nr v) then none
      else if A.outOfRange (A.nr w) then none
      else some ((insert (A.nr v) (A.allowed.bits.filter fun i => A.nr v ≤ i ∧ i ≤ A.nr w)).filter (· < n))

def itemsSet (n : Nat) : List Item → Option (Finset Nat)
  | [] => some ∅
  | it :: its => (A.itemSet n it).bind fun X => (itemsSet n its).map (X ∪ ·)

/-! ### The reading -/

theorem getNr_eq (s : List Char) (bmp : Bitmask) (relative : Bool) :
    getNr s bmp relative = (readNumber s).map fun r => (translate bmp relative r.1, r.2) := by
  unfold getNr readNumber
  dsimp only
  split <;> rfl

/-- The loop body reads an item and puts its numbers into the mask. -/
theorem parseItem_eq (s : List Char) (mask : Bitmask) :
    parseItem A s mask = (readItem s).bind fun r => (A.itemMask r.1 mask).map fun m => (m, r.2) := by
  rw [parseItem, getNr_eq, readItem]
  cases readNumber s with
  | none => rfl
  | some r =>
      obtain ⟨v, rest⟩ := r
      simp only [Option.map_some, parseDash, getNr_eq]
      by_cases hdash : rest.head? = some '-'
      · cases hsecond : readNumber rest.tail with
        | none => simp [hdash]
        | some r =>
            obtain ⟨w, rest⟩ := r
            by_cases hv : A.outOfRange (A.nr v) = true
            · simp only [nr] at hv
              simp [hdash, itemMask, nr, hv]
            · by_cases hw : A.outOfRange (A.nr w) = true <;> simp only [nr] at hv hw <;>
                simp [hdash, itemMask, nr, hv, hw]
      · by_cases hv : A.outOfRange (A.nr v) = true <;> simp only [nr] at hv <;>
          simp [hdash, itemMask, nr, hv]

/-- The loop is the reading of the list followed by its evaluation. -/
theorem parseItems_eq {isWord : List Char → Bool} (hword : ∀ s mask, (A.word s mask).isSome = isWord s)
    (fuel : Nat) (s : List Char) (mask : Bitmask) :
    parseItems A fuel s mask = (readList isWord fuel s).bind fun r =>
      (A.itemsMask r.1 mask).bind fun m => r.2.elim (some m) fun t => (A.word t m).getD none := by
  induction fuel generalizing s mask with
  | zero => rfl
  | succ fuel ih =>
      rw [parseItems, readList, parseItem_eq]
      have hsome := hword s mask
      cases hw : A.word s mask with
      | some result =>
          rw [hw, Option.isSome_some] at hsome
          simp [← hsome, itemsMask, hw]
      | none =>
          rw [hw, Option.isSome_none] at hsome
          rw [← hsome, if_neg Bool.false_ne_true]
          cases readItem s with
          | none => rfl
          | some r =>
              obtain ⟨it, rest⟩ := r
              rw [Option.bind_some]
              cases rest with
              | nil => cases hm : A.itemMask it mask <;> simp [itemsMask, hm]
              | cons c rest =>
                  dsimp only
                  by_cases hc : c = ','
                  · rw [if_pos hc]
                    cases hm : A.itemMask it mask with
                    | none => cases readList isWord fuel rest <;> simp [itemsMask, hm]
                    | some m =>
                        simp only [Option.map_some, ih, if_pos hc]
                        cases readList isWord fuel rest <;> simp [itemsMask, hm]
                  · cases hm : A.itemMask it mask <;> simp [hc]

/-! ### The evaluation -/

theorem size_itemMask {it : Item} {mask m : Bitmask} (h : A.itemMask it mask = some m) :
    m.size = mask.size := by
  have hrange : ∀ a b, (setRange A.allowed a b (numaBitmaskSetbit mask a)).size = mask.size := by
    intro a b
    rw [setRange_eq_foldl, size_foldl_setbit, size_numaBitmaskSetbit]
  cases it with
  | one v =>
      simp only [itemMask, Option.ite_none_left_eq_some, Option.some.injEq] at h
      rw [← h.2, size_numaBitmaskSetbit]
  | range v w =>
      simp only [itemMask, Option.ite_none_left_eq_some, Option.some.injEq] at h
      rw [← h.2.2, hrange]

theorem bits_setRange (arg arg2 : Nat) (mask : Bitmask) :
    (setRange A.allowed arg arg2 mask).bits =
      mask.bits ∪ (A.allowed.bits.filter fun i => arg ≤ i ∧ i ≤ arg2).filter (· < mask.size) := by
  have hset : ((List.range' arg (arg2 + 1 - arg)).filter fun k => numaBitmaskIsbitset A.allowed k).toFinset =
      A.allowed.bits.filter fun i => arg ≤ i ∧ i ≤ arg2 := by
    apply Finset.ext
    intro i
    rw [List.mem_toFinset, List.mem_filter, List.mem_range'_1, numaBitmaskIsbitset_eq_true,
      Finset.mem_filter]
    exact ⟨fun h => ⟨h.2, h.1.1, by omega⟩, fun h => ⟨⟨h.2.1, by omega⟩, h.1⟩⟩
  rw [setRange_eq_foldl, bits_foldl_setbit, hset]

/-- An item adds its numbers to the mask. -/
theorem bits_itemMask (it : Item) (mask : Bitmask) :
    (A.itemMask it mask).map Bitmask.bits = (A.itemSet mask.size it).map (mask.bits ∪ ·) := by
  cases it with
  | one v =>
      by_cases hv : A.outOfRange (A.nr v) = true
      · simp [itemMask, itemSet, hv]
      · simp only [itemMask, itemSet, hv, if_false, Option.map_some, Bool.false_eq_true]
        rw [bits_numaBitmaskSetbit]
  | range v w =>
      by_cases hv : A.outOfRange (A.nr v) = true
      · simp [itemMask, itemSet, hv]
      · by_cases hw : A.outOfRange (A.nr w) = true
        · simp [itemMask, itemSet, hv, hw]
        · simp only [itemMask, itemSet, hv, hw, if_false, Option.map_some, Bool.false_eq_true]
          rw [bits_setRange, bits_numaBitmaskSetbit, size_numaBitmaskSetbit, Finset.union_assoc,
            ← Finset.filter_union]
          rfl

theorem size_itemsMask {its : List Item} {mask m : Bitmask} (h : A.itemsMask its mask = some m) :
    m.size = mask.size := by
  induction its generalizing mask with
  | nil =>
      rw [itemsMask, Option.some.injEq] at h
      rw [h]
  | cons it its ih =>
      rw [itemsMask, Option.bind_eq_some_iff] at h
      obtain ⟨m', hm', hrest⟩ := h
      rw [ih hrest, A.size_itemMask hm']

theorem bits_itemsMask (its : List Item) (mask : Bitmask) :
    (A.itemsMask its mask).map Bitmask.bits = (A.itemsSet mask.size its).map (mask.bits ∪ ·) := by
  induction its generalizing mask with
  | nil => simp [itemsMask, itemsSet]
  | cons it its ih =>
      have hit := A.bits_itemMask it mask
      rw [itemsMask, itemsSet]
      cases hm : A.itemMask it mask with
      | none =>
          rw [hm, Option.map_none, eq_comm, Option.map_eq_none_iff] at hit
          simp [hit]
      | some m =>
          rw [hm, Option.map_some, eq_comm, Option.map_eq_some_iff] at hit
          obtain ⟨X, hX, hbits⟩ := hit
          rw [hX, Option.bind_some, Option.bind_some, ih, A.size_itemMask hm, ← hbits]
          simp [Finset.union_assoc, Function.comp_def]

end ListArgs

/-- What the words of a list mean: the set of numbers after the word, from the set before it, or a
failure. No word may be read as an item. -/
structure ListMeaning (A : ListArgs) (n : Nat) where
  isWord : List Char → Bool
  wordSet : List Char → Finset Nat → Option (Finset Nat)
  isSome_word : ∀ s mask, (A.word s mask).isSome = isWord s
  size_word : ∀ s mask m, A.word s mask = some (some m) → m.size = mask.size
  bits_word : ∀ s mask, isWord s = true → mask.size = n →
    ((A.word s mask).getD none).map Bitmask.bits = wordSet s mask.bits
  readItem_word : ∀ s, isWord s = true → readItem s = none

variable {A : ListArgs} {n : Nat}

/-- The list `s` names the numbers `X`. -/
def ListMeaning.Named (M : ListMeaning A n) (s : List Char) (X : Finset Nat) : Prop :=
  ∃ its w Y, ReadsList M.isWord s its w ∧ A.itemsSet n its = some Y ∧
    w.elim (some Y) (fun t => M.wordSet t Y) = some X

theorem size_parseItems (M : ListMeaning A n) {fuel : Nat} {s : List Char} {mask m : Bitmask}
    (h : parseItems A fuel s mask = some m) : m.size = mask.size := by
  rw [A.parseItems_eq M.isSome_word, Option.bind_eq_some_iff] at h
  obtain ⟨r, -, h⟩ := h
  rw [Option.bind_eq_some_iff] at h
  obtain ⟨m', hm', h⟩ := h
  have hsize := A.size_itemsMask hm'
  cases hw : r.2 with
  | none =>
      rw [hw, Option.elim_none, Option.some.injEq] at h
      rw [← h, hsize]
  | some t =>
      rw [hw, Option.elim_some] at h
      cases hword : A.word t m' with
      | none => rw [hword] at h; cases h
      | some result =>
          rw [hword, Option.getD_some] at h
          rw [M.size_word t m' m (by rw [hword, h]), hsize]

/-- The evaluation of a list that has been read, as a set. -/
theorem bits_evaluation (M : ListMeaning A n) {s : List Char} {its : List Item} {w : Option (List Char)}
    (hgrammar : ReadsList M.isWord s its w) {mask : Bitmask} (hsize : mask.size = n)
    (hempty : mask.bits = ∅) :
    (((A.itemsMask its mask).bind fun m => w.elim (some m) fun t => (A.word t m).getD none).map
        Bitmask.bits) =
      (A.itemsSet n its).bind fun Y => w.elim (some Y) fun t => M.wordSet t Y := by
  have hbits := A.bits_itemsMask its mask
  rw [hempty, hsize] at hbits
  simp only [Finset.empty_union, Option.map_id'] at hbits
  rw [← hbits]
  cases hm : A.itemsMask its mask with
  | none => rfl
  | some m =>
      simp only [Option.bind_some, Option.map_some]
      cases w with
      | none => rfl
      | some t => exact M.bits_word t m hgrammar.isWord ((A.size_itemsMask hm).trans hsize)

/-- On an empty mask, a list that has been read gives the set of its items, and then of its word. -/
theorem bits_parseItems (M : ListMeaning A n) {s : List Char} {its : List Item} {w : Option (List Char)}
    (hgrammar : ReadsList M.isWord s its w) {mask : Bitmask} (hsize : mask.size = n)
    (hempty : mask.bits = ∅) :
    (parseItems A (s.length + 1) s mask).map Bitmask.bits =
      (A.itemsSet n its).bind fun Y => w.elim (some Y) fun t => M.wordSet t Y := by
  have hread := NumberList.readList_eq_some_iff M.readItem_word (Nat.lt_succ_self s.length)
  rw [A.parseItems_eq M.isSome_word, (hread its w).mpr hgrammar, Option.bind_some,
    bits_evaluation M hgrammar hsize hempty]

/-- On an empty mask the loop computes the set the list names. -/
theorem parseItems_iff (M : ListMeaning A n) (s : List Char) {mask : Bitmask} (hsize : mask.size = n)
    (hempty : mask.bits = ∅) (X : Finset Nat) :
    (parseItems A (s.length + 1) s mask).map Bitmask.bits = some X ↔ M.Named s X := by
  have hread := NumberList.readList_eq_some_iff M.readItem_word (Nat.lt_succ_self s.length)
  refine ⟨fun h => ?_, fun h => ?_⟩
  · rw [A.parseItems_eq M.isSome_word] at h
    cases hlist : readList M.isWord (s.length + 1) s with
    | none => rw [hlist] at h; cases h
    | some r =>
        obtain ⟨its, w⟩ := r
        have hgrammar := (hread its w).mp hlist
        rw [hlist, Option.bind_some, bits_evaluation M hgrammar hsize hempty,
          Option.bind_eq_some_iff] at h
        obtain ⟨Y, hY, hX⟩ := h
        exact ⟨its, w, Y, hgrammar, hY, hX⟩
  · obtain ⟨its, w, Y, hgrammar, hY, hX⟩ := h
    rw [bits_parseItems M hgrammar hsize hempty, hY, Option.bind_some, hX]

/-- A list names at most one set. -/
theorem ListMeaning.Named.unique {M : ListMeaning A n} {s : List Char} {X Y : Finset Nat}
    (hX : M.Named s X) (hY : M.Named s Y) : X = Y := by
  have hzero : (zeroBitmask n).bits = ∅ := bits_zeroBitmask n
  have h := (parseItems_iff M s (size_zeroBitmask n) hzero X).mpr hX
  rw [(parseItems_iff M s (size_zeroBitmask n) hzero Y).mpr hY] at h
  exact (Option.some.inj h).symm

end Numactl
