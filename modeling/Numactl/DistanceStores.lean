import Numactl.Distance

/-! The numbers `parse_numbers` stores while `read_distance_table` runs (`distance.c`), each with its place
in the table, whether or not the table is that long. The table is left exactly when one of these places is
outside of it; the rest says when each number goes to the row of the node it was read for. -/

namespace Numactl

open CString (strtoul)
open NumberList (readNumber)

/-- A number stored while the line of node `nd` is parsed. The place is counted from the start of the table. -/
structure TableStore where
  nd : Nat
  place : Nat
  value : Nat
  deriving DecidableEq

namespace DistanceSystem

variable (sys : DistanceSystem)

/-- What `parseLoop` stores. -/
def loopStores (nd : Nat) : Nat → Nat → List Char → List TableStore
  | 0, _, _ => []
  | left + 1, j, s =>
      let d := strtoul 0 s
      let j := sys.skipUnavailable sys.maxnode j
      if s = d.2 then []
      else { nd := nd, place := nd * sys.maxnode + j, value := d.1 } :: loopStores nd left (j + 1) d.2

/-- What `parseNumbers` stores for the line of node `nd`. -/
def lineStores (nd : Nat) (line : List Char) : List TableStore := sys.loopStores nd sys.maxnode 0 line

/-- What `readRows` stores. -/
def rowStores : Nat → Nat → Int → List TableStore
  | 0, _, _ => []
  | fuel + 1, nd, err =>
      match sys.files.getD nd .missing with
      | .missing => if nd < sys.maxnode then rowStores fuel (nd + 1) 0 else []
      | .unreadable => if err = 0 ∧ nd < sys.maxnode then rowStores fuel (nd + 1) err else []
      | .text s =>
          if (getLine s).length ≤ 0 then []
          else sys.lineStores nd (getLine s) ++ rowStores fuel (nd + 1) err

/-- What `read_distance_table` stores. -/
def tableStores : List TableStore := sys.rowStores (max sys.files.length sys.maxnode + 1) 0 (-1)

/-- The place is a column of the node's own row, in a table of `maxnode` rows and columns. -/
def InOwnRow (st : TableStore) : Prop :=
  st.nd < sys.maxnode ∧ ∃ column < sys.maxnode, st.place = st.nd * sys.maxnode + column

/-! ### The stores and the table -/

def storeIn (table : DistanceTable) (st : TableStore) : Option DistanceTable :=
  if st.place < table.length then some (table.set st.place (BitVec.ofNat 32 st.value)) else none

theorem length_of_storeIn {table table' : DistanceTable} {st : TableStore} (h : storeIn table st = some table') :
    st.place < table.length ∧ table'.length = table.length := by
  rw [storeIn] at h
  split at h
  · next hlt => exact ⟨hlt, by rw [← Option.some.inj h, List.length_set]⟩
  · cases h

/-- The parser is the fold of its stores. -/
theorem parseLoop_eq_foldlM (nd left j : Nat) (s : List Char) (table : DistanceTable) :
    sys.parseLoop (nd * sys.maxnode) left j s table = (sys.loopStores nd left j s).foldlM storeIn table := by
  induction left generalizing j s table with
  | zero => rfl
  | succ left ih =>
      rw [parseLoop, loopStores]
      by_cases hend : s = (strtoul 0 s).2
      · rw [if_pos hend, if_pos hend]
        rfl
      · rw [if_neg hend, if_neg hend, List.foldlM_cons, storeIn]
        split
        · rw [ih]
          rfl
        · rfl

theorem foldlM_storeIn {sts : List TableStore} {table : DistanceTable} :
    (∀ table', sts.foldlM storeIn table = some table' → table'.length = table.length) ∧
      ((∀ st ∈ sts, st.place < table.length) ↔ ∃ table', sts.foldlM storeIn table = some table') := by
  induction sts generalizing table with
  | nil =>
      refine ⟨fun table' h => ?_, iff_of_true (by simp) ⟨table, rfl⟩⟩
      rw [← Option.some.inj h]
  | cons st sts ih =>
      rw [List.foldlM_cons]
      cases hst : storeIn table st with
      | none =>
          refine ⟨?_, iff_of_false (fun h => ?_) ?_⟩
          · intro table' h
            cases h
          · rw [storeIn, if_pos (h st List.mem_cons_self)] at hst
            cases hst
          · rintro ⟨table', h⟩
            cases h
      | some table₁ =>
          obtain ⟨hlt, hlen⟩ := length_of_storeIn hst
          obtain ⟨hlength, hiff⟩ := @ih table₁
          refine ⟨fun table' h => (hlength table' h).trans hlen, ?_⟩
          rw [List.forall_mem_cons, ← hlen]
          exact (and_iff_right (hlen ▸ hlt)).trans hiff

theorem lt_length_of_text {nd : Nat} {s : List Char} (h : sys.files.getD nd .missing = .text s) :
    nd < sys.files.length := by
  by_contra hge
  rw [List.getD_eq_default _ _ (by omega)] at h
  cases h

/-- The loop over the rows leaves the table exactly when one of its stores does. -/
theorem readRows_isSome_iff {fuel nd : Nat} {err : Int} {table : Option DistanceTable}
    (hnd : nd ≤ max sys.files.length sys.maxnode) (hfuel : max sys.files.length sys.maxnode < nd + fuel)
    (htable : (table.getD (List.replicate (sys.maxnode * sys.maxnode) 0)).length = sys.maxnode * sys.maxnode) :
    (∃ r, sys.readRows fuel nd err table = some r) ↔
      ∀ st ∈ sys.rowStores fuel nd err, st.place < sys.maxnode * sys.maxnode := by
  induction fuel generalizing nd err table with
  | zero => omega
  | succ fuel ih =>
      rw [readRows, rowStores]
      cases hfile : sys.files.getD nd .missing with
      | missing =>
          dsimp only
          split
          · exact ih (by omega) (by omega) htable
          · exact iff_of_true ⟨_, rfl⟩ (by simp)
      | unreadable =>
          dsimp only
          split
          · exact ih (by omega) (by omega) htable
          · exact iff_of_true ⟨_, rfl⟩ (by simp)
      | text s =>
          have hlt := sys.lt_length_of_text hfile
          dsimp only
          split
          · exact iff_of_true ⟨_, rfl⟩ (by simp)
          · rw [parseNumbers, parseLoop_eq_foldlM, ← lineStores, List.forall_mem_append]
            generalize table.getD (List.replicate (sys.maxnode * sys.maxnode) 0) = start at htable ⊢
            obtain ⟨hlength, hiff⟩ := @foldlM_storeIn (sys.lineStores nd (getLine s)) start
            rw [htable] at hiff
            rw [hiff]
            cases hfold : (sys.lineStores nd (getLine s)).foldlM storeIn start with
            | none => simp
            | some table' =>
                have hrest := @ih (nd + 1) err (some table') (by omega) (by omega)
                  ((hlength _ hfold).trans htable)
                exact hrest.trans (and_iff_right ⟨table', rfl⟩).symm

theorem readDistanceTable_isSome_iff (cache : DistanceCache) :
    (∃ r, sys.readDistanceTable cache = some r) ↔
      ∀ st ∈ sys.tableStores, st.place < sys.maxnode * sys.maxnode := by
  rw [tableStores, ← @readRows_isSome_iff sys _ 0 (-1) none (Nat.zero_le _) (by omega) List.length_replicate,
    readDistanceTable]
  cases sys.readRows (max sys.files.length sys.maxnode + 1) 0 (-1) none with
  | none => simp
  | some r =>
      refine iff_of_true ?_ ⟨r, rfl⟩
      dsimp only
      split
      · exact ⟨_, rfl⟩
      · split <;> exact ⟨_, rfl⟩

/-! ### The columns of a line -/

/-- How many numbers stand at the front of a text, counted up to `left`. -/
def numbersRead : Nat → List Char → Nat
  | 0, _ => 0
  | left + 1, s =>
      match readNumber s with
      | none => 0
      | some (_, rest) => numbersRead left rest + 1

section Line

variable {sys : DistanceSystem} {S : Finset Nat} {nd : Nat}

/-- Behind the last node the columns of the row are used up. -/
theorem maxnode_le_skipUnavailable (h : FindsNodes sys S) {fuel j : Nat} (hnone : ∀ i ∈ S, ¬j ≤ i)
    (hfuel : sys.maxnode ≤ j + fuel) : sys.maxnode ≤ sys.skipUnavailable fuel j := by
  induction fuel generalizing j with
  | zero => exact hfuel
  | succ fuel ih =>
      rw [skipUnavailable]
      split
      · exact ih (fun i hi hji => hnone i hi (by omega)) (by omega)
      · next hstop =>
        have hunset : ¬numaBitmaskIsbitset sys.nodes.numaNodesPtr j = true := by
          rw [numaBitmaskIsbitset_eq_true, h.bits]
          exact fun hj => hnone j hj (le_refl j)
        by_contra hlt
        exact hstop ⟨by omega, hunset⟩

/-- From column `j` on, the numbers go to columns of the row exactly when there are enough nodes left. -/
theorem loopStores_columns (h : FindsNodes sys S) (left j : Nat) (s : List Char) :
    (∀ st ∈ sys.loopStores nd left j s, ∃ column < sys.maxnode, st.place = nd * sys.maxnode + column) ↔
      numbersRead left s ≤ (S.filter (j ≤ ·)).card := by
  induction left generalizing j s with
  | zero => exact iff_of_true (by simp [loopStores]) (Nat.zero_le _)
  | succ left ih =>
      rw [loopStores, numbersRead]
      cases hread : readNumber s with
      | none =>
          rw [if_pos (NumberList.readNumber_eq_none.mp hread).symm]
          exact iff_of_true (by simp) (Nat.zero_le _)
      | some r =>
          obtain ⟨v, rest⟩ := r
          obtain ⟨hne, hvalue⟩ := NumberList.readNumber_eq_some.mp hread
          rw [hvalue] at hne ⊢
          dsimp only at hne ⊢
          rw [if_neg (Ne.symm hne), List.forall_mem_cons]
          obtain hempty | hpos := Nat.eq_zero_or_pos (S.filter (j ≤ ·)).card
          · have hnone := Finset.filter_eq_empty_iff.mp (Finset.card_eq_zero.mp hempty)
            have hcolumn := maxnode_le_skipUnavailable h hnone (Nat.le_add_left sys.maxnode j)
            refine iff_of_false ?_ (by omega)
            rintro ⟨⟨column, hlt, hplace⟩, -⟩
            dsimp only at hplace
            omega
          · obtain ⟨m, hm, hjm, hnext⟩ := exists_next hpos
            have hmlt := h.lt_maxnode m hm
            rw [skipUnavailable_eq h hm hjm hnext (by omega), ih, card_after_next hm hjm hnext,
              Nat.add_le_add_iff_right]
            exact and_iff_right ⟨m, hmlt, rfl⟩

theorem nd_of_mem_loopStores {left j : Nat} {s : List Char} {st : TableStore}
    (h : st ∈ sys.loopStores nd left j s) : st.nd = nd := by
  induction left generalizing j s with
  | zero => cases h
  | succ left ih =>
      rw [loopStores] at h
      split at h
      · cases h
      · obtain rfl | h := List.mem_cons.mp h
        · rfl
        · exact ih h

theorem loopStores_eq_nil_iff {left j : Nat} {s : List Char} :
    sys.loopStores nd left j s = [] ↔ numbersRead left s = 0 := by
  cases left with
  | zero => exact iff_of_true rfl rfl
  | succ left =>
      rw [loopStores, numbersRead]
      cases hread : readNumber s with
      | none =>
          rw [if_pos (NumberList.readNumber_eq_none.mp hread).symm]
          exact iff_of_true rfl rfl
      | some r =>
          have hne := (NumberList.readNumber_eq_some.mp hread).1
          rw [if_neg (Ne.symm hne)]
          exact iff_of_false (List.cons_ne_nil _ _) (Nat.succ_ne_zero _)

/-- The numbers of one line stay in the node's own row exactly when the row is one of the table and the line
has no more of them than there are nodes. -/
theorem lineStores_inOwnRow_iff (h : FindsNodes sys S) (line : List Char) :
    (∀ st ∈ sys.lineStores nd line, sys.InOwnRow st) ↔
      numbersRead sys.maxnode line ≤ S.card ∧ (0 < numbersRead sys.maxnode line → nd < sys.maxnode) := by
  have hcolumns := @loopStores_columns sys S nd h sys.maxnode 0 line
  rw [Finset.filter_true_of_mem fun n _ => Nat.zero_le n] at hcolumns
  rw [← hcolumns]
  constructor
  · intro hown
    refine ⟨fun st hst => ?_, fun hpos => ?_⟩
    · obtain ⟨column, hlt, hplace⟩ := (hown st hst).2
      exact ⟨column, hlt, by rw [hplace, nd_of_mem_loopStores hst]⟩
    · have hne : sys.lineStores nd line ≠ [] := mt loopStores_eq_nil_iff.mp (by omega)
      obtain ⟨st, hst⟩ := List.exists_mem_of_ne_nil _ hne
      rw [← nd_of_mem_loopStores hst]
      exact (hown st hst).1
  · rintro ⟨hcol, hrow⟩ st hst
    have hpos : 0 < numbersRead sys.maxnode line :=
      Nat.pos_of_ne_zero fun h0 => List.ne_nil_of_mem hst (loopStores_eq_nil_iff.mpr h0)
    refine ⟨?_, ?_⟩
    · rw [nd_of_mem_loopStores hst]
      exact hrow hpos
    · obtain ⟨column, hlt, hplace⟩ := hcol st hst
      exact ⟨column, hlt, by rw [nd_of_mem_loopStores hst, hplace]⟩

end Line

/-! ### The lines that are read -/

/-- The file of number `m` lets `read_distance_table` go on: there is none, it cannot be opened and some
earlier one did not exist, or it has a line. -/
def Passed (m : Nat) : Prop :=
  match sys.files.getD m .missing with
  | .missing => m < sys.maxnode
  | .unreadable => m < sys.maxnode ∧ ∃ l < m, sys.files.getD l .missing = .missing
  | .text s => getLine s ≠ []

/-- The loop comes to the file of node `nd`, and finds the line in it. -/
def LineRead (nd : Nat) (line : List Char) : Prop :=
  (∀ m < nd, sys.Passed m) ∧ ∃ s, sys.files.getD nd .missing = .text s ∧ getLine s = line ∧ line ≠ []

theorem not_passed_of_le {m : Nat} (h : max sys.files.length sys.maxnode ≤ m) : ¬sys.Passed m := by
  rw [Passed, List.getD_eq_default _ _ (by omega)]
  dsimp only
  omega

theorem passed_of_missing {m : Nat} (h : sys.files.getD m .missing = .missing) : sys.Passed m ↔ m < sys.maxnode := by
  rw [Passed, h]

theorem passed_of_unreadable {m : Nat} (h : sys.files.getD m .missing = .unreadable) :
    sys.Passed m ↔ (∃ l < m, sys.files.getD l .missing = .missing) ∧ m < sys.maxnode := by
  rw [Passed, h, and_comm]

theorem passed_of_text {m : Nat} {s : List Char} (h : sys.files.getD m .missing = .text s) :
    sys.Passed m ↔ getLine s ≠ [] := by
  rw [Passed, h]

/-- A file without a text has no line that is read. -/
theorem not_lineRead_of_file {nd : Nat} (h : ∀ s, sys.files.getD nd .missing ≠ .text s) (line : List Char) :
    ¬sys.LineRead nd line := by
  rintro ⟨-, s, hs, -⟩
  exact h s hs

theorem lineRead_iff_of_text {nd : Nat} {s : List Char} (h : sys.files.getD nd .missing = .text s)
    (hpassed : ∀ m < nd, sys.Passed m) (line : List Char) :
    sys.LineRead nd line ↔ getLine s = line ∧ line ≠ [] := by
  rw [LineRead, h, and_iff_right hpassed]
  constructor
  · rintro ⟨s', hs, hline⟩
    cases hs
    exact hline
  · exact fun hline => ⟨s, rfl, hline⟩

section Step

variable {nd : Nat} {P : Nat → List Char → Prop}

/-- The lines read from `nd` on: perhaps one at `nd`, and those behind it. -/
theorem exists_lineRead_step :
    (∃ k line, nd ≤ k ∧ sys.LineRead k line ∧ P k line) ↔
      (∃ line, sys.LineRead nd line ∧ P nd line) ∨ ∃ k line, nd + 1 ≤ k ∧ sys.LineRead k line ∧ P k line := by
  constructor
  · rintro ⟨k, line, hk, hread⟩
    obtain rfl | hlt := Nat.eq_or_lt_of_le hk
    · exact Or.inl ⟨line, hread⟩
    · exact Or.inr ⟨k, line, hlt, hread⟩
  · rintro (⟨line, hread⟩ | ⟨k, line, hk, hread⟩)
    · exact ⟨nd, line, le_refl nd, hread⟩
    · exact ⟨k, line, by omega, hread⟩

/-- A number without a line is passed over. -/
theorem exists_lineRead_skip (hline : ∀ line, ¬sys.LineRead nd line) :
    (∃ k line, nd ≤ k ∧ sys.LineRead k line ∧ P k line) ↔
      ∃ k line, nd + 1 ≤ k ∧ sys.LineRead k line ∧ P k line := by
  rw [exists_lineRead_step]
  exact or_iff_right fun ⟨line, hread, _⟩ => hline line hread

/-- Where the loop stops without a line, no line from there on is read. -/
theorem not_exists_lineRead_of_stop (hstop : ¬sys.Passed nd) (hline : ∀ line, ¬sys.LineRead nd line) :
    ¬∃ k line, nd ≤ k ∧ sys.LineRead k line ∧ P k line := by
  rintro ⟨k, line, hk, hread, -⟩
  obtain rfl | hlt := Nat.eq_or_lt_of_le hk
  · exact hline line hread
  · exact hstop (hread.1 nd hlt)

end Step

/-- The stores of the loop from `nd` on are those of the lines read from there on. -/
theorem mem_rowStores {fuel nd : Nat} {err : Int} (hpassed : ∀ m < nd, sys.Passed m)
    (hfuel : max sys.files.length sys.maxnode < nd + fuel)
    (herr : err = 0 ↔ ∃ l < nd, sys.files.getD l .missing = .missing) {st : TableStore} :
    st ∈ sys.rowStores fuel nd err ↔
      ∃ k line, nd ≤ k ∧ sys.LineRead k line ∧ st ∈ sys.lineStores k line := by
  induction fuel generalizing nd err with
  | zero => exact absurd (hpassed _ hfuel) (sys.not_passed_of_le (le_refl _))
  | succ fuel ih =>
      have hnext (hpass : sys.Passed nd) : ∀ m < nd + 1, sys.Passed m := Nat.forall_lt_succ_right.mpr ⟨hpassed, hpass⟩
      have herr' (hfile : sys.files.getD nd .missing ≠ .missing) :
          err = 0 ↔ ∃ l < nd + 1, sys.files.getD l .missing = .missing := by
        rw [Nat.exists_lt_succ_right, or_iff_left hfile]
        exact herr
      rw [rowStores]
      cases hfile : sys.files.getD nd .missing with
      | missing =>
          have hnone := sys.not_lineRead_of_file fun s hs => by rw [hfile] at hs; cases hs
          have hpass := sys.passed_of_missing hfile
          dsimp only
          split
          · next hlt =>
            rw [sys.exists_lineRead_skip hnone]
            exact ih (hnext (hpass.mpr hlt)) (by omega) (iff_of_true rfl ⟨nd, Nat.lt_succ_self nd, hfile⟩)
          · next hge =>
            exact iff_of_false List.not_mem_nil (sys.not_exists_lineRead_of_stop (mt hpass.mp hge) hnone)
      | unreadable =>
          have hnone := sys.not_lineRead_of_file fun s hs => by rw [hfile] at hs; cases hs
          have hpass := sys.passed_of_unreadable hfile
          rw [← herr] at hpass
          dsimp only
          split
          · next hgo =>
            rw [sys.exists_lineRead_skip hnone]
            exact ih (hnext (hpass.mpr hgo)) (by omega) (herr' (by rw [hfile]; exact fun h => by cases h))
          · next hstop =>
            exact iff_of_false List.not_mem_nil (sys.not_exists_lineRead_of_stop (mt hpass.mp hstop) hnone)
      | text s =>
          have hlines := sys.lineRead_iff_of_text hfile hpassed
          have hpass := sys.passed_of_text hfile
          dsimp only
          by_cases hline : getLine s = []
          · rw [if_pos (by rw [hline]; exact le_refl 0)]
            have hstop : ¬sys.Passed nd := mt hpass.mp (not_not.mpr hline)
            refine iff_of_false List.not_mem_nil (sys.not_exists_lineRead_of_stop hstop fun line hread => ?_)
            obtain ⟨rfl, hne⟩ := (hlines line).mp hread
            exact hne hline
          · rw [if_neg (by rwa [Nat.le_zero, List.length_eq_zero_iff]), List.mem_append, sys.exists_lineRead_step]
            refine or_congr ⟨fun h => ⟨getLine s, (hlines _).mpr ⟨rfl, hline⟩, h⟩, ?_⟩ ?_
            · rintro ⟨line, hread, h⟩
              rwa [((hlines line).mp hread).1]
            · exact ih (hnext (hpass.mpr hline)) (by omega) (herr' (by rw [hfile]; exact fun h => by cases h))

end DistanceSystem

/-- The nodes found have rows and columns in the table, whatever the directories are called. -/
theorem findsNodes_setConfiguredNodes (nodemaskSz : Nat) (names : Option (List (List Char)))
    (files : List DistanceFile) :
    FindsNodes ⟨setConfiguredNodes nodemaskSz names, files⟩
      (setConfiguredNodes nodemaskSz names).numaNodesPtr.bits where
  bits := rfl
  lt_maxnode n hn := by
    rw [DistanceSystem.maxnode, numaMaxNode]
    cases names with
    | none =>
        simp only [setConfiguredNodes, bits_zeroBitmask] at hn
        exact absurd hn (Finset.notMem_empty n)
    | some names =>
        rw [setConfiguredNodes, ConfiguredNodes.bits_foldl_addNode, bits_zeroBitmask, Finset.empty_union,
          Finset.mem_filter, List.mem_toFinset] at hn
        have hle := (@ConfiguredNodes.maxconfigurednode_foldl_addNode
          ⟨zeroBitmask nodemaskSz, zeroBitmask nodemaskSz, -1⟩ _).1 n hn.1
        dsimp only [setConfiguredNodes]
        omega

namespace DistanceSystem

/-- Whatever the node directories and the files hold: every number goes to a column of its node's own row in
the table exactly when every line read has at most as many numbers as there are nodes, and belongs to a row
of the table unless it has none. -/
theorem tableStores_inOwnRow_iff (nodemaskSz : Nat) (names : Option (List (List Char)))
    (files : List DistanceFile) :
    (∀ st ∈ tableStores ⟨setConfiguredNodes nodemaskSz names, files⟩,
        InOwnRow ⟨setConfiguredNodes nodemaskSz names, files⟩ st) ↔
      ∀ nd line, LineRead ⟨setConfiguredNodes nodemaskSz names, files⟩ nd line →
        numbersRead (maxnode ⟨setConfiguredNodes nodemaskSz names, files⟩) line ≤
            (setConfiguredNodes nodemaskSz names).numaNodesPtr.bits.card ∧
          (0 < numbersRead (maxnode ⟨setConfiguredNodes nodemaskSz names, files⟩) line →
            nd < maxnode ⟨setConfiguredNodes nodemaskSz names, files⟩) := by
  have h := findsNodes_setConfiguredNodes nodemaskSz names files
  generalize (⟨setConfiguredNodes nodemaskSz names, files⟩ : DistanceSystem) = sys at h ⊢
  have hstores : ∀ st, st ∈ sys.tableStores ↔ ∃ k line, 0 ≤ k ∧ sys.LineRead k line ∧ st ∈ sys.lineStores k line :=
    fun st => sys.mem_rowStores (fun m hm => absurd hm (Nat.not_lt_zero m)) (by omega)
      (iff_of_false (by decide) fun ⟨l, hl, _⟩ => absurd hl (Nat.not_lt_zero l))
  constructor
  · intro hown nd line hread
    refine (lineStores_inOwnRow_iff h line).mp fun st hst => hown st ?_
    exact (hstores st).mpr ⟨nd, line, Nat.zero_le nd, hread, hst⟩
  · intro hlines st hst
    obtain ⟨k, line, -, hread, hline⟩ := (hstores st).mp hst
    exact (lineStores_inOwnRow_iff h line).mpr (hlines k line hread) st hline

/-- Nodes 0 and 2 are there, and the line of node 0 has three numbers: the third goes to the row of node 1. -/
theorem third_number_in_next_row :
    ¬∀ st ∈ tableStores ⟨setConfiguredNodes 64 (some ["node0".toList, "node2".toList]), [.text "10 20 30\n".toList]⟩,
      InOwnRow ⟨setConfiguredNodes 64 (some ["node0".toList, "node2".toList]), [.text "10 20 30\n".toList]⟩ st := by
  intro h
  obtain ⟨-, column, hlt, hplace⟩ := h ⟨0, 3, 30⟩ (by decide +kernel)
  have hthree : maxnode ⟨setConfiguredNodes 64 (some ["node0".toList, "node2".toList]),
      [.text "10 20 30\n".toList]⟩ = 3 := by decide +kernel
  rw [hthree] at hlt
  dsimp only at hplace
  omega

end DistanceSystem
end Numactl
