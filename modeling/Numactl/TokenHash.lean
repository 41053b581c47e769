import Numactl.Base.ProbeTable

/-! The hash table that finds the rows of tokens (`hash_ix`, `hash_lookup` and `hash_insert` in `numastat.c`). The
searches go on until they come to an unused entry, so that they end as long as there is one. -/

namespace Numactl

/-! ### The table -/

/-- `HASH_TABLE_SIZE`. -/
def hashTableSize : Nat := 151

/-- Characters are signed. -/
def hashIx (s : List Char) : Nat :=
  (s.foldl (fun (h : BitVec 32) c => (h <<< 5) + h + (BitVec.ofNat 8 c.toNat).signExtend 32) 17).toNat % hashTableSize

/-- `hash_table`. An entry without a name is unused. -/
abbrev HashTable (I : Type) := Nat → Option (List Char × I)

abbrev TokenTable := HashTable Nat

section

variable {I : Type}

def initHashTable : HashTable I := fun _ => none

/-- `none` where the search does not end, `some none` for the return value -1. -/
def hashLookup (hashTable : HashTable I) (s : List Char) : Option (Option I) :=
  ProbeTable.lookup hashTableSize hashTable s hashTableSize (hashIx s)

/-- `none` where the search for a free entry does not end. -/
def hashInsert (hashTable : HashTable I) (s : List Char) (i : I) : Option (HashTable I) :=
  ProbeTable.insert hashTableSize hashTable s i (hashIx s)

/-- Calls of `hash_insert`, one after another. -/
def hashInserts (hashTable : HashTable I) (calls : List (List Char × I)) : Option (HashTable I) :=
  calls.foldlM (fun hashTable call => hashInsert hashTable call.1 call.2) hashTable

end

/-- What `hash_lookup` returns. -/
def hashResult (found : Option Int) : Int := found.getD (-1)

/-! ### Calls with distinct names -/

section Calls

variable {I : Type} {calls : List (List Char × I)}

theorem hashIx_lt (s : List Char) : hashIx s < hashTableSize := Nat.mod_lt _ (by decide)

/-- The table holds the names of all calls, as long as there are no more of them than entries. -/
theorem exists_hashInserts (hlen : calls.length ≤ hashTableSize) (hnodup : (calls.map Prod.fst).Nodup) :
    ∃ hashTable, hashInserts initHashTable calls = some hashTable ∧
      ProbeTable.Holds hashTableSize hashIx hashTable calls :=
  (ProbeTable.Holds.empty hashTableSize hashIx).insertAll hashIx_lt hlen hnodup

/-- Where every entry is used, neither the search for another name ends nor that for an unused entry, however long
they go on. -/
theorem searches_hashInserts_full (hlen : calls.length = hashTableSize) (hnodup : (calls.map Prod.fst).Nodup)
    {s : List Char} (hs : s ∉ calls.map Prod.fst) :
    ∃ hashTable, hashInserts initHashTable calls = some hashTable ∧ ∀ fuel,
      ProbeTable.lookup hashTableSize hashTable s fuel (hashIx s) = none ∧
        ProbeTable.freeSlot hashTableSize hashTable fuel (hashIx s) = none := by
  obtain ⟨hashTable, hinserts, hholds⟩ := exists_hashInserts hlen.le hnodup
  refine ⟨hashTable, hinserts, fun fuel => ⟨?_, ?_⟩⟩
  · exact hholds.lookup_of_full hlen hs fuel (hashIx_lt s)
  · exact hholds.freeSlot_of_full hlen fuel (hashIx_lt s)

end Calls

/-- With at most 150 names every search ends, and finds the index of an inserted name and of no other. -/
theorem hashLookup_hashInserts {calls : List (List Char × Int)} (hlen : calls.length ≤ 150)
    (hnodup : (calls.map Prod.fst).Nodup) :
    ∃ hashTable, hashInserts initHashTable calls = some hashTable ∧
      (∀ call ∈ calls, (hashLookup hashTable call.1).map hashResult = some call.2) ∧
      ∀ s ∉ calls.map Prod.fst, (hashLookup hashTable s).map hashResult = some (-1) := by
  have hroom : calls.length < hashTableSize := Nat.lt_succ_of_le hlen
  obtain ⟨hashTable, hinserts, hholds⟩ := exists_hashInserts hroom.le hnodup
  refine ⟨hashTable, hinserts, fun call hcall => ?_, fun s hs => ?_⟩
  · rw [hashLookup, hholds.lookup_of_mem (hashIx_lt call.1) hcall]
    rfl
  · rw [hashLookup, hholds.lookup_of_notMem hroom (hashIx_lt s) hs]
    rfl

/-- Three names that are all looked for from the last entry on. -/
def lastNames : List (List Char × Int) := [("but".toList, 7), ("doc".toList, -4), ("end".toList, 0)]

theorem hashLookup_lastNames :
    (∀ call ∈ lastNames, hashIx call.1 = 150) ∧ ∃ hashTable, hashInserts initHashTable lastNames = some hashTable ∧
      (∀ call ∈ lastNames, (hashLookup hashTable call.1).map hashResult = some call.2) ∧
      ∀ s ∉ lastNames.map Prod.fst, (hashLookup hashTable s).map hashResult = some (-1) :=
  ⟨by decide, hashLookup_hashInserts (by decide) (by decide)⟩

end Numactl
