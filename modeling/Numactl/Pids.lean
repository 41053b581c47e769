import Numactl.Base.Compaction
import Numactl.MapsAccounting
import Numactl.SystemFiles

/-! The processes `numastat` reports on: the numbers given, and the processes whose name or command line contains a
pattern. The numbers are collected in an array that grows, and are then sorted and squeezed in place. Texts printed on
the way are not modelled. -/

namespace Numactl

open CString

namespace Numastat

/-! ### Numbers -/

def atoi (s : List Char) : Int := intOfLong (strtol 10 s).1

theorem atoi_lt (s : List Char) : atoi s < 2 ^ 31 := BitVec.toInt_lt

def allDigits (s : List Char) : Bool := s.all isdigit

/-- `starts_with_digit`, the filter of `scandir`. -/
def startsWithDigit (name : List Char) : Bool := name.head?.any isdigit

/-- `pid_array`, of which `allocated` elements have been allocated, `pid_array_max_pids`, and how often it was to
grow. -/
structure PidArray where
  pids : List Int
  allocated : Nat
  maxPids : Nat
  grown : Nat

def PidArray.empty : PidArray := ⟨[], 0, 0, 0⟩

/-- `add_pid_to_list`. Whether `realloc` succeeds may differ from call to call; `none` where an element that is not
allocated is written. -/
def PidArray.add (realloc : Nat → Bool) (s : PidArray) (pid : Int) : Option PidArray :=
  if s.pids.length < s.maxPids then
    if s.pids.length < s.allocated then some { s with pids := s.pids ++ [pid] } else none
  else
    let maxPids := if s.maxPids = 0 then 32 else s.maxPids
    if realloc s.grown then
      some { pids := s.pids ++ [pid], allocated := 2 * maxPids, maxPids := 2 * maxPids, grown := s.grown + 1 }
    else some { s with maxPids := maxPids, grown := s.grown + 1 }

def PidArray.addAll (realloc : Nat → Bool) (s : PidArray) (pids : List Int) : Option PidArray :=
  pids.foldlM (PidArray.add realloc) s

/-- The array is as large as it is taken to be. -/
structure PidArray.Allocated (s : PidArray) : Prop where
  allocated_eq : s.allocated = s.maxPids
  pos : 0 < s.maxPids
  fits : s.pids.length ≤ s.maxPids

theorem PidArray.Allocated.add {s : PidArray} (h : s.Allocated) (realloc : Nat → Bool) (pid : Int) :
    ∃ t, s.add realloc pid = some t ∧ t.Allocated ∧
      (t.pids = s.pids ++ [pid] ∨ t.pids = s.pids ∧ ∃ i, realloc i = false) := by
  have hpos := h.pos
  have hfits := h.fits
  by_cases hroom : s.pids.length < s.maxPids
  · refine ⟨{ s with pids := s.pids ++ [pid] }, ?_, ⟨h.allocated_eq, hpos, ?_⟩, Or.inl rfl⟩
    · rw [PidArray.add, if_pos hroom, if_pos (h.allocated_eq ▸ hroom)]
    · rw [List.length_append]
      exact hroom
  · have hmax : s.maxPids ≠ 0 := Nat.ne_of_gt hpos
    simp only [PidArray.add, if_neg hroom, if_neg hmax]
    by_cases hgrow : realloc s.grown = true
    · rw [if_pos hgrow]
      refine ⟨_, rfl, ⟨rfl, ?_, ?_⟩, Or.inl rfl⟩
      · show 0 < 2 * s.maxPids
        omega
      · show (s.pids ++ [pid]).length ≤ 2 * s.maxPids
        rw [List.length_append, List.length_singleton]
        omega
    · rw [if_neg hgrow]
      exact ⟨_, rfl, ⟨h.allocated_eq, hpos, hfits⟩, Or.inr ⟨rfl, s.grown, Bool.eq_false_iff.mpr hgrow⟩⟩

theorem PidArray.Allocated.addAll {s : PidArray} (h : s.Allocated) (realloc : Nat → Bool) (pids : List Int) :
    ∃ t added, s.addAll realloc pids = some t ∧ t.pids = s.pids ++ added ∧ added.Sublist pids ∧
      ((∀ i, realloc i = true) → added = pids) := by
  induction pids generalizing s with
  | nil => exact ⟨s, [], rfl, (List.append_nil _).symm, List.Sublist.refl _, fun _ => rfl⟩
  | cons pid pids ih =>
      obtain ⟨t, hadd, ht, hpids⟩ := h.add realloc pid
      obtain ⟨u, added, hall, hu, hsub, hcomplete⟩ := ih ht
      have hrun : s.addAll realloc (pid :: pids) = some u := by
        rw [PidArray.addAll, List.foldlM_cons, hadd]
        exact hall
      rcases hpids with hpids | ⟨hpids, i, hi⟩
      · refine ⟨u, pid :: added, hrun, ?_, hsub.cons_cons pid, fun hgrows => congrArg _ (hcomplete hgrows)⟩
        rw [hu, hpids, List.append_assoc]
        rfl
      · refine ⟨u, added, hrun, by rw [hu, hpids], hsub.cons pid, fun hgrows => ?_⟩
        rw [hgrows i] at hi
        cases hi

/-- Where the first allocation fails, the array is taken to have room for 32 numbers it does not have. -/
theorem add_empty_of_false {realloc : Nat → Bool} (h : realloc 0 = false) (pid : Int) :
    PidArray.empty.add realloc pid = some ⟨[], 0, 32, 1⟩ := by
  simp [PidArray.add, PidArray.empty, h]

theorem add_empty_of_true {realloc : Nat → Bool} (h : realloc 0 = true) (pid : Int) :
    PidArray.empty.add realloc pid = some ⟨[pid], 64, 64, 1⟩ := by
  simp [PidArray.add, PidArray.empty, h]

/-- With memory for all of them, the numbers are kept in their order. -/
theorem addAll_empty {realloc : Nat → Bool} (h : ∀ i, realloc i = true) (pids : List Int) :
    ∃ t, PidArray.empty.addAll realloc pids = some t ∧ t.pids = pids := by
  cases pids with
  | nil => exact ⟨PidArray.empty, rfl, rfl⟩
  | cons pid pids =>
      have hallocated : PidArray.Allocated ⟨[pid], 64, 64, 1⟩ :=
        ⟨rfl, Nat.succ_pos 63, Nat.succ_le_succ (Nat.zero_le 63)⟩
      obtain ⟨t, added, hall, hpids, -, hcomplete⟩ := hallocated.addAll realloc pids
      refine ⟨t, ?_, by rw [hpids, hcomplete h]; rfl⟩
      rw [PidArray.addAll, List.foldlM_cons, add_empty_of_true (h 0)]
      exact hall

/-- Adding numbers stays within the array exactly if the first allocation succeeds or nothing is added behind the
first number. Then the numbers are kept in their order, without those there was no memory for. -/
theorem addAll_empty_iff (realloc : Nat → Bool) (pids : List Int) :
    ((PidArray.empty.addAll realloc pids).isSome = true ↔ realloc 0 = true ∨ pids.length ≤ 1) ∧
      ∀ t, PidArray.empty.addAll realloc pids = some t → t.pids.Sublist pids ∧
        ((∀ i, realloc i = true) → t.pids = pids) := by
  cases pids with
  | nil =>
      refine ⟨iff_of_true rfl (Or.inr (Nat.zero_le 1)), ?_⟩
      intro t ht
      obtain rfl := Option.some.inj ht
      exact ⟨List.Sublist.refl _, fun _ => rfl⟩
  | cons pid pids =>
      rw [PidArray.addAll, List.foldlM_cons]
      cases hfirst : realloc 0 with
      | true =>
          have hallocated : PidArray.Allocated ⟨[pid], 64, 64, 1⟩ :=
            ⟨rfl, Nat.succ_pos 63, Nat.succ_le_succ (Nat.zero_le 63)⟩
          obtain ⟨t, added, hall, hpids, hsub, hcomplete⟩ := hallocated.addAll realloc pids
          rw [add_empty_of_true hfirst]
          show ((PidArray.addAll realloc _ pids).isSome = true ↔ _) ∧ ∀ t, PidArray.addAll realloc _ pids = some t → _
          rw [hall]
          refine ⟨iff_of_true rfl (Or.inl rfl), ?_⟩
          intro t' ht'
          obtain rfl := Option.some.inj ht'
          rw [hpids]
          exact ⟨hsub.cons_cons pid, fun hgrows => congrArg _ (hcomplete hgrows)⟩
      | false =>
          rw [add_empty_of_false hfirst]
          show ((PidArray.addAll realloc _ pids).isSome = true ↔ _) ∧ ∀ t, PidArray.addAll realloc _ pids = some t → _
          cases pids with
          | nil =>
              refine ⟨iff_of_true rfl (Or.inr (Nat.le_refl 1)), ?_⟩
              intro t ht
              obtain rfl := Option.some.inj ht
              refine ⟨List.nil_sublist _, fun hgrows => ?_⟩
              rw [hgrows 0] at hfirst
              cases hfirst
          | cons pid' pids =>
              have hnone : PidArray.addAll realloc ⟨[], 0, 32, 1⟩ (pid' :: pids) = none := by
                rw [PidArray.addAll, List.foldlM_cons]
                rfl
              rw [hnone]
              refine ⟨iff_of_false (fun h => by cases h) ?_, fun t ht => by cases ht⟩
              rintro (h | h)
              · cases h
              · exact absurd h (by simp)

/-! ### Sorting -/

def ascending (p1 p2 : Int) : Int := intOfLong (p1 - p2)

/-- What `qsort` asks. -/
def inOrder (p1 p2 : Int) : Bool := ascending p1 p2 ≤ 0

/-- The difference of two numbers that are not negative is an `int`. -/
theorem inOrder_eq {p1 p2 : Int} (h1 : 0 ≤ p1 ∧ p1 < 2 ^ 31) (h2 : 0 ≤ p2 ∧ p2 < 2 ^ 31) :
    inOrder p1 p2 = decide (p1 ≤ p2) := by
  rw [inOrder, ascending, intOfLong, BitVec.toInt_ofInt, Int.bmod_eq_of_le (by omega) (by omega)]
  apply decide_eq_decide.mpr
  omega

/-- Numbers that are not negative are sorted as they are by their order. -/
theorem mergeSort_inOrder {pids : List Int} (h : ∀ pid ∈ pids, 0 ≤ pid ∧ pid < 2 ^ 31) :
    pids.mergeSort inOrder = pids.mergeSort (fun p1 p2 => decide (p1 ≤ p2)) := by
  have hmap : (pids.mergeSort inOrder).map id = (pids.map id).mergeSort (fun p1 p2 => decide (p1 ≤ p2)) :=
    List.map_mergeSort fun p1 hp1 p2 hp2 => inOrder_eq (h p1 hp1) (h p2 hp2)
  rw [List.map_id, List.map_id] at hmap
  exact hmap

/-- `sort_pids_and_remove_duplicates`. -/
def sortPidsAndRemoveDuplicates (pids : List Int) : List Int :=
  if 1 < pids.length then
    let sorted := pids.mergeSort inOrder
    Compaction.kept (Compaction.squeeze (fun ix => sorted.getD ix 0) pids.length)
  else pids

/-- Every number is left once, in ascending order. -/
theorem sortPids_spec {pids : List Int} (h : ∀ pid ∈ pids, 0 ≤ pid ∧ pid < 2 ^ 31) :
    (sortPidsAndRemoveDuplicates pids).Pairwise (· < ·) ∧
      ∀ pid, pid ∈ sortPidsAndRemoveDuplicates pids ↔ pid ∈ pids := by
  unfold sortPidsAndRemoveDuplicates
  split
  · next hlong =>
    generalize hsorted : pids.mergeSort inOrder = sorted
    have hperm : sorted.Perm pids := hsorted ▸ List.mergeSort_perm _ _
    have hascending : sorted.Pairwise fun p1 p2 => p1 ≤ p2 := by
      rw [← hsorted, mergeSort_inOrder h]
      have hpairwise : (pids.mergeSort fun p1 p2 => decide (p1 ≤ p2)).Pairwise
          fun p1 p2 => decide (p1 ≤ p2) = true := by
        apply List.pairwise_mergeSort
        · intro p1 p2 p3 h12 h23
          exact decide_eq_true (Int.le_trans (of_decide_eq_true h12) (of_decide_eq_true h23))
        · intro p1 p2
          rw [Bool.or_eq_true, decide_eq_true_eq, decide_eq_true_eq]
          exact Int.le_total p1 p2
      exact hpairwise.imp of_decide_eq_true
    obtain ⟨n, hn⟩ := Nat.exists_eq_succ_of_ne_zero (Nat.ne_of_gt (Nat.lt_of_succ_lt hlong))
    have hlength : sorted.length = n + 1 := hperm.length_eq.trans hn
    have hat (i : Nat) (hi : i < n + 1) : sorted.getD i 0 = sorted[i] := List.getD_eq_getElem _ _ (by omega)
    rw [hn]
    obtain ⟨hlt, hmem⟩ := Compaction.kept_squeeze (m := fun ix => sorted.getD ix 0) (j := n) (by
      intro i hi
      show sorted.getD i 0 ≤ sorted.getD (i + 1) 0
      rw [hat i (by omega), hat (i + 1) (by omega)]
      exact List.pairwise_iff_getElem.mp hascending i (i + 1) (by omega) (by omega) (Nat.lt_succ_self i))
    refine ⟨hlt, fun pid => (hmem pid).trans ?_⟩
    rw [← hperm.mem_iff, List.mem_iff_getElem]
    constructor
    · rintro ⟨i, hi, rfl⟩
      exact ⟨i, by omega, (hat i (by omega)).symm⟩
    · rintro ⟨i, hi, rfl⟩
      exact ⟨i, by omega, hat i (by omega)⟩
  · next hshort =>
    refine ⟨?_, fun _ => Iff.rfl⟩
    match pids with
    | [] => exact List.Pairwise.nil
    | [pid] => exact List.pairwise_singleton _ pid
    | _ :: _ :: _ => exact absurd (by simp) hshort

/-! ### Patterns -/

/-- What of `/proc` is read: the directory, the `status` of a process, the `cmdline` behind a name of the directory, and
the number of the program's own process. -/
structure ProcFs where
  names : Option (List (List Char))
  status : Int → Option (List Char)
  cmdline : List Char → Option (List Char)
  getpid : Int

namespace ProcFs

variable (proc : ProcFs)

/-- `command_name_for_pid`. -/
def commandNameForPid (pid : Int) : Option (List Char) := do
  let text ← proc.status pid
  let buf ← (LineBuffer.buffers '\n' (smallBufSize - 1) text).find? "Name:".toList.isPrefixOf
  let p := (buf.drop 5).dropWhile isspace
  return if p.getLast? = some '\n' then p.dropLast else p

/-- What a pattern is searched in: the name and the command line, as far as the buffer goes. -/
def searchText (name : List Char) : List Char :=
  let buf := (proc.commandNameForPid (atoi name)).getD []
  match proc.cmdline name with
  | none => buf
  | some text =>
      let buf := buf ++ [' ']
      buf ++ (text.take (bufSize - 1 - buf.length)).map fun c => if c = '\x00' then ' ' else c

/-- The processes that contain the pattern, but for the program itself. -/
def matching (pattern : List Char) : List Int :=
  (((proc.names.getD []).filter startsWithDigit).filter fun name =>
    (strstr (proc.searchText name) pattern).isSome && atoi name ≠ proc.getpid).map atoi

/-- The processes an argument stands for. -/
def specified (arg : List Char) : List Int := if allDigits arg then [atoi arg] else proc.matching arg

theorem lt_of_mem_specified {proc : ProcFs} {arg : List Char} {pid : Int} (h : pid ∈ proc.specified arg) :
    pid < 2 ^ 31 := by
  unfold specified at h
  split at h
  · rw [List.mem_singleton] at h
    rw [h]
    exact atoi_lt arg
  · obtain ⟨name, -, rfl⟩ := List.mem_map.mp h
    exact atoi_lt name

/-- `add_pids_from_pattern_search`, one process after the other. -/
def addPidsFromPatternSearch (realloc : Nat → Bool) (s : PidArray) (pattern : List Char) : Option PidArray :=
  ((proc.names.getD []).filter startsWithDigit).foldlM (fun s name =>
    let pid := atoi name
    if (strstr (proc.searchText name) pattern).isSome && pid ≠ proc.getpid then s.add realloc pid else some s) s

/-- What `main` does with `-p` and with the arguments behind the options. -/
def addSpecified (realloc : Nat → Bool) (s : PidArray) (arg : List Char) : Option PidArray :=
  if allDigits arg then s.add realloc (atoi arg) else proc.addPidsFromPatternSearch realloc s arg

theorem addSpecified_eq (realloc : Nat → Bool) (s : PidArray) (arg : List Char) :
    proc.addSpecified realloc s arg = s.addAll realloc (proc.specified arg) := by
  unfold addSpecified specified
  split
  · rw [PidArray.addAll, List.foldlM_cons]
    simp
  · rw [addPidsFromPatternSearch, matching, PidArray.addAll]
    generalize (proc.names.getD []).filter startsWithDigit = names
    induction names generalizing s with
    | nil => rfl
    | cons name names ih =>
        rw [List.foldlM_cons, List.filter_cons]
        dsimp only
        by_cases hmatch : ((strstr (proc.searchText name) arg).isSome && decide (atoi name ≠ proc.getpid)) = true
        · rw [if_pos hmatch, if_pos hmatch, List.map_cons, List.foldlM_cons]
          congr 1
          funext t
          exact ih t
        · rw [if_neg hmatch, if_neg hmatch]
          exact ih s

end ProcFs

end Numastat
end Numactl
