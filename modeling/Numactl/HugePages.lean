import Mathlib.Algebra.Order.Field.Basic
import Numactl.Attach
import Numactl.MapsAccounting
import Numactl.SystemFiles

/-! The huge pages of a node (`update_hugepages_info` in `numastat.c`): the directories of its page sizes, in the order
they are read in, with the size in their names. Names and paths are taken to fit their buffers. -/

namespace Numactl

open CString (strtol strtoul decimal)

/-- One call of `strtok`: the word, and the text for the next call. -/
def strtok (delimiters s : List Char) : Option (List Char × List Char) :=
  let word := s.dropWhile (delimiters.contains ·)
  if word = [] then none
  else some (word.takeWhile (!delimiters.contains ·), (word.dropWhile (!delimiters.contains ·)).drop 1)

/-- An entry of the directory `hugepages` of a node: its name, whether it is a directory, and the text of the files in
it that can be opened. -/
structure HugeEntry where
  dName : List Char
  isDir : Bool
  text : List Char → Option (List Char)

/-- The name of the file for a token. -/
def hugeFname (token : List Char) : Option (List Char) :=
  if "HugePages_Total".toList.isPrefixOf token then some "nr_hugepages".toList
  else if "HugePages_Free".toList.isPrefixOf token then some "free_hugepages".toList
  else if "HugePages_Surp".toList.isPrefixOf token then some "surplus_hugepages".toList
  else none

/-- The page size in a name; `none` where it goes through a null pointer. The letters of the first word are the
delimiters of the second. -/
def hugepageSize (dName : List Char) : Option (BitVec 64) := do
  let (word, rest) ← strtok ['-'] dName
  let (pagesz, _) ← strtok word rest
  let unit ← strstr pagesz "kB".toList
  return BitVec.ofInt 64 (strtol 10 (pagesz.take (pagesz.length - unit.length))).1 * 1024

/-- The number of pages in a file, 0 if it is empty. -/
def nrPages (text : List Char) : BitVec 64 :=
  match SystemFile.buffers text with
  | [] => 0
  | buf :: _ => BitVec.ofNat 64 (strtoul 10 buf).1

section

variable {D : Type} [Zero D] [Add D] [IntCast D]

/-- One turn of the loop over the directory. -/
def addEntry (fname : List Char) (total : D) (e : HugeEntry) : Option D :=
  if ".".toList.isPrefixOf e.dName then some total
  else if e.isDir = false ∨ ¬"hugepages-".toList.isPrefixOf e.dName then some total
  else do
    let hugepageSize ← hugepageSize e.dName
    match e.text fname with
    | none => return total
    | some text => return total + ((nrPages text * hugepageSize).toNat : Int)

/-- `update_hugepages_info`, from the entries of the directory if it can be opened. -/
def updateHugepagesInfo (entries : Option (List HugeEntry)) (token : List Char) : Option D :=
  match hugeFname token with
  | none => some ((-(EINVAL : Int) : Int) : D)
  | some fname =>
      match entries with
      | none => some ((-(ENOENT : Int) : Int) : D)
      | some entries => entries.foldlM (addEntry fname) 0

end

/-! ### Directories of the kernel -/

/-- The pages of one size, in kB. -/
structure HugePool where
  size : Nat
  total : Nat
  free : Nat
  surplus : Nat

/-- What is counted of a pool. -/
inductive HugeCount where
  | total
  | free
  | surplus

namespace HugeCount

def token : HugeCount → List Char
  | .total => "HugePages_Total".toList
  | .free => "HugePages_Free".toList
  | .surplus => "HugePages_Surp".toList

def fname : HugeCount → List Char
  | .total => "nr_hugepages".toList
  | .free => "free_hugepages".toList
  | .surplus => "surplus_hugepages".toList

def of (p : HugePool) : HugeCount → Nat
  | .total => p.total
  | .free => p.free
  | .surplus => p.surplus

/-- The bytes of the pages counted. -/
def bytes (c : HugeCount) (p : HugePool) : Nat := c.of p * (p.size * 1024)

end HugeCount

/-- The directory of a pool. What it counts fits an `unsigned long`, in bytes, too. -/
structure HugePool.IsEntry (p : HugePool) (e : HugeEntry) : Prop where
  dName : e.dName = "hugepages-".toList ++ (decimal p.size ++ "kB".toList)
  isDir : e.isDir = true
  text : ∀ c : HugeCount, e.text c.fname = some (decimal (c.of p) ++ ['\n'])
  pos : 0 < p.size
  fits : ∀ c : HugeCount, c.bytes p < 2 ^ 64
  size_lt : p.size < 2 ^ 54

/-- An entry that is not one of a page size. -/
def HugeEntry.Other (e : HugeEntry) : Prop :=
  ".".toList.isPrefixOf e.dName = true ∨ e.isDir = false ∨ ¬"hugepages-".toList.isPrefixOf e.dName = true

/-- A directory with the pools, in the order they are read in. -/
inductive HugeDir : List HugeEntry → List HugePool → Prop where
  | nil : HugeDir [] []
  | other {e es ps} : e.Other → HugeDir es ps → HugeDir (e :: es) ps
  | pool {p e es ps} : p.IsEntry e → HugeDir es ps → HugeDir (e :: es) (p :: ps)

/-- The directory the kernel makes for a pool. -/
def HugePool.entry (p : HugePool) : HugeEntry where
  dName := "hugepages-".toList ++ (decimal p.size ++ "kB".toList)
  isDir := true
  text name :=
    if name = HugeCount.total.fname then some (decimal p.total ++ ['\n'])
    else if name = HugeCount.free.fname then some (decimal p.free ++ ['\n'])
    else if name = HugeCount.surplus.fname then some (decimal p.surplus ++ ['\n'])
    else none

theorem HugePool.isEntry_entry {p : HugePool} (hpos : 0 < p.size) (hlt : p.size < 2 ^ 54)
    (hfits : ∀ c : HugeCount, c.bytes p < 2 ^ 64) : p.IsEntry p.entry where
  dName := rfl
  isDir := rfl
  text c := by cases c <;> rfl
  pos := hpos
  fits := hfits
  size_lt := hlt

theorem hugeFname_token (c : HugeCount) : hugeFname c.token = some c.fname := by
  cases c <;> decide

/-! ### The name of a directory -/

section

variable {delimiters w : List Char}

/-- No delimiter is skipped before a word. -/
theorem dropWhile_delimiters (hne : w ≠ []) (hw : ∀ c ∈ w, delimiters.contains c = false) (rest : List Char) :
    (w ++ rest).dropWhile (delimiters.contains ·) = w ++ rest := by
  obtain ⟨c, w, rfl⟩ := List.exists_cons_of_ne_nil hne
  apply List.dropWhile_cons_of_neg
  rw [hw c List.mem_cons_self]
  exact Bool.false_ne_true

theorem not_delimiters (hw : ∀ c ∈ w, delimiters.contains c = false) : ∀ c ∈ w, (!delimiters.contains c) = true := by
  intro c hc
  rw [hw c hc, Bool.not_false]

theorem strtok_append (hne : w ≠ []) (hw : ∀ c ∈ w, delimiters.contains c = false) {d : Char}
    (hd : delimiters.contains d = true) (rest : List Char) : strtok delimiters (w ++ d :: rest) = some (w, rest) := by
  have hword := not_delimiters hw
  have hstop : ¬(!delimiters.contains d) = true := by rw [hd]; exact Bool.false_ne_true
  have htake : (d :: rest).takeWhile (!delimiters.contains ·) = [] := List.takeWhile_cons_of_neg hstop
  have hdrop : (d :: rest).dropWhile (!delimiters.contains ·) = d :: rest := List.dropWhile_cons_of_neg hstop
  rw [strtok, dropWhile_delimiters hne hw, if_neg (List.append_ne_nil_of_left_ne_nil hne _),
    List.takeWhile_append_of_pos hword, htake, List.dropWhile_append_of_pos hword, hdrop, List.append_nil]
  rfl

theorem strtok_self (hne : w ≠ []) (hw : ∀ c ∈ w, delimiters.contains c = false) :
    strtok delimiters w = some (w, []) := by
  have hskip : w.dropWhile (delimiters.contains ·) = w := by
    have hskip := dropWhile_delimiters hne hw []
    rwa [List.append_nil] at hskip
  have hword := not_delimiters hw
  rw [strtok, hskip, if_neg hne, List.takeWhile_eq_self_iff.mpr hword, List.dropWhile_eq_nil_iff.mpr hword]
  rfl

end

theorem strstr_unit {w : List Char} (hw : 'k' ∉ w) : strstr (w ++ "kB".toList) "kB".toList = some "kB".toList := by
  induction w with
  | nil => rfl
  | cons c w ih =>
      rw [List.mem_cons, not_or] at hw
      have hnot : ¬"kB".toList.isPrefixOf (c :: (w ++ "kB".toList)) = true := by
        intro hprefix
        have hfirst : ('k' == c) = true := (Bool.and_eq_true_iff.mp hprefix).1
        exact hw.1 (eq_of_beq hfirst)
      rw [List.cons_append, strstr_cons, if_neg hnot]
      exact ih hw.2

theorem not_isDigit_hugepages {c : Char} (hc : CString.isDigitOf 10 c = true) :
    "hugepages".toList.contains c = false := by
  have hletter : ∀ a ∈ "hugepages".toList, CString.isDigitOf 10 a = false := CString.forall_mem_of_all (by decide)
  rw [Bool.eq_false_iff, ne_eq, List.contains_iff_mem]
  intro hmem
  rw [hletter c hmem] at hc
  cases hc

/-- The word of the page size: the letters of the first word are not in it. -/
theorem strtok_pagesz (n : Nat) :
    strtok "hugepages".toList (decimal n ++ "kB".toList) = some (decimal n ++ "kB".toList, []) := by
  have hunit : ∀ a ∈ "kB".toList, "hugepages".toList.contains a = false := CString.forall_mem_of_all (by decide)
  refine strtok_self (List.append_ne_nil_of_left_ne_nil (CString.decimal_ne_nil n) _) fun c hc => ?_
  rcases List.mem_append.mp hc with hc | hc
  · exact not_isDigit_hugepages (CString.isDigitOf_decimal c hc)
  · exact hunit c hc

theorem strtok_first (rest : List Char) :
    strtok ['-'] ("hugepages-".toList ++ rest) = some ("hugepages".toList, rest) := by
  have hfirst : ∀ c ∈ "hugepages".toList, ['-'].contains c = false := CString.forall_mem_of_all (by decide)
  have hne : "hugepages".toList ≠ [] := List.cons_ne_nil _ _
  have hdash : ['-'].contains '-' = true := by decide
  exact strtok_append hne hfirst hdash rest

theorem hugepageSize_of {dName word rest pagesz rest' unit : List Char}
    (hword : strtok ['-'] dName = some (word, rest)) (hpagesz : strtok word rest = some (pagesz, rest'))
    (hunit : strstr pagesz "kB".toList = some unit) :
    hugepageSize dName =
      some (BitVec.ofInt 64 (strtol 10 (pagesz.take (pagesz.length - unit.length))).1 * 1024) := by
  unfold hugepageSize
  rw [hword, Option.bind_eq_bind, Option.bind_some]
  dsimp only
  rw [hpagesz, Option.bind_some]
  dsimp only
  rw [hunit, Option.bind_eq_bind, Option.bind_some]
  rfl

/-- The name of a directory of the kernel says its page size. -/
theorem hugepageSize_name {n : Nat} (hn : n < 2 ^ 63) :
    hugepageSize ("hugepages-".toList ++ (decimal n ++ "kB".toList)) = some (BitVec.ofNat 64 n * 1024) := by
  have hk : 'k' ∉ decimal n := fun h => absurd (CString.isDigitOf_decimal 'k' h) (by decide)
  have htake : (decimal n ++ "kB".toList).take ((decimal n ++ "kB".toList).length - "kB".toList.length) =
      decimal n := by
    rw [List.length_append, Nat.add_sub_cancel, List.take_left]
  rw [hugepageSize_of (strtok_first _) (strtok_pagesz n) (strstr_unit hk), htake, CString.strtol_printed hn,
    BitVec.ofInt_natCast]

/-- A number printed on a line is read back. -/
theorem strtoul_printed_line {n : Nat} (hn : n < 2 ^ 64) : strtoul 10 (decimal n ++ ['\n']) = (n, ['\n']) := by
  have hscan : CString.scan 10 (decimal n ++ ['\n']) = some (false, (CString.numeralOf n).value, ['\n']) := by
    apply CString.scan_digits (CString.numeralOf n)
    intro c hc
    obtain rfl := Option.some.inj hc
    decide
  have hmax : ¬CString.ulongMax < n := Nat.not_lt.mpr (Nat.le_of_lt_succ hn)
  rw [CString.value_numeralOf] at hscan
  calc strtoul 10 (decimal n ++ ['\n']) = (CString.toUnsigned false n, ['\n']) := by rw [strtoul, hscan]
    _ = (n, ['\n']) := by rw [CString.toUnsigned, if_neg hmax, if_neg Bool.false_ne_true]

theorem nrPages_text {n : Nat} (hn : n < 2 ^ 64) : nrPages (decimal n ++ ['\n']) = BitVec.ofNat 64 n := by
  have hnewline : '\n' ∉ decimal n := fun h => absurd (CString.isDigitOf_decimal '\n' h) (by decide)
  have hlength : (decimal n).length < smallBufSize - 1 := by
    have hle : (decimal n).length ≤ 20 :=
      (Nat.length_toDigits_le_iff (by decide) (by decide)).mpr (hn.trans (by decide))
    exact hle.trans_lt (by decide)
  rw [nrPages, SystemFile.buffers, LineBuffer.buffers_line hnewline [] hlength]
  dsimp only
  rw [strtoul_printed_line hn]

/-! ### The pages of a node -/

theorem HugePool.IsEntry.hugepageSize_eq {p : HugePool} {e : HugeEntry} (h : p.IsEntry e) :
    hugepageSize e.dName = some (BitVec.ofNat 64 p.size * 1024) := by
  rw [h.dName]
  exact hugepageSize_name (h.size_lt.trans (by decide))

/-- The product does not wrap. -/
theorem HugePool.IsEntry.toNat_pages {p : HugePool} {e : HugeEntry} (h : p.IsEntry e) (c : HugeCount) :
    (BitVec.ofNat 64 (c.of p) * (BitVec.ofNat 64 p.size * 1024)).toNat = c.bytes p := by
  have hbytes : BitVec.ofNat 64 (c.of p) * (BitVec.ofNat 64 p.size * 1024) = BitVec.ofNat 64 (c.bytes p) := by
    rw [HugeCount.bytes, BitVec.ofNat_mul, BitVec.ofNat_mul]
    rfl
  rw [hbytes, BitVec.toNat_ofNat, Nat.mod_eq_of_lt (h.fits c)]

theorem HugePool.IsEntry.of_lt {p : HugePool} {e : HugeEntry} (h : p.IsEntry e) (c : HugeCount) : c.of p < 2 ^ 63 := by
  have hsize : 1024 ≤ p.size * 1024 := Nat.le_mul_of_pos_left 1024 h.pos
  have hbytes : c.of p * 1024 < 2 ^ 64 := (Nat.mul_le_mul_left (c.of p) hsize).trans_lt (h.fits c)
  omega

section

variable {D : Type} [Ring D]

theorem addEntry_other {e : HugeEntry} (h : e.Other) (fname : List Char) (total : D) :
    addEntry fname total e = some total := by
  rw [addEntry]
  split
  · rfl
  · next hdot => rw [if_pos (h.resolve_left hdot)]

/-- An entry of a pool adds the bytes of its pages. -/
theorem addEntry_pool {p : HugePool} {e : HugeEntry} (h : p.IsEntry e) (c : HugeCount) (total : D) :
    addEntry c.fname total e = some (total + (c.bytes p : D)) := by
  have hdot : ¬".".toList.isPrefixOf e.dName = true := by
    rw [h.dName]
    exact Bool.false_ne_true
  have hprefix : "hugepages-".toList.isPrefixOf e.dName = true := by
    rw [h.dName, List.isPrefixOf_iff_prefix]
    exact List.prefix_append _ _
  have hkept : ¬(e.isDir = false ∨ ¬"hugepages-".toList.isPrefixOf e.dName = true) := by
    rw [h.isDir, hprefix]
    decide
  rw [addEntry, if_neg hdot, if_neg hkept, h.hugepageSize_eq, Option.bind_eq_bind, Option.bind_some, h.text c]
  dsimp only
  rw [nrPages_text ((h.of_lt c).trans (by decide)), h.toNat_pages c, Int.cast_natCast]
  rfl

/-- The bytes of the pages of all sizes are added up, in whatever order the directory is read. -/
theorem HugeDir.foldlM_addEntry {es : List HugeEntry} {ps : List HugePool} (h : HugeDir es ps) (c : HugeCount)
    (total : D) :
    es.foldlM (addEntry c.fname) total = some (total + ((ps.map c.bytes).sum : D)) := by
  induction h generalizing total with
  | nil => rw [List.foldlM_nil, List.map_nil, List.sum_nil, Nat.cast_zero, add_zero]; rfl
  | other hother _ ih => rw [List.foldlM_cons, addEntry_other hother, Option.bind_eq_bind, Option.bind_some, ih]
  | pool hpool _ ih =>
      rw [List.foldlM_cons, addEntry_pool hpool, Option.bind_eq_bind, Option.bind_some, ih, List.map_cons,
        List.sum_cons, Nat.cast_add, add_assoc]

theorem updateHugepagesInfo_eq {es : List HugeEntry} {ps : List HugePool} (h : HugeDir es ps) (c : HugeCount) :
    updateHugepagesInfo (some es) c.token = some ((ps.map c.bytes).sum : D) := by
  rw [updateHugepagesInfo, hugeFname_token]
  dsimp only
  rw [h.foldlM_addEntry, zero_add]

end

theorem HugeDir.exists_isEntry {es : List HugeEntry} {ps : List HugePool} (h : HugeDir es ps) :
    ∀ p ∈ ps, ∃ e ∈ es, p.IsEntry e := by
  induction h with
  | nil => exact fun p hp => absurd hp List.not_mem_nil
  | other _ _ ih =>
      intro p hp
      obtain ⟨e, he, hentry⟩ := ih p hp
      exact ⟨e, List.mem_cons_of_mem _ he, hentry⟩
  | pool hpool _ ih =>
      intro p hp
      rcases List.mem_cons.mp hp with rfl | hp
      · exact ⟨_, List.mem_cons_self, hpool⟩
      · obtain ⟨e, he, hentry⟩ := ih p hp
        exact ⟨e, List.mem_cons_of_mem _ he, hentry⟩

/-- Where there are no pages at all, there are none of one size. -/
theorem HugeDir.of_eq_zero {es : List HugeEntry} {ps : List HugePool} (h : HugeDir es ps) {c : HugeCount}
    (hsum : (ps.map c.bytes).sum = 0) {p : HugePool} (hp : p ∈ ps) : c.of p = 0 := by
  obtain ⟨e, -, hentry⟩ := h.exists_isEntry p hp
  have hbytes : c.of p * (p.size * 1024) = 0 := List.sum_eq_zero_iff_forall_eq_nat.mp hsum _ (List.mem_map_of_mem hp)
  exact (Nat.mul_eq_zero.mp hbytes).resolve_right (Nat.mul_pos hentry.pos (by decide)).ne'

theorem hugePages_token (c : HugeCount) : "HugePages".toList.isPrefixOf c.token = true := by
  cases c <;> decide

/-- The value of a `HugePages` line of the `meminfo` of a node, in megabytes: that of the pages of all sizes, though
the line counts only those of one size. -/
theorem Numastat.systemValue_hugePages {D : Type} [Field D] [LinearOrder D] [IsStrictOrderedRing D] (stat : Numastat D)
    (file : SystemFile D) (c : HugeCount) {es : List HugeEntry} {ps : List HugePool} {p : HugePool} {nodeIx : Nat}
    {node number : List Char} (hmode : file.compatibilityMode = false) (hoffset : file.tokOffset = 2)
    (hdir : HugeDir es ps) (hp : p ∈ ps)
    (hinfo : updateHugepagesInfo (some es) c.token =
      some (file.updateHugepagesInfo (stat.nodeIxMap.getD nodeIx 0) c.token)) :
    stat.systemValue file nodeIx [node, number, c.token, decimal (c.of p)] =
      ((ps.map c.bytes).sum : D) / (megabyte : D) := by
  obtain ⟨e, -, hentry⟩ := hdir.exists_isEntry p hp
  rw [updateHugepagesInfo_eq hdir] at hinfo
  have htotal : file.updateHugepagesInfo (stat.nodeIxMap.getD nodeIx 0) c.token = ((ps.map c.bytes).sum : D) :=
    (Option.some.inj hinfo).symm
  have hvalue : ((strtol 10 (decimal (c.of p))).1 : D) = (c.of p : D) := by
    rw [CString.strtol_printed (hentry.of_lt c), Int.cast_natCast]
  have htoken : [node, number, c.token, decimal (c.of p)].getD 2 [] = c.token := rfl
  have hnumber : [node, number, c.token, decimal (c.of p)].getD (1 + 2) [] = decimal (c.of p) := rfl
  have hlength : ¬[node, number, c.token, decimal (c.of p)].length < 4 := Nat.lt_irrefl 4
  rw [systemValue, hmode, hoffset, hnumber, htoken, hvalue, htotal]
  rw [if_neg Bool.false_ne_true, if_neg hlength, if_pos (hugePages_token c)]
  dsimp only
  rcases Nat.eq_zero_or_pos (ps.map c.bytes).sum with hsum | hsum
  · rw [hdir.of_eq_zero hsum hp, hsum, Nat.cast_zero, if_neg (lt_irrefl 0), zero_mul]
  · rw [if_pos (Nat.cast_pos.mpr hsum)]

/-- A node with a page of a gigabyte and four of two megabytes. -/
def twoSizes : List HugePool := [⟨1048576, 1, 0, 0⟩, ⟨2048, 4, 1, 0⟩]

def twoSizesDir : List HugeEntry := ⟨".".toList, true, fun _ => none⟩ :: twoSizes.map HugePool.entry

def twoSizesFile : SystemFile ℚ where
  file := "meminfo".toList
  tokOffset := 2
  compatibilityMode := false
  text _ := some "Node 0 HugePages_Total:     4\n".toList
  updateHugepagesInfo _ token := (updateHugepagesInfo (some twoSizesDir) token).getD 0

theorem hugeDir_twoSizes : HugeDir twoSizesDir twoSizes := by
  have hfits : ∀ p ∈ twoSizes, ∀ c : HugeCount, c.bytes p < 2 ^ 64 := by
    intro p hp c
    rcases List.mem_pair.mp hp with rfl | rfl
    · cases c <;> decide
    · cases c <;> decide
  refine .other (.inl rfl) (.pool ?_ (.pool ?_ .nil))
  · exact HugePool.isEntry_entry (by decide) (by decide) (hfits _ List.mem_cons_self)
  · exact HugePool.isEntry_entry (by decide) (by decide) (hfits _ (List.mem_cons_of_mem _ List.mem_cons_self))

/-- A gigabyte and eight megabytes, from a line that counts four pages. -/
theorem systemValue_hugePages_twoSizes :
    exactNodes.systemValue twoSizesFile 0
      ["Node".toList, ['0'], HugeCount.total.token, decimal (HugeCount.total.of ⟨2048, 4, 1, 0⟩)] = 1032 := by
  have hinfo : updateHugepagesInfo (some twoSizesDir) HugeCount.total.token =
      some (twoSizesFile.updateHugepagesInfo (exactNodes.nodeIxMap.getD 0 0) HugeCount.total.token) := by
    have htotal := updateHugepagesInfo_eq (D := ℚ) hugeDir_twoSizes HugeCount.total
    have hfile : twoSizesFile.updateHugepagesInfo (exactNodes.nodeIxMap.getD 0 0) HugeCount.total.token =
        (updateHugepagesInfo (some twoSizesDir) HugeCount.total.token).getD 0 := rfl
    rw [hfile, htotal, Option.getD_some]
  have hlast : ⟨2048, 4, 1, 0⟩ ∈ twoSizes := List.mem_cons_of_mem _ List.mem_cons_self
  rw [Numastat.systemValue_hugePages exactNodes twoSizesFile HugeCount.total rfl rfl hugeDir_twoSizes hlast hinfo]
  norm_num [twoSizes, HugeCount.bytes, HugeCount.of, megabyte]

end Numactl
