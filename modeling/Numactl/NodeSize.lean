import Numactl.Base.LineBuffer
import Numactl.Base.NumberList
import Numactl.MapsLines

/-! The memory of a node (`numa_node_size64` in `libnuma.c`), read from the file `meminfo` of the node: each line with a
unit is searched for a name, and the number is found by going back from the unit. -/

namespace Numactl

open CString
open NumberList (readNumber)

/-! ### The lines -/

/-- The unit is found in either case. -/
def strcasestr (s pattern : List Char) : Option (List Char) :=
  (strstr (s.map Char.toLower) (pattern.map Char.toLower)).map fun t => s.drop (s.length - t.length)

/-- `while (s > line && p(*s)) --s;`, from the place `i`. -/
def backWhile (p : Char → Bool) (line : List Char) : Nat → Nat
  | 0 => 0
  | i + 1 => if p (line.getD (i + 1) ' ') then backWhile p line i else i + 1

/-- Where the number in front of the unit begins, or a place before it; the unit is not at the beginning of the line. -/
def numberPlace (line unit : List Char) : Nat :=
  backWhile isdigit line (backWhile isspace line (line.length - unit.length - 1))

/-- The number, in bytes; -1 where there is none. -/
def bytesAt (s : List Char) : Int × Nat :=
  match readNumber s with
  | none => (-1, 0)
  | some (v, _) => ((BitVec.ofNat 64 v <<< 10).toInt, 1)

/-- The variables of `numa_node_size64`. -/
structure NodeSize where
  size : Int
  free : Int
  ok : Nat
  deriving DecidableEq

/-- One line; `none` where the number is looked for in front of the line. -/
def sizeLine (freep : Bool) (st : NodeSize) (line : List Char) : Option NodeSize :=
  match strcasestr line "kB".toList with
  | none => some st
  | some unit =>
      let total := (strstr line "MemTotal".toList).isSome
      let free := freep && (strstr line "MemFree".toList).isSome
      if unit.length = line.length ∧ (total || free) = true then none
      else
        let number := bytesAt (line.drop (numberPlace line unit))
        let st := if total then { st with size := number.1, ok := st.ok + number.2 } else st
        some (if free then { st with free := number.1, ok := st.ok + number.2 } else st)

/-- The lines as `getdelim` gives them, with their ends. -/
def delimLines (s : List Char) : List (List Char) := LineBuffer.buffers '\n' s.length s

/-- `numa_node_size64`, with or without a place for the free memory: the variables, and whether it warns. -/
def numaNodeSize64 (meminfo : Option (List Char)) (freep : Bool) : Option (NodeSize × Bool) :=
  match meminfo with
  | none => some (⟨-1, 0, 0⟩, false)
  | some s => do
      let st ← (delimLines s).foldlM (sizeLine freep) ⟨-1, 0, 0⟩
      return (st, decide (st.ok ≠ if freep then 2 else 1))

/-! ### Lines of the kernel -/

/-- A line of `meminfo`: what is in front of the number, with the name, the number, and whether a unit follows. -/
structure MeminfoLine where
  label : List Char
  value : Nat
  unit : Bool

namespace MeminfoLine

def text (l : MeminfoLine) : List Char :=
  l.label ++ ' ' :: (decimal l.value ++ if l.unit then " kB".toList else [])

/-- The label has no unit in it and is on one line, and the number is one of `strtoull`. -/
structure Clean (l : MeminfoLine) : Prop where
  newline : '\n' ∉ l.label
  unit : ¬"kb".toList <:+: l.label.map Char.toLower
  value_lt : l.value < 2 ^ 64

/-- The line counts for a name. -/
def Names (name : List Char) (l : MeminfoLine) : Bool := l.unit && (strstr l.label name).isSome

/-- The number in bytes. -/
def bytes (l : MeminfoLine) : Int := (BitVec.ofNat 64 l.value <<< 10).toInt

end MeminfoLine

theorem isSome_strstr_iff {s p : List Char} : (strstr s p).isSome = true ↔ p <:+: s := by
  constructor
  · intro h
    obtain ⟨t, ht⟩ := Option.isSome_iff_exists.mp h
    rw [strstr] at ht
    have hprefix := List.isPrefixOf_iff_prefix.mp (List.find?_some ht)
    exact hprefix.isInfix.trans ((List.mem_tails t s).mp (List.mem_of_find?_eq_some ht)).isInfix
  · intro h
    by_contra hnone
    have hsearch := List.find?_eq_none.mp (Option.not_isSome_iff_eq_none.mp hnone)
    obtain ⟨pre, post, rfl⟩ := h
    apply hsearch (p ++ post)
    · rw [List.mem_tails, List.append_assoc]
      exact List.suffix_append pre (p ++ post)
    · exact List.isPrefixOf_iff_prefix.mpr (List.prefix_append p post)

/-- A text without the separator is on one side of it. -/
theorem isSome_strstr_append {p w s : List Char} {d : Char} (hd : d ∉ p) :
    (strstr (w ++ d :: s) p).isSome = ((strstr w p).isSome || (strstr s p).isSome) := by
  by_cases hw : p <:+: w
  · have hboth : p <:+: w ++ d :: s := hw.trans (List.prefix_append w (d :: s)).isInfix
    rw [isSome_strstr_iff.mpr hw, isSome_strstr_iff.mpr hboth, Bool.true_or]
  · rw [strstr_skip hd hw, strstr_eq_none hw, Option.isSome_none, Bool.false_or]

/-! ### One line -/

theorem backWhile_eq {p : Char → Bool} {line : List Char} {i j : Nat} (hij : j ≤ i)
    (hall : ∀ k, j < k → k ≤ i → p (line.getD k ' ') = true) (hstop : p (line.getD j ' ') = false) :
    backWhile p line i = j := by
  induction i with
  | zero => exact (Nat.le_zero.mp hij).symm
  | succ i ih =>
      rw [backWhile]
      by_cases hlast : j = i + 1
      · rw [← hlast, hstop]
        rfl
      · rw [if_pos (hall (i + 1) (by omega) (Nat.le_refl _))]
        exact ih (by omega) fun k hk hki => hall k hk (by omega)

theorem toLower_of_digit {c : Char} (h : isDigitOf 10 c = true) : c.toLower = c := by
  refine dif_neg ?_
  rintro ⟨hA, hZ⟩
  have hval : ∀ d, digitVal c = some d → 10 ≤ d := by
    intro d hd
    have halpha : isalpha c = true := by
      have hrange : 'A' ≤ c ∧ c ≤ 'Z' := ⟨hA, hZ⟩
      simp [isalpha, hrange]
    obtain ⟨d', hd', hle⟩ := digitVal_of_isalpha halpha
    rw [hd'] at hd
    exact Option.some.inj hd ▸ hle
  rw [isDigitOf, Option.any_eq_true] at h
  obtain ⟨d, hd, hlt⟩ := h
  exact absurd (of_decide_eq_true hlt) (Nat.not_lt.mpr (hval d hd))

theorem isspace_of_mem_decimal {n : Nat} {c : Char} (h : c ∈ decimal n) : isspace c = false := by
  rw [Bool.eq_false_iff]
  intro hspace
  have hdigit := isDigitOf_decimal c h
  rw [isDigitOf_eq_false (digitVal_of_isspace hspace)] at hdigit
  cases hdigit

namespace MeminfoLine

variable {l : MeminfoLine}

theorem map_toLower_decimal (n : Nat) : (decimal n).map Char.toLower = decimal n := by
  rw [List.map_congr_left fun c hc => toLower_of_digit (isDigitOf_decimal c hc)]
  exact List.map_id' _

theorem not_unit_infix_decimal (n : Nat) : ¬"kb".toList <:+: decimal n := fun h =>
  absurd (isDigitOf_decimal 'k' (h.subset (by decide))) (by decide)

/-- The unit of a line that has one is found behind the number. -/
theorem strcasestr_text (hclean : l.Clean) :
    strcasestr (l.text ++ ['\n']) "kB".toList = if l.unit then some "kB\n".toList else none := by
  have hlower : (l.text ++ ['\n']).map Char.toLower = l.label.map Char.toLower ++ ' ' ::
      (decimal l.value ++ if l.unit then " kb\n".toList else ['\n']) := by
    rw [text, List.map_append, List.map_append, List.map_cons, List.map_append, map_toLower_decimal]
    cases l.unit with
    | false => simp
    | true => simp
  have hskip : strstr ((l.text ++ ['\n']).map Char.toLower) "kb".toList =
      strstr (decimal l.value ++ if l.unit then " kb\n".toList else ['\n']) "kb".toList := by
    rw [hlower]
    exact strstr_skip (by decide) hclean.unit
  rw [strcasestr, show "kB".toList.map Char.toLower = "kb".toList from rfl, hskip]
  cases hunit : l.unit with
  | false =>
      have hnone : strstr (decimal l.value ++ '\n' :: []) "kb".toList = strstr [] "kb".toList :=
        strstr_skip (by decide) (not_unit_infix_decimal l.value)
      rw [if_neg Bool.false_ne_true, if_neg Bool.false_ne_true, hnone]
      rfl
  | true =>
      have hfound : strstr (decimal l.value ++ ' ' :: "kb\n".toList) "kb".toList = some "kb\n".toList :=
        (strstr_skip (by decide) (not_unit_infix_decimal l.value)).trans rfl
      have htext : l.text ++ ['\n'] = (l.label ++ ' ' :: (decimal l.value ++ [' '])) ++ "kB\n".toList := by
        simp [text, hunit]
      rw [if_pos rfl, if_pos rfl, show " kb\n".toList = ' ' :: "kb\n".toList from rfl, hfound, Option.map_some, htext,
        List.length_append, show "kb\n".toList.length = "kB\n".toList.length from rfl, Nat.add_sub_cancel,
        List.drop_left]

theorem getD_text (hunit : l.unit = true) (i : Nat) (hi : i ≤ (decimal l.value).length + 1) :
    (l.text ++ ['\n']).getD (l.label.length + i) ' ' = (' ' :: (decimal l.value ++ [' '])).getD i ' ' := by
  have htext : l.text ++ ['\n'] = l.label ++ ((' ' :: (decimal l.value ++ [' '])) ++ "kB\n".toList) := by
    simp [text, hunit]
  rw [htext, List.getD_append_right _ _ _ _ (Nat.le_add_right _ _), Nat.add_sub_cancel_left, List.getD_append]
  simp only [List.length_cons, List.length_append, List.length_nil]
  omega

theorem length_text (hunit : l.unit = true) :
    (l.text ++ ['\n']).length = l.label.length + (decimal l.value).length + 5 := by
  rw [text, hunit, if_pos rfl, List.length_append, List.length_append, List.length_cons, List.length_append]
  rfl

/-- Going back from the unit leads to the space in front of the number. -/
theorem numberPlace_text (hunit : l.unit = true) : numberPlace (l.text ++ ['\n']) "kB\n".toList = l.label.length := by
  have hpos : 0 < (decimal l.value).length := List.length_pos_of_ne_nil (decimal_ne_nil l.value)
  have hlen : (l.text ++ ['\n']).length - "kB\n".toList.length - 1 = l.label.length + ((decimal l.value).length + 1) := by
    rw [length_text hunit, show "kB\n".toList.length = 3 from rfl]
    omega
  have hdigit (i : Nat) (hi : 0 < i) (hle : i ≤ (decimal l.value).length) :
      (l.text ++ ['\n']).getD (l.label.length + i) ' ' ∈ decimal l.value := by
    obtain ⟨j, rfl⟩ := Nat.exists_eq_succ_of_ne_zero (Nat.ne_of_gt hi)
    have hj : j < (decimal l.value).length := hle
    rw [getD_text hunit _ (by omega), List.getD_cons_succ, List.getD_append _ _ _ _ hj, List.getD_eq_getElem _ _ hj]
    exact List.getElem_mem hj
  have hspaces : backWhile isspace (l.text ++ ['\n']) (l.label.length + ((decimal l.value).length + 1)) =
      l.label.length + (decimal l.value).length := by
    apply backWhile_eq (Nat.add_le_add_left (Nat.le_succ _) _)
    · intro k hk hle
      obtain rfl : k = l.label.length + ((decimal l.value).length + 1) := by omega
      rw [getD_text hunit _ (Nat.le_refl _), List.getD_cons_succ, List.getD_append_right _ _ _ _ (Nat.le_refl _),
        Nat.sub_self]
      rfl
    · exact isspace_of_mem_decimal (hdigit _ hpos (Nat.le_refl _))
  rw [numberPlace, hlen, hspaces]
  apply backWhile_eq (Nat.le_add_right _ _)
  · intro k hk hle
    obtain ⟨i, rfl⟩ := Nat.exists_eq_add_of_lt hk
    exact isdigit_of_mem_decimal (hdigit (i + 1) (Nat.succ_pos i) (by omega))
  · rw [show l.label.length = l.label.length + 0 from rfl, getD_text hunit 0 (Nat.zero_le _)]
    rfl

/-- The number of the line is read, in bytes. -/
theorem bytesAt_text (hunit : l.unit = true) (hclean : l.Clean) :
    bytesAt ((l.text ++ ['\n']).drop l.label.length) = (l.bytes, 1) := by
  have htext : l.text ++ ['\n'] = l.label ++ ((' ' :: decimal l.value) ++ ' ' :: "kB\n".toList) := by
    simp [text, hunit]
  have hread : readNumber ((' ' :: decimal l.value) ++ ' ' :: "kB\n".toList) =
      some (l.value, ' ' :: "kB\n".toList) := by
    apply NumberList.readNumber_append ((NumberList.numeral_decimal hclean.value_lt).cons_space (by decide))
    intro c hc
    obtain rfl := Option.some.inj hc
    decide
  rw [htext, List.drop_left, bytesAt, hread]
  rfl

/-- A name is in a line if it is in the label. -/
theorem isSome_strstr_text {name : List Char} (hname : ∀ c ∈ name, c ≠ ' ' ∧ c ≠ '\n' ∧ isdigit c = false) (hne : name ≠ [])
    (hkb : ¬name <:+: "kB".toList) : (strstr (l.text ++ ['\n']) name).isSome = (strstr l.label name).isSome := by
  have hspace : ' ' ∉ name := fun h => (hname ' ' h).1 rfl
  have hnewline : '\n' ∉ name := fun h => (hname '\n' h).2.1 rfl
  have hdigits : (strstr (decimal l.value) name).isSome = false := by
    rw [Bool.eq_false_iff, ne_eq, isSome_strstr_iff]
    intro hwithin
    obtain ⟨c, hc⟩ := List.exists_mem_of_ne_nil name hne
    have hdigit := isdigit_of_mem_decimal (hwithin.subset hc)
    rw [(hname c hc).2.2] at hdigit
    cases hdigit
  have hnil : (strstr [] name).isSome = false := by
    rw [Bool.eq_false_iff, ne_eq, isSome_strstr_iff]
    exact fun h => hne (List.eq_nil_of_infix_nil h)
  have hunit : (strstr "kB".toList name).isSome = false := by
    rw [Bool.eq_false_iff, ne_eq, isSome_strstr_iff]
    exact hkb
  cases h : l.unit with
  | false =>
      have htext : l.text ++ ['\n'] = l.label ++ ' ' :: (decimal l.value ++ '\n' :: []) := by simp [text, h]
      rw [htext, isSome_strstr_append hspace, isSome_strstr_append hnewline, hdigits, hnil, Bool.or_false, Bool.or_false]
  | true =>
      have htext : l.text ++ ['\n'] = l.label ++ ' ' :: (decimal l.value ++ ' ' :: ("kB".toList ++ '\n' :: [])) := by
        simp [text, h]
      rw [htext, isSome_strstr_append hspace, isSome_strstr_append hspace, isSome_strstr_append hnewline, hdigits, hunit,
        hnil, Bool.or_false, Bool.or_false, Bool.or_false]

/-- What a line does to the variables. -/
def after (freep : Bool) (st : NodeSize) (l : MeminfoLine) : NodeSize where
  size := if l.Names "MemTotal".toList then l.bytes else st.size
  free := if freep && l.Names "MemFree".toList then l.bytes else st.free
  ok := st.ok + (if l.Names "MemTotal".toList then 1 else 0) + if freep && l.Names "MemFree".toList then 1 else 0

theorem sizeLine_text (hclean : l.Clean) (freep : Bool) (st : NodeSize) :
    sizeLine freep st (l.text ++ ['\n']) = some (l.after freep st) := by
  have htotal : (strstr (l.text ++ ['\n']) "MemTotal".toList).isSome = (strstr l.label "MemTotal".toList).isSome :=
    isSome_strstr_text (forall_mem_of_all (by decide)) (by decide) (by decide)
  have hfree : (strstr (l.text ++ ['\n']) "MemFree".toList).isSome = (strstr l.label "MemFree".toList).isSome :=
    isSome_strstr_text (forall_mem_of_all (by decide)) (by decide) (by decide)
  rw [sizeLine, strcasestr_text hclean]
  cases hunit : l.unit with
  | false =>
      rw [if_neg Bool.false_ne_true]
      simp [after, Names, hunit]
  | true =>
      have hlong : ¬"kB\n".toList.length = (l.text ++ ['\n']).length := by
        have hpos : 0 < (decimal l.value).length := List.length_pos_of_ne_nil (decimal_ne_nil l.value)
        rw [length_text hunit, show "kB\n".toList.length = 3 from rfl]
        omega
      rw [if_pos rfl]
      dsimp only
      rw [if_neg fun h => hlong h.1, numberPlace_text hunit, bytesAt_text hunit hclean, htotal, hfree]
      simp only [after, Names, hunit, Bool.true_and]
      cases (strstr l.label "MemTotal".toList).isSome <;> cases freep <;>
        cases (strstr l.label "MemFree".toList).isSome <;> rfl

end MeminfoLine

/-! ### The file -/

/-- The number of the last line that counts for a name. -/
def lastBytes (d : Int) (name : List Char) (ls : List MeminfoLine) : Int :=
  ((ls.filter (MeminfoLine.Names name)).getLast?).elim d MeminfoLine.bytes

theorem lastBytes_concat (d : Int) (name : List Char) (ls : List MeminfoLine) (l : MeminfoLine) :
    lastBytes d name (ls ++ [l]) = if l.Names name then l.bytes else lastBytes d name ls := by
  rw [lastBytes, List.filter_append]
  by_cases h : l.Names name = true
  · rw [if_pos h, List.filter_cons_of_pos h, List.filter_nil, List.getLast?_concat]
    rfl
  · rw [if_neg h, List.filter_cons_of_neg h, List.filter_nil, List.append_nil]
    rfl

/-- The lines read one after the other. -/
theorem foldl_after (freep : Bool) (ls : List MeminfoLine) :
    ls.foldl (fun st l => l.after freep st) ⟨-1, 0, 0⟩ =
      { size := lastBytes (-1) "MemTotal".toList ls
        free := if freep then lastBytes 0 "MemFree".toList ls else 0
        ok := ls.countP (MeminfoLine.Names "MemTotal".toList) +
          if freep then ls.countP (MeminfoLine.Names "MemFree".toList) else 0 } := by
  induction ls using List.reverseRecOn with
  | nil => cases freep <;> rfl
  | append_singleton ls l ih =>
      rw [List.foldl_append, List.foldl_cons, List.foldl_nil, ih, MeminfoLine.after, lastBytes_concat, lastBytes_concat,
        List.countP_append, List.countP_append, List.countP_singleton, List.countP_singleton]
      cases freep with
      | false => rfl
      | true => exact congrArg (NodeSize.mk _ _) ((Nat.add_assoc _ _ _).trans (Nat.add_add_add_comm _ _ _ _))

/-- The text of a file of such lines. -/
def meminfoText (ls : List MeminfoLine) : List Char := LineBuffer.joinLines '\n' (ls.map MeminfoLine.text)

theorem delimLines_meminfoText {ls : List MeminfoLine} (hclean : ∀ l ∈ ls, l.Clean) :
    delimLines (meminfoText ls) = ls.map fun l => l.text ++ ['\n'] := by
  have hnewline : ∀ line ∈ ls.map MeminfoLine.text, '\n' ∉ line := by
    intro line hline
    obtain ⟨l, hl, rfl⟩ := List.mem_map.mp hline
    have hlabel := (hclean l hl).newline
    have hdigits : '\n' ∉ decimal l.value := fun h => absurd (isDigitOf_decimal '\n' h) (by decide)
    unfold MeminfoLine.text
    cases l.unit <;> simp [hlabel, hdigits]
  have hlength : ∀ lines : List (List Char), ∀ line ∈ lines, line.length < (LineBuffer.joinLines '\n' lines).length := by
    intro lines
    induction lines with
    | nil => exact fun line hline => absurd hline List.not_mem_nil
    | cons line lines ih =>
        rw [List.forall_mem_cons, LineBuffer.joinLines, List.length_append, List.length_cons]
        exact ⟨by omega, fun line' hline' => by have := ih line' hline'; omega⟩
  cases ls with
  | nil => rfl
  | cons l ls =>
      have hpos : 0 < (meminfoText (l :: ls)).length :=
        Nat.zero_lt_of_lt (hlength _ l.text (List.mem_map_of_mem List.mem_cons_self))
      generalize hsize : (meminfoText (l :: ls)).length = size at hpos
      rw [delimLines, hsize, meminfoText, LineBuffer.buffers_joinLines hpos hnewline, List.flatMap_map,
        List.map_eq_flatMap]
      apply List.flatMap_congr
      intro l' hl'
      have hmem := List.mem_map_of_mem (f := MeminfoLine.text) hl'
      exact LineBuffer.buffers_line (hnewline _ hmem) [] (hsize ▸ hlength _ _ hmem)

/-- The size of a node is the number of the last line with its name, and so is the free memory; the call warns unless
there is one line for each of those asked for. -/
theorem numaNodeSize64_meminfoText {ls : List MeminfoLine} (hclean : ∀ l ∈ ls, l.Clean) (freep : Bool) :
    numaNodeSize64 (some (meminfoText ls)) freep = some
      ({ size := lastBytes (-1) "MemTotal".toList ls
         free := if freep then lastBytes 0 "MemFree".toList ls else 0
         ok := ls.countP (MeminfoLine.Names "MemTotal".toList) +
          if freep then ls.countP (MeminfoLine.Names "MemFree".toList) else 0 },
        decide (ls.countP (MeminfoLine.Names "MemTotal".toList) +
          (if freep then ls.countP (MeminfoLine.Names "MemFree".toList) else 0) ≠ if freep then 2 else 1)) := by
  have hfold : (ls.map fun l => l.text ++ ['\n']).foldlM (sizeLine freep) ⟨-1, 0, 0⟩ =
      some (ls.foldl (fun st l => l.after freep st) ⟨-1, 0, 0⟩) := by
    generalize (⟨-1, 0, 0⟩ : NodeSize) = st
    induction ls generalizing st with
    | nil => rfl
    | cons l ls ih =>
        rw [List.forall_mem_cons] at hclean
        rw [List.map_cons, List.foldlM_cons, MeminfoLine.sizeLine_text hclean.1, List.foldl_cons]
        exact ih hclean.2 _
  rw [numaNodeSize64, delimLines_meminfoText hclean, hfold, foldl_after]
  rfl

end Numactl
