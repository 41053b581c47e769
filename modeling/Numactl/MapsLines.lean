import Mathlib.Algebra.Order.Field.Basic
import Mathlib.Data.List.Infix
import Numactl.Base.LineBuffer
import Numactl.Numastat

/-! The lines of a file `numa_maps` (`show_process_info` in `numastat.c`): words with blanks between them, some of
them keywords for a category of memory, some with the pages on a node, and one with the page size. A line that is
read in one piece gives an entry for each word with pages, at the category and the page size of the whole line. -/

namespace Numactl

open CString (Decimal strtol forall_mem_of_all)

/-- The delimiters given to `strtok`. -/
def isDelimiter (c : Char) : Bool := " \t\r\n".toList.contains c

/-- A word of a line: one with a meaning only for other readers, a keyword that may be continued, the pages on a
node, or the size of the pages. -/
inductive MapsWord where
  | plain (text : List Char)
  | keyword (category : Fin processPrivateIndex) (more : List Char)
  | pages (node count : Decimal)
  | pageSize (kB : Decimal)

namespace MapsWord

def text : MapsWord → List Char
  | plain text => text
  | keyword category more => (processMeminfo.getD category ([], [])).1 ++ more
  | pages node count => 'N' :: (node.digits ++ '=' :: count.digits)
  | pageSize kB => vmPgszStr ++ kB.digits

def category? : MapsWord → Option Nat
  | keyword category _ => some category
  | _ => none

def kilobytes? : MapsWord → Option Nat
  | pageSize kB => some kB.value
  | _ => none

def isPages : MapsWord → Bool
  | pages _ _ => true
  | _ => false

end MapsWord

/-- Words with a blank before each. -/
def spaced (ws : List MapsWord) : List Char := ws.flatMap fun w => ' ' :: w.text

/-- A line without its end. -/
def lineText : List MapsWord → List Char
  | [] => []
  | w :: ws => w.text ++ spaced ws

/-- The category of the first keyword of a line. -/
def lineCategory (ws : List MapsWord) : Nat := (ws.findSome? MapsWord.category?).getD processPrivateIndex

namespace Numastat

variable {D : Type}

/-- The word is none that can be taken for another, its node is in `node_ix_map`, and its numbers fit their types. -/
def WellFormed (stat : Numastat D) : MapsWord → Prop
  | .plain text => text ≠ [] ∧ (∀ c ∈ text, isDelimiter c = false) ∧ text.head? ≠ some 'N' ∧
      (∀ entry ∈ processMeminfo.take processPrivateIndex, ¬entry.1 <+: text) ∧ ¬vmPgszStr <:+: text
  | .keyword category more =>
      (∀ c ∈ more, isDelimiter c = false) ∧ ¬vmPgszStr <:+: (MapsWord.keyword category more).text
  | .pages node count => node.value ∈ stat.nodeIxMap ∧ node.value < 2 ^ 31 ∧ count.value < 2 ^ 63
  | .pageSize kB => 0 < kB.value ∧ kB.value < 2 ^ 63

/-- A line as the kernel writes it: its keywords stand before the pages. -/
structure KernelLine (stat : Numastat D) (ws : List MapsWord) : Prop where
  wellFormed : ∀ w ∈ ws, stat.WellFormed w
  keywords_first : ws.Pairwise fun w w' => w.isPages = true → w'.category? = none

variable [Field D]

/-- The page size of a category. -/
def categoryPagesz (stat : Numastat D) (category : Nat) : D :=
  if category = processHugeIndex then stat.hugePageSizeInBytes else stat.pageSizeInBytes

/-- The page size given in a line, or else that of its category. -/
def lineSize (stat : Numastat D) (ws : List MapsWord) : D :=
  match ws.findSome? MapsWord.kilobytes? with
  | some kB => (kB : D) * (kilobyte : D)
  | none => stat.categoryPagesz (lineCategory ws)

/-- The entry of a word with pages, in megabytes. -/
def pagesEntry (stat : Numastat D) (category : Nat) (size : D) : MapsWord → Option (Entry D)
  | .pages node count =>
      some ⟨category, stat.nodeIxMap.idxOf node.value, (count.value : D) * size / (megabyte : D)⟩
  | _ => none

/-- What a line stands for. -/
def lineEntries (stat : Numastat D) (ws : List MapsWord) : List (Entry D) :=
  ws.filterMap (stat.pagesEntry (lineCategory ws) (stat.lineSize ws))

end Numastat

/-! ### The words of a line -/

section Words

variable {isDelim : Char → Bool}

theorem strtokWords_of_delimiter {c : Char} (hc : isDelim c = true) (s : List Char) :
    strtokWords isDelim (c :: s) = strtokWords isDelim s := by
  cases s with
  | nil => exact if_pos hc
  | cons d s => rw [strtokWords, if_pos hc]

/-- A word ends at a delimiter or at the end of the text. -/
theorem strtokWords_append {w s : List Char} (hne : w ≠ []) (hw : ∀ c ∈ w, isDelim c = false)
    (hs : ∀ c, s.head? = some c → isDelim c = true) :
    strtokWords isDelim (w ++ s) = w :: strtokWords isDelim s := by
  induction w with
  | nil => exact absurd rfl hne
  | cons c w ih =>
      rw [List.forall_mem_cons] at hw
      have hc : ¬isDelim c = true := Bool.eq_false_iff.mp hw.1
      cases w with
      | nil =>
          cases s with
          | nil => exact if_neg hc
          | cons d s =>
              rw [List.cons_append, List.nil_append, strtokWords, if_neg hc]
              cases strtokWords isDelim (d :: s) with
              | nil => rfl
              | cons v vs => exact if_pos (hs d rfl)
      | cons d w =>
          have hrest := ih (List.cons_ne_nil d w) hw.2
          rw [List.cons_append] at hrest
          rw [List.cons_append, List.cons_append, strtokWords, if_neg hc, hrest]
          exact if_neg (Bool.eq_false_iff.mp (hw.2 d List.mem_cons_self))

end Words

/-! ### Finding a text in a line -/

section Find

variable {p : List Char}

theorem strstr_cons (c : Char) (s : List Char) :
    strstr (c :: s) p = if p.isPrefixOf (c :: s) then some (c :: s) else strstr s p := by
  rw [strstr, List.tails_cons, List.find?_cons]
  cases p.isPrefixOf (c :: s) with
  | false => rfl
  | true => rfl

theorem strstr_self_append (s : List Char) : strstr (p ++ s) p = some (p ++ s) := by
  have hprefix : p.isPrefixOf (p ++ s) = true := List.isPrefixOf_iff_prefix.mpr (List.prefix_append p s)
  cases hs : p ++ s with
  | nil =>
      rw [hs] at hprefix
      exact List.find?_cons_of_pos hprefix
  | cons c t =>
      rw [hs] at hprefix
      rw [strstr_cons, if_pos hprefix]

/-- A beginning without a character ends before the character. -/
theorem prefix_of_prefix_append {w s : List Char} {d : Char} (hd : d ∉ p) (h : p <+: w ++ d :: s) : p <+: w := by
  have hword : w ++ [d] <+: w ++ d :: s := (List.prefix_append_right_inj w).mpr ⟨s, rfl⟩
  by_cases hlen : p.length ≤ w.length
  · exact List.prefix_of_prefix_length_le h (List.prefix_append w _) hlen
  · have hlonger : (w ++ [d]).length ≤ p.length := by
      rw [List.length_append, List.length_singleton]
      omega
    have hmem := (List.prefix_of_prefix_length_le hword h hlonger).subset
      (List.mem_append_right w (List.mem_singleton_self d))
    exact absurd hmem hd

/-- A word that does not contain the text is skipped. -/
theorem strstr_skip {w s : List Char} {d : Char} (hd : d ∉ p) (hw : ¬p <:+: w) :
    strstr (w ++ d :: s) p = strstr s p := by
  have hnot : ∀ w, ¬p <:+: w → ¬p.isPrefixOf (w ++ d :: s) = true := fun w hw hprefix =>
    hw (prefix_of_prefix_append hd (List.isPrefixOf_iff_prefix.mp hprefix)).isInfix
  induction w with
  | nil => exact (strstr_cons d s).trans (if_neg (hnot [] hw))
  | cons c w ih =>
      have hrest : ¬p <:+: w := fun h => hw (h.trans (List.infix_cons_iff.mpr (Or.inr (List.infix_refl w))))
      exact (strstr_cons c _).trans ((if_neg (hnot (c :: w) hw)).trans (ih hrest))

theorem strstr_eq_none {w : List Char} (hw : ¬p <:+: w) : strstr w p = none := by
  rw [strstr, List.find?_eq_none]
  intro t ht hprefix
  exact hw ((List.isPrefixOf_iff_prefix.mp hprefix).isInfix.trans ((List.mem_tails t w).mp ht).isInfix)

end Find

/-! ### The words of a line are read back -/

section Texts

variable {D : Type} {stat : Numastat D} {w : MapsWord} {ws : List MapsWord}

theorem isspace_of_isDelimiter {c : Char} (h : isDelimiter c = true) : CString.isspace c = true := by
  rw [isDelimiter, List.contains_eq_mem, decide_eq_true_eq] at h
  have hcases : c = ' ' ∨ c = '\t' ∨ c = '\r' ∨ c = '\n' := by simpa using h
  rcases hcases with rfl | rfl | rfl | rfl <;> decide

theorem isDelimiter_of_digit {c : Char} (h : CString.isDigitOf 10 c = true) : isDelimiter c = false := by
  by_contra hdelim
  rw [CString.isDigitOf_eq_false (CString.digitVal_of_isspace
    (isspace_of_isDelimiter (Bool.not_eq_false _ ▸ hdelim)))] at h
  cases h

/-- There are no delimiters in a word. -/
theorem not_isDelimiter_of_mem (h : stat.WellFormed w) : ∀ c ∈ w.text, isDelimiter c = false := by
  cases w with
  | plain text => exact h.2.1
  | keyword category more =>
      have htoken : ∀ category : Fin processPrivateIndex,
          ((processMeminfo.getD category ([], [])).1.all fun c => decide (isDelimiter c = false)) = true := by decide
      exact List.forall_mem_append.mpr ⟨forall_mem_of_all (htoken category), h.1⟩
  | pages node count =>
      refine List.forall_mem_cons.mpr ⟨by decide, List.forall_mem_append.mpr ⟨?_, ?_⟩⟩
      · exact fun c hc => isDelimiter_of_digit (node.decimal c hc)
      · exact List.forall_mem_cons.mpr ⟨by decide, fun c hc => isDelimiter_of_digit (count.decimal c hc)⟩
  | pageSize kB =>
      refine List.forall_mem_append.mpr ⟨forall_mem_of_all (by decide), ?_⟩
      exact fun c hc => isDelimiter_of_digit (kB.decimal c hc)

theorem text_ne_nil (h : stat.WellFormed w) : w.text ≠ [] := by
  cases w with
  | plain text => exact h.1
  | keyword category more =>
      have htoken : ∀ category : Fin processPrivateIndex, (processMeminfo.getD category ([], [])).1 ≠ [] := by decide
      exact List.append_ne_nil_of_left_ne_nil (htoken category) more
  | pages node count => exact List.cons_ne_nil _ _
  | pageSize kB => exact List.append_ne_nil_of_left_ne_nil (by decide) kB.digits

/-- What stands behind the words of a line in a buffer: its end, if there is room for it. -/
def LineTail (tail : List Char) : Prop := tail = [] ∨ tail = ['\n']

theorem head_spaced {tail : List Char} (htail : LineTail tail) :
    ∀ c, (spaced ws ++ tail).head? = some c → isDelimiter c = true := by
  intro c hc
  cases ws with
  | nil =>
      rcases htail with rfl | rfl
      · cases hc
      · cases hc
        decide
  | cons w ws =>
      cases hc
      decide

theorem spaced_cons (w : MapsWord) (ws : List MapsWord) (tail : List Char) :
    spaced (w :: ws) ++ tail = ' ' :: (w.text ++ (spaced ws ++ tail)) := by
  rw [spaced, List.flatMap_cons, List.append_assoc]
  rfl

theorem strtokWords_spaced (hws : ∀ w ∈ ws, stat.WellFormed w) {tail : List Char} (htail : LineTail tail) :
    strtokWords isDelimiter (spaced ws ++ tail) = ws.map MapsWord.text := by
  induction ws with
  | nil =>
      rcases htail with rfl | rfl
      · rfl
      · exact strtokWords_of_delimiter (by decide) []
  | cons w ws ih =>
      rw [List.forall_mem_cons] at hws
      have hblank : isDelimiter ' ' = true := by decide
      rw [spaced_cons, strtokWords_of_delimiter hblank,
        strtokWords_append (text_ne_nil hws.1) (not_isDelimiter_of_mem hws.1) (head_spaced htail), ih hws.2]
      rfl

/-- The words of a line, with its end or without it. -/
theorem strtokWords_lineText (hws : ∀ w ∈ ws, stat.WellFormed w) {tail : List Char} (htail : LineTail tail) :
    strtokWords isDelimiter (lineText ws ++ tail) = ws.map MapsWord.text := by
  rw [← strtokWords_spaced hws htail]
  cases ws with
  | nil => rfl
  | cons w ws =>
      rw [spaced_cons, strtokWords_of_delimiter (by decide), lineText, List.append_assoc]

theorem newline_not_mem_lineText (hws : ∀ w ∈ ws, stat.WellFormed w) : '\n' ∉ lineText ws := by
  have hword : ∀ w, stat.WellFormed w → '\n' ∉ w.text := fun w hw hmem =>
    absurd (not_isDelimiter_of_mem hw _ hmem) (by decide)
  cases ws with
  | nil => exact List.not_mem_nil
  | cons w ws =>
      rw [List.forall_mem_cons] at hws
      rw [lineText, List.mem_append, spaced, List.mem_flatMap, not_or]
      refine ⟨hword w hws.1, ?_⟩
      rintro ⟨v, hv, hmem⟩
      exact hword v (hws.2 v hv) ((List.mem_cons.mp hmem).resolve_left (by decide))

end Texts

/-! ### The page size given in a line -/

section PageSize

open Numastat (linePagesz)

variable {D : Type} {stat : Numastat D} {w : MapsWord} {ws : List MapsWord}

/-- A text without a `k` does not contain the page size. -/
theorem not_vmPgszStr_infix {t : List Char} (ht : 'k' ∉ t) : ¬vmPgszStr <:+: t :=
  fun h => ht (h.subset (by decide))

theorem not_infix_of_kilobytes?_eq_none (h : stat.WellFormed w) (hnone : w.kilobytes? = none) :
    ¬vmPgszStr <:+: w.text := by
  cases w with
  | plain text => exact h.2.2.2.2
  | keyword category more => exact h.2
  | pages node count =>
      have hdigits : ∀ d : Decimal, 'k' ∉ d.digits := fun d hmem => absurd (d.decimal _ hmem) (by decide)
      apply not_vmPgszStr_infix
      rw [MapsWord.text, List.mem_cons, List.mem_append, List.mem_cons, not_or, not_or, not_or]
      exact ⟨by decide, hdigits node, by decide, hdigits count⟩
  | pageSize kB => cases hnone

theorem delimiter_notMem_vmPgszStr {d : Char} (hd : isDelimiter d = true) : d ∉ vmPgszStr := by
  have hfree : ∀ c ∈ vmPgszStr, isDelimiter c = false := forall_mem_of_all (by decide)
  exact fun hmem => absurd ((hfree d hmem).symm.trans hd) Bool.false_ne_true

theorem strstr_delimiter {d : Char} (hd : isDelimiter d = true) (s : List Char) :
    strstr (d :: s) vmPgszStr = strstr s vmPgszStr := by
  have hnil : ¬vmPgszStr <:+: [] := by decide
  exact strstr_skip (delimiter_notMem_vmPgszStr hd) hnil

theorem strstr_append_of_delimiter {t s : List Char} (ht : ¬vmPgszStr <:+: t)
    (hs : ∀ c, s.head? = some c → isDelimiter c = true) : strstr (t ++ s) vmPgszStr = strstr s vmPgszStr := by
  cases s with
  | nil =>
      rw [List.append_nil, strstr_eq_none ht]
      exact (strstr_eq_none (by decide)).symm
  | cons d s => rw [strstr_skip (delimiter_notMem_vmPgszStr (hs d rfl)) ht, strstr_delimiter (hs d rfl)]

variable [Field D]

/-- The page size found in a line is the first one given in it. -/
theorem linePagesz_spaced (hws : ∀ w ∈ ws, stat.WellFormed w) {tail : List Char} (htail : LineTail tail) :
    linePagesz D (spaced ws ++ tail) =
      match ws.findSome? MapsWord.kilobytes? with
      | some kB => (kB : D) * (kilobyte : D)
      | none => 0 := by
  induction ws with
  | nil =>
      have hnone : strstr tail vmPgszStr = none := by
        apply strstr_eq_none
        rcases htail with rfl | rfl
        · decide
        · decide
      rw [spaced, List.flatMap_nil, List.nil_append, linePagesz, hnone]
      rfl
  | cons w ws ih =>
      rw [List.forall_mem_cons] at hws
      have hhead := @head_spaced ws tail htail
      rw [List.findSome?_cons, spaced_cons, linePagesz, strstr_delimiter (by decide)]
      cases hkB : w.kilobytes? with
      | none =>
          rw [strstr_append_of_delimiter (not_infix_of_kilobytes?_eq_none hws.1 hkB) hhead]
          exact ih hws.2
      | some kB =>
          cases w with
          | pageSize kB' =>
              cases hkB
              have hrest : ∀ c, (spaced ws ++ tail).head? = some c → CString.isDigitOf 10 c = false := fun c hc =>
                CString.isDigitOf_eq_false (CString.digitVal_of_isspace (isspace_of_isDelimiter (hhead c hc))) 10
              rw [MapsWord.text, List.append_assoc, strstr_self_append]
              dsimp only
              rw [List.drop_left, CString.strtol_decimal hws.1.2 hrest, Int.cast_natCast]
          | plain text => cases hkB
          | keyword category more => cases hkB
          | pages node count => cases hkB

theorem linePagesz_lineText (hws : ∀ w ∈ ws, stat.WellFormed w) {tail : List Char} (htail : LineTail tail) :
    linePagesz D (lineText ws ++ tail) =
      match ws.findSome? MapsWord.kilobytes? with
      | some kB => (kB : D) * (kilobyte : D)
      | none => 0 := by
  rw [← linePagesz_spaced hws htail]
  cases ws with
  | nil => rfl
  | cons w ws =>
      rw [spaced_cons, lineText, List.append_assoc, linePagesz, linePagesz, strstr_delimiter (by decide)]

end PageSize

/-! ### The entries of a line -/

namespace Numastat

section Category

variable {D : Type} {stat : Numastat D} {w : MapsWord} {ws : List MapsWord}

/-- A word that begins with none of the tokens does not change the category. -/
theorem nextCategory_of_no_token (category : Nat) {p : List Char}
    (hp : ∀ entry ∈ processMeminfo.take processPrivateIndex, ¬entry.1 <+: p) : nextCategory category p = category := by
  have hnone : ((processMeminfo.take processPrivateIndex).findIdx? fun entry => entry.1.isPrefixOf p) = none := by
    rw [List.findIdx?_eq_none_iff]
    exact fun entry hentry => Bool.eq_false_iff.mpr fun h => hp entry hentry (List.isPrefixOf_iff_prefix.mp h)
  rw [nextCategory, hnone, ite_eq_right_iff]
  exact fun _ => rfl

/-- The tokens begin with an `h` or an `s`. -/
theorem no_token_of_head {c : Char} (hc : c ≠ 'h' ∧ c ≠ 's') (s : List Char) :
    ∀ entry ∈ processMeminfo.take processPrivateIndex, ¬entry.1 <+: c :: s := by
  have htoken : ∀ entry ∈ processMeminfo.take processPrivateIndex, entry.1 ≠ [] ∧
      (entry.1.head? = some 'h' ∨ entry.1.head? = some 's') := by decide
  intro entry hentry hprefix
  obtain ⟨rest, hrest⟩ := hprefix
  obtain ⟨hne, hhead⟩ := htoken entry hentry
  have hfirst := CString.head?_append_of_ne_nil hne rest
  rw [hrest] at hfirst
  rcases hhead with hhead | hhead
  · exact hc.1 (Option.some.inj (hfirst.trans hhead))
  · exact hc.2 (Option.some.inj (hfirst.trans hhead))

theorem nextCategory_keyword (category : Nat) (keyword : Fin processPrivateIndex) (more : List Char) :
    nextCategory category (MapsWord.keyword keyword more).text =
      if category = processPrivateIndex then keyword.val else category := by
  have hfind : ((processMeminfo.take processPrivateIndex).findIdx? fun entry =>
      entry.1.isPrefixOf (MapsWord.keyword keyword more).text) = some keyword.val := by
    obtain ⟨ix, hix⟩ := keyword
    match ix, hix with
    | 0, _ => rfl
    | 1, _ => rfl
    | 2, _ => rfl
  rw [nextCategory, hfind]
  rfl

/-- The category of a line once its first words have given it this one. -/
def categoryFrom (category : Nat) (ws : List MapsWord) : Nat :=
  if category = processPrivateIndex then lineCategory ws else category

theorem categoryFrom_of_none {category : Nat} (hws : ∀ w ∈ ws, w.category? = none) :
    categoryFrom category ws = category := by
  rw [categoryFrom, lineCategory, List.findSome?_eq_none_iff.mpr hws, ite_eq_right_iff]
  exact fun hprivate => hprivate.symm

theorem nextCategory_text (h : stat.WellFormed w) (category : Nat) :
    nextCategory category w.text = categoryFrom category [w] := by
  have hnone : w.category? = none → categoryFrom category [w] = category := fun hw =>
    categoryFrom_of_none (List.forall_mem_singleton.mpr hw)
  cases w with
  | plain text => exact (nextCategory_of_no_token category h.2.2.2.1).trans (hnone rfl).symm
  | keyword keyword more => exact nextCategory_keyword category keyword more
  | pages node count =>
      have hhead := no_token_of_head (show 'N' ≠ 'h' ∧ 'N' ≠ 's' by decide) (node.digits ++ '=' :: count.digits)
      exact (nextCategory_of_no_token category hhead).trans (hnone rfl).symm
  | pageSize kB =>
      have hhead := no_token_of_head (show 'k' ≠ 'h' ∧ 'k' ≠ 's' by decide) (vmPgszStr.tail ++ kB.digits)
      exact (nextCategory_of_no_token category hhead).trans (hnone rfl).symm

/-- The first keyword decides. -/
theorem categoryFrom_cons (category : Nat) (w : MapsWord) (ws : List MapsWord) :
    categoryFrom category (w :: ws) = categoryFrom (categoryFrom category [w]) ws := by
  by_cases hprivate : category = processPrivateIndex
  · rw [categoryFrom, if_pos hprivate, categoryFrom.eq_1 category, if_pos hprivate, lineCategory, lineCategory,
      List.findSome?_cons, List.findSome?_cons]
    cases w with
    | keyword keyword more => exact (if_neg keyword.isLt.ne).symm
    | plain text => exact (if_pos rfl).symm
    | pages node count => exact (if_pos rfl).symm
    | pageSize kB => exact (if_pos rfl).symm
  · have hsame : ∀ vs, categoryFrom category vs = category := fun vs => if_neg hprivate
    rw [hsame, hsame, hsame]

theorem intOfLong_of_lt {n : Nat} (h : n < 2 ^ 31) : intOfLong n = n := by
  rw [intOfLong, BitVec.toInt_ofInt]
  exact Int.bmod_eq_of_le (by omega) (by omega)

theorem findIdx?_node {node : Decimal} (hmem : node.value ∈ stat.nodeIxMap) (hlt : node.value < 2 ^ 31) :
    (stat.nodeIxMap.findIdx? fun n : Nat => (n : Int) = intOfLong node.value) =
      some (stat.nodeIxMap.idxOf node.value) := by
  have hsame : (fun n : Nat => decide ((n : Int) = intOfLong node.value)) = (· == node.value) := by
    funext n
    rw [intOfLong_of_lt hlt, Bool.eq_iff_iff, decide_eq_true_eq, beq_iff_eq, Int.natCast_inj]
  rw [hsame]
  exact List.findIdx?_eq_some_of_exists ⟨_, hmem, beq_self_eq_true _⟩

end Category

section Entries

variable {D : Type} [Field D] [LinearOrder D] {stat : Numastat D} {w : MapsWord} {ws : List MapsWord}

/-- The page size in effect where this one was found. -/
def effectiveSize (stat : Numastat D) (category : Nat) (vmPagesz : D) : D :=
  if vmPagesz = 0 then stat.categoryPagesz category else vmPagesz

theorem effectiveSize_effectiveSize (category : Nat) (vmPagesz : D) :
    stat.effectiveSize category (stat.effectiveSize category vmPagesz) = stat.effectiveSize category vmPagesz := by
  by_cases hzero : vmPagesz = 0
  · rw [effectiveSize, effectiveSize, if_pos hzero, ite_eq_right_iff]
    exact fun _ => rfl
  · have hsame : stat.effectiveSize category vmPagesz = vmPagesz := if_neg hzero
    rw [hsame, hsame]

/-- A word of a line gives its entry, if it has one, and perhaps decides the category or the page size. -/
theorem wordEntry_text (h : stat.WellFormed w) (category : Nat) (vmPagesz : D) :
    stat.wordEntry category vmPagesz w.text =
      .ok (stat.pagesEntry (categoryFrom category [w]) (stat.effectiveSize (categoryFrom category [w]) vmPagesz) w,
        categoryFrom category [w],
        if w.isPages then stat.effectiveSize (categoryFrom category [w]) vmPagesz else vmPagesz) := by
  rw [wordEntry, nextCategory_text h]
  dsimp only
  cases w with
  | plain text => exact if_neg h.2.2.1
  | keyword keyword more =>
      have htoken : ∀ keyword : Fin processPrivateIndex, (processMeminfo.getD keyword ([], [])).1 ≠ [] ∧
          (processMeminfo.getD keyword ([], [])).1.head? ≠ some 'N' := by decide
      have hhead := CString.head?_append_of_ne_nil (htoken keyword).1 more
      exact if_neg (hhead ▸ (htoken keyword).2)
  | pages node count =>
      obtain ⟨hmem, hnode, hcount⟩ := h
      have hequals : ∀ c, ('=' :: count.digits).head? = some c → CString.isDigitOf 10 c = false := by
        intro c hc
        cases hc
        decide
      have hend : strtol 10 count.digits = ((count.value : Int), []) := by
        have hnothing : ∀ c, ([] : List Char).head? = some c → CString.isDigitOf 10 c = false := by
          intro c hc
          cases hc
        have hread := CString.strtol_decimal hcount hnothing
        rwa [List.append_nil] at hread
      have hread := @CString.strtol_decimal node (hnode.trans (by decide)) _ hequals
      rw [MapsWord.text, List.head?_cons, if_pos rfl, List.tail_cons, hread]
      dsimp only
      rw [List.head?_cons, if_pos rfl, List.tail_cons, hend, findIdx?_node hmem hnode]
      dsimp only
      rw [Int.cast_natCast]
      rfl
  | pageSize kB => exact if_neg (show some 'k' ≠ some 'N' by decide)

/-- The words of a line, from a category and a page size on. -/
theorem wordsEntries_text (hws : ∀ w ∈ ws, stat.WellFormed w)
    (hfirst : ws.Pairwise fun w w' => w.isPages = true → w'.category? = none) (category : Nat) (vmPagesz : D) :
    stat.wordsEntries category vmPagesz (ws.map MapsWord.text) =
      .ok (ws.filterMap (stat.pagesEntry (categoryFrom category ws)
        (stat.effectiveSize (categoryFrom category ws) vmPagesz))) := by
  induction ws generalizing category vmPagesz with
  | nil => rfl
  | cons w ws ih =>
      rw [List.forall_mem_cons] at hws
      rw [List.pairwise_cons] at hfirst
      have hcategory := categoryFrom_cons category w ws
      rw [List.map_cons, wordsEntries, wordEntry_text hws.1, hcategory, List.filterMap_cons]
      generalize categoryFrom category [w] = category'
      change (stat.wordsEntries category' _ _).map _ = _
      rw [ih hws.2 hfirst.2]
      cases hpages : w.isPages with
      | false =>
          have hnone : ∀ category size, stat.pagesEntry category size w = none := by
            intro category size
            cases w with
            | pages node count => cases hpages
            | plain text => rfl
            | keyword keyword more => rfl
            | pageSize kB => rfl
          rw [hnone, hnone]
          rfl
      | true =>
          -- No keyword follows, so the category stays, and with it the page size.
          have hstays : categoryFrom category' ws = category' :=
            categoryFrom_of_none fun w' hw' => hfirst.1 w' hw' hpages
          rw [hstays, if_pos rfl, effectiveSize_effectiveSize]
          cases w with
          | pages node count => rfl
          | plain text => cases hpages
          | keyword keyword more => cases hpages
          | pageSize kB => cases hpages

/-- A line read in one piece gives its entries, with its end or without it. -/
theorem bufferEntries_lineText (h : stat.KernelLine ws) [CharZero D] {tail : List Char} (htail : LineTail tail) :
    stat.bufferEntries (lineText ws ++ tail) = .ok (stat.lineEntries ws) := by
  have hsize : stat.effectiveSize (lineCategory ws) (linePagesz D (lineText ws ++ tail)) = stat.lineSize ws := by
    rw [linePagesz_lineText h.wellFormed htail, lineSize]
    cases hkB : ws.findSome? MapsWord.kilobytes? with
    | none => exact if_pos rfl
    | some kB =>
        obtain ⟨w, hw, hwkB⟩ := List.exists_of_findSome?_eq_some hkB
        have hpos : 0 < kB := by
          cases w with
          | pageSize kB' =>
              cases hwkB
              exact (h.wellFormed _ hw).1
          | plain text => cases hwkB
          | keyword keyword more => cases hwkB
          | pages node count => cases hwkB
        refine if_neg (mul_ne_zero (Nat.cast_ne_zero.mpr hpos.ne') ?_)
        rw [kilobyte]
        exact Int.cast_ne_zero.mpr (by decide)
  have hwords : strtokWords (" \t\r\n".toList.contains ·) (lineText ws ++ tail) = ws.map MapsWord.text :=
    strtokWords_lineText h.wellFormed htail
  rw [bufferEntries, hwords, wordsEntries_text h.wellFormed h.keywords_first, categoryFrom, if_pos rfl, hsize,
    lineEntries]

end Entries

end Numastat

end Numactl
