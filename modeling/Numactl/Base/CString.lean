import Mathlib.Data.List.DropRight
import Mathlib.Data.List.TakeWhile
import Mathlib.Data.List.Basic
import Mathlib.Tactic.IntervalCases
import Mathlib.Tactic.Ring

/-! Reading numbers from C strings: `strtoul` and the character classes it uses, in the C locale. A
string is the list of its characters without the terminating NUL, and a pointer into it is the suffix
it points at. `scan` is the part shared by the `strto` family: what it returns is described by two
lemmas, one cutting a string at the place the conversion stopped, the other extending a numeral by a
character that cannot belong to it. -/

namespace CString

/-- `ULONG_MAX`, for 64-bit longs. -/
def ulongMax : Nat := 2 ^ 64 - 1

def isspace (c : Char) : Bool :=
  c = ' ' || c = '\t' || c = '\n' || c = '\x0b' || c = '\x0c' || c = '\r'

def isalpha (c : Char) : Bool := ('a' ≤ c && c ≤ 'z') || ('A' ≤ c && c ≤ 'Z')

def isdigit (c : Char) : Bool := '0' ≤ c && c ≤ '9'

/-- The value of a character as a digit in a base up to 36. -/
def digitVal (c : Char) : Option Nat :=
  if '0' ≤ c ∧ c ≤ '9' then some (c.toNat - 48)
  else if 'a' ≤ c ∧ c ≤ 'z' then some (c.toNat - 87)
  else if 'A' ≤ c ∧ c ≤ 'Z' then some (c.toNat - 55)
  else none

def isDigitOf (base : Nat) (c : Char) : Bool := (digitVal c).any (· < base)

def ofDigits (base : Nat) (ds : List Char) : Nat :=
  ds.foldl (fun acc c => acc * base + (digitVal c).getD 0) 0

/-- An optional sign: whether it negates, and the text after it. -/
def sign (s : List Char) : Bool × List Char :=
  if s.head? = some '-' then (true, s.tail)
  else if s.head? = some '+' then (false, s.tail)
  else (false, s)

/-- The text starts with `0x` and a hexadecimal digit. -/
def hexPrefix (t : List Char) : Bool :=
  t[0]? = some '0' && (t[1]? = some 'x' || t[1]? = some 'X') && t[2]?.any (isDigitOf 16)

/-- The base the digits are read in, and the text after an optional `0x`. -/
def stripPrefix (base : Nat) (t : List Char) : Nat × List Char :=
  if (base = 0 ∨ base = 16) ∧ hexPrefix t = true then (16, t.drop 2)
  else if base = 0 then (if t.head? = some '0' then 8 else 10, t)
  else (base, t)

/-- Skips white space and reads a sign, a prefix and digits: the sign, the magnitude and the text left.
`none` when there is no digit. -/
def scan (base : Nat) (s : List Char) : Option (Bool × Nat × List Char) :=
  let g := sign (s.dropWhile isspace)
  let u := stripPrefix base g.2
  if u.2.takeWhile (isDigitOf u.1) = [] then none
  else some (g.1, ofDigits u.1 (u.2.takeWhile (isDigitOf u.1)), u.2.dropWhile (isDigitOf u.1))

/-- What `strtoul` makes of a sign and a magnitude: saturation first, then negation modulo the word. -/
def toUnsigned (neg : Bool) (v : Nat) : Nat :=
  if ulongMax < v then ulongMax
  else if neg then (2 ^ 64 - v) % 2 ^ 64
  else v

/-- `strtoul`: the value and the suffix left in `*endptr`, which is the whole string when nothing was
converted. -/
def strtoul (base : Nat) (s : List Char) : Nat × List Char :=
  match scan base s with
  | none => (0, s)
  | some (neg, v, rest) => (toUnsigned neg v, rest)

/-- `strtoul` sets `errno` to `ERANGE`: the number read has more than 64 bits. -/
def strtoulOverflows (base : Nat) (s : List Char) : Bool :=
  match scan base s with
  | none => false
  | some (_, v, _) => ulongMax < v

/-- What `strtol` makes of a sign and a magnitude: saturation at the ends of `long`. -/
def toSigned (neg : Bool) (v : Nat) : Int :=
  if neg then (if 2 ^ 63 < v then -2 ^ 63 else -v) else if 2 ^ 63 ≤ v then 2 ^ 63 - 1 else v

def strtol (base : Nat) (s : List Char) : Int × List Char :=
  match scan base s with
  | none => (0, s)
  | some (neg, v, rest) => (toSigned neg v, rest)

/-! ### Where a conversion stops -/

theorem isDigitOf_eq_false {c : Char} (h : digitVal c = none) (base : Nat) :
    isDigitOf base c = false := by
  rw [isDigitOf, h]
  rfl

theorem digitVal_of_isspace {c : Char} (h : isspace c = true) : digitVal c = none := by
  simp only [isspace, Bool.or_eq_true, decide_eq_true_eq] at h
  rcases h with ((((rfl | rfl) | rfl) | rfl) | rfl) | rfl <;> decide

theorem scan_cons_of_isspace (base : Nat) {c : Char} (h : isspace c = true) (s : List Char) :
    scan base (c :: s) = scan base s := by
  rw [scan, scan, List.dropWhile_cons_of_pos h]

theorem dropWhile_isspace_append {sp t : List Char} (hsp : ∀ c ∈ sp, isspace c = true)
    (ht : t.dropWhile isspace = t) : (sp ++ t).dropWhile isspace = t := by
  rw [List.dropWhile_append, List.dropWhile_eq_nil_iff.mpr hsp]
  simpa using ht

/-- The first character decides whether white space is skipped. -/
theorem dropWhile_isspace_of_prefix {t rest : List Char} (ht : t ≠ [])
    (h : (t ++ rest).dropWhile isspace = t ++ rest) : t.dropWhile isspace = t := by
  cases t with
  | nil => exact absurd rfl ht
  | cons c t =>
      rw [List.dropWhile_eq_self_iff] at h ⊢
      simpa using h

theorem head?_append_of_ne_nil {t : List Char} (ht : t ≠ []) (rest : List Char) :
    (t ++ rest).head? = t.head? := by
  cases t with
  | nil => exact absurd rfl ht
  | cons c t => rfl

theorem sign_append {t : List Char} (ht : t ≠ []) (rest : List Char) :
    sign (t ++ rest) = ((sign t).1, (sign t).2 ++ rest) := by
  unfold sign
  rw [head?_append_of_ne_nil ht, List.tail_append_of_ne_nil ht]
  split
  · rfl
  · split <;> rfl

/-- The sign read from a text, put back before a nonempty beginning of what follows it. -/
theorem exists_sign (s : List Char) : ∃ sg, s = sg ++ (sign s).2 ∧
    ∀ t rest, (sign s).2 = t ++ rest → t ≠ [] → sign (sg ++ t) = ((sign s).1, t) := by
  unfold sign
  by_cases hminus : s.head? = some '-'
  · rw [if_pos hminus]
    exact ⟨['-'], (List.cons_head?_tail hminus).symm, fun t _ _ _ => if_pos rfl⟩
  rw [if_neg hminus]
  by_cases hplus : s.head? = some '+'
  · rw [if_pos hplus]
    exact ⟨['+'], (List.cons_head?_tail hplus).symm, fun t _ _ _ => rfl⟩
  rw [if_neg hplus]
  refine ⟨[], rfl, fun t rest hs ht => ?_⟩
  have hhead : s.head? = t.head? := by
    rw [show s = t ++ rest from hs, head?_append_of_ne_nil ht]
  rw [List.nil_append, ← hhead, if_neg hminus, if_neg hplus]

theorem length_of_hexPrefix {t : List Char} (h : hexPrefix t = true) : 2 < t.length := by
  by_contra hlen
  rw [hexPrefix, List.getElem?_eq_none (i := 2) (by omega), Bool.and_eq_true] at h
  exact absurd h.2 Bool.false_ne_true

/-- Three characters decide whether a text starts with a prefix. -/
theorem hexPrefix_congr {t u : List Char} (h : ∀ k, k ≤ 2 → t[k]? = u[k]?) :
    hexPrefix t = hexPrefix u := by
  rw [hexPrefix, hexPrefix, h 0 (by omega), h 1 (by omega), h 2 (by omega)]

theorem hexPrefix_append {t : List Char} (h : hexPrefix t = true) (rest : List Char) :
    hexPrefix (t ++ rest) = true := by
  have hlen := length_of_hexPrefix h
  rw [← h]
  exact hexPrefix_congr fun k hk => List.getElem?_append_left (by omega)

/-- A character that is no digit neither completes nor continues a `0x`. -/
theorem hexPrefix_append_of_digitVal_none {t : List Char} (ht : t ≠ []) {c : Char}
    (hc : digitVal c = none) (rest : List Char) : hexPrefix (t ++ c :: rest) = hexPrefix t := by
  have hx : c ≠ 'x' := fun h => absurd hc (by rw [h]; decide)
  have hX : c ≠ 'X' := fun h => absurd hc (by rw [h]; decide)
  match t, ht with
  | [a], _ => cases rest <;> simp [hexPrefix, hx, hX]
  | [a, b], _ => simp [hexPrefix, isDigitOf_eq_false hc]
  | a :: b :: d :: t, _ => rfl

theorem stripPrefix_append {base : Nat} {t : List Char} (ht : t ≠ []) {c : Char}
    (hc : digitVal c = none) (rest : List Char) :
    stripPrefix base (t ++ c :: rest) =
      ((stripPrefix base t).1, (stripPrefix base t).2 ++ c :: rest) := by
  unfold stripPrefix
  rw [hexPrefix_append_of_digitVal_none ht hc, head?_append_of_ne_nil ht]
  split
  · next h => rw [List.drop_append_of_le_length (length_of_hexPrefix h.2).le]
  · split <;> rfl

/-- The prefix taken off a text, put back before a nonempty beginning of what follows it that starts
with a digit. -/
theorem exists_stripPrefix (base : Nat) (s : List Char) : ∃ p, s = p ++ (stripPrefix base s).2 ∧
    ∀ t rest, (stripPrefix base s).2 = t ++ rest → t ≠ [] →
      stripPrefix base (p ++ t) = ((stripPrefix base s).1, t) := by
  unfold stripPrefix
  by_cases h : (base = 0 ∨ base = 16) ∧ hexPrefix s = true
  · rw [if_pos h]
    refine ⟨s.take 2, (List.take_append_drop 2 s).symm, fun t rest hs ht => ?_⟩
    have hlen := length_of_hexPrefix h.2
    have htake : s.take 2 ++ t ++ rest = s := by
      rw [List.append_assoc, ← show s.drop 2 = t ++ rest from hs, List.take_append_drop]
    have hpos := List.length_pos_of_ne_nil ht
    have hhex : hexPrefix (s.take 2 ++ t) = true := by
      rw [← h.2]
      refine hexPrefix_congr fun k hk => ?_
      have hk' : k < (s.take 2 ++ t).length := by
        rw [List.length_append, List.length_take]
        omega
      exact (List.getElem?_append_left hk').symm.trans (by rw [htake])
    rw [if_pos ⟨h.1, hhex⟩, List.drop_left' (by rw [List.length_take]; omega)]
  · rw [if_neg h]
    refine ⟨[], ?_⟩
    have hrest : ∀ t rest, s = t ++ rest → ¬((base = 0 ∨ base = 16) ∧ hexPrefix t = true) :=
      fun t rest hs ht => h ⟨ht.1, by rw [hs]; exact hexPrefix_append ht.2 rest⟩
    by_cases hbase : base = 0
    · rw [if_pos hbase]
      refine ⟨rfl, fun t rest hs ht => ?_⟩
      have hhead : s.head? = t.head? := by
        rw [show s = t ++ rest from hs, head?_append_of_ne_nil ht]
      rw [List.nil_append, if_neg (hrest t rest hs), if_pos hbase, hhead]
    · rw [if_neg hbase]
      refine ⟨rfl, fun t rest hs ht => ?_⟩
      rw [List.nil_append, if_neg (hrest t rest hs), if_neg hbase]

/-- What a successful conversion consumed is a numeral by itself. -/
theorem scan_prefix {base : Nat} {s rest : List Char} {neg : Bool} {v : Nat}
    (h : scan base s = some (neg, v, rest)) :
    ∃ t, t ≠ [] ∧ s = t ++ rest ∧ scan base t = some (neg, v, []) := by
  unfold scan at h
  dsimp only at h
  obtain ⟨sg, hsg, hsign⟩ := exists_sign (s.dropWhile isspace)
  obtain ⟨p, hp, hstrip⟩ := exists_stripPrefix base (sign (s.dropWhile isspace)).2
  generalize hu : stripPrefix base (sign (s.dropWhile isspace)).2 = u at h hp hstrip
  have hsplit := List.takeWhile_append_dropWhile (p := isDigitOf u.1) (l := u.2)
  by_cases hds : u.2.takeWhile (isDigitOf u.1) = []
  · rw [if_pos hds] at h
    cases h
  rw [if_neg hds, Option.some.injEq, Prod.mk.injEq, Prod.mk.injEq] at h
  obtain ⟨rfl, rfl, rfl⟩ := h
  have hne : sg ++ (p ++ u.2.takeWhile (isDigitOf u.1)) ≠ [] := by simp [hds]
  have hrest : s.dropWhile isspace =
      (sg ++ (p ++ u.2.takeWhile (isDigitOf u.1))) ++ u.2.dropWhile (isDigitOf u.1) := by
    rw [List.append_assoc, List.append_assoc, hsplit, ← hp, ← hsg]
  refine ⟨s.takeWhile isspace ++ (sg ++ (p ++ u.2.takeWhile (isDigitOf u.1))), by simp [hds], ?_, ?_⟩
  · rw [List.append_assoc, ← hrest, List.takeWhile_append_dropWhile]
  · have hskip : (sg ++ (p ++ u.2.takeWhile (isDigitOf u.1))).dropWhile isspace =
        sg ++ (p ++ u.2.takeWhile (isDigitOf u.1)) := by
      apply dropWhile_isspace_of_prefix hne
      rw [← hrest, List.dropWhile_idempotent]
    have hsp : ∀ c ∈ s.takeWhile isspace, isspace c = true := fun c hc => List.mem_takeWhile_imp hc
    have h1 := hsign (p ++ u.2.takeWhile (isDigitOf u.1)) (u.2.dropWhile (isDigitOf u.1))
      (by rw [List.append_assoc, hsplit, ← hp]) (by simp [hds])
    have h2 := hstrip (u.2.takeWhile (isDigitOf u.1)) (u.2.dropWhile (isDigitOf u.1)) hsplit.symm hds
    simp only [scan, dropWhile_isspace_append hsp hskip, h1, h2]
    have hall : (u.2.takeWhile (isDigitOf u.1)).takeWhile (isDigitOf u.1) =
        u.2.takeWhile (isDigitOf u.1) :=
      List.takeWhile_eq_self_iff.mpr fun c hc => List.mem_takeWhile_imp hc
    have hnone : (u.2.takeWhile (isDigitOf u.1)).dropWhile (isDigitOf u.1) = [] :=
      List.dropWhile_eq_nil_iff.mpr fun c hc => List.mem_takeWhile_imp hc
    rw [hall, hnone, if_neg hds]

/-- A numeral is still read to its end before a character that is no digit. -/
theorem scan_append {base : Nat} {t : List Char} {neg : Bool} {v : Nat}
    (h : scan base t = some (neg, v, [])) {c : Char} (hc : digitVal c = none) (rest : List Char) :
    scan base (t ++ c :: rest) = some (neg, v, c :: rest) := by
  unfold scan at h ⊢
  generalize hs : t.dropWhile isspace = s at h
  generalize hg : sign s = g at h
  generalize hu : stripPrefix base g.2 = u at h
  by_cases hds : u.2.takeWhile (isDigitOf u.1) = []
  · simp only [hu, hds] at h
    cases h
  simp only [hu, hds, if_false, Option.some.injEq, Prod.mk.injEq] at h
  obtain ⟨hneg, hv, hend⟩ := h
  have hall : u.2.takeWhile (isDigitOf u.1) = u.2 := by
    rw [← List.takeWhile_append_dropWhile (p := isDigitOf u.1) (l := u.2), hend, List.append_nil,
      List.takeWhile_eq_self_iff]
    exact fun c hc => List.mem_takeWhile_imp hc
  have hg2 : g.2 ≠ [] := by
    intro hnil
    rw [hnil] at hu
    rw [← hu] at hds
    simp [stripPrefix, hexPrefix] at hds
    split at hds <;> simp at hds
  have hs2 : s ≠ [] := by
    rintro rfl
    rw [← hg] at hg2
    exact hg2 rfl
  have hskip : (t ++ c :: rest).dropWhile isspace = s ++ c :: rest := by
    rw [List.dropWhile_append, hs]
    cases s with
    | nil => exact absurd rfl hs2
    | cons a s => rfl
  have hsign : sign (s ++ c :: rest) = (g.1, g.2 ++ c :: rest) := by
    rw [sign_append hs2, hg]
  have hstrip : stripPrefix base (g.2 ++ c :: rest) = (u.1, u.2 ++ c :: rest) := by
    rw [stripPrefix_append hg2 hc, hu]
  have hdigits : ∀ a ∈ u.2, isDigitOf u.1 a = true := List.takeWhile_eq_self_iff.mp hall
  have htake : (u.2 ++ c :: rest).takeWhile (isDigitOf u.1) = u.2 := by
    rw [List.takeWhile_append_of_pos hdigits, List.takeWhile_cons_of_neg (by
      rw [isDigitOf_eq_false hc]; exact Bool.false_ne_true), List.append_nil]
  have hdrop : (u.2 ++ c :: rest).dropWhile (isDigitOf u.1) = c :: rest := by
    rw [List.dropWhile_append_of_pos hdigits, List.dropWhile_cons_of_neg (by
      rw [isDigitOf_eq_false hc]; exact Bool.false_ne_true)]
  simp only [hskip, hsign, hstrip, htake, hdrop]
  rw [hall] at hds hv
  rw [if_neg hds, hneg, hv]

theorem toUnsigned_lt (neg : Bool) (v : Nat) : toUnsigned neg v < 2 ^ 64 := by
  unfold toUnsigned
  split
  · decide
  · next h =>
    rw [ulongMax] at h
    split
    · exact Nat.mod_lt _ (by decide)
    · omega

theorem strtoul_lt (base : Nat) (s : List Char) : (strtoul base s).1 < 2 ^ 64 := by
  unfold strtoul
  split
  · exact Nat.two_pow_pos 64
  · exact toUnsigned_lt _ _

/-- Letters are digits from 10 on. -/
theorem digitVal_of_isalpha {c : Char} (h : isalpha c = true) : ∃ d, digitVal c = some d ∧ 10 ≤ d := by
  simp only [isalpha, Bool.or_eq_true, Bool.and_eq_true, decide_eq_true_eq, Char.le_def,
    UInt32.le_iff_toNat_le] at h
  have hval : ∀ d : Char, d.toNat = d.val.toNat := fun _ => rfl
  simp only [digitVal, Char.le_def, UInt32.le_iff_toNat_le, hval]
  have h0 : '0'.val.toNat = 48 := rfl
  have h9 : '9'.val.toNat = 57 := rfl
  have ha : 'a'.val.toNat = 97 := rfl
  have hz : 'z'.val.toNat = 122 := rfl
  have hA : 'A'.val.toNat = 65 := rfl
  have hZ : 'Z'.val.toNat = 90 := rfl
  rw [if_neg (by omega)]
  obtain hlow | hhigh := h
  · exact ⟨_, if_pos hlow, by omega⟩
  · rw [if_neg (by omega)]
    exact ⟨_, if_pos hhigh, by omega⟩

/-- In base 0 nothing is converted where the text starts with a letter. -/
theorem scan_of_isalpha {c : Char} (h : isalpha c = true) (s : List Char) : scan 0 (c :: s) = none := by
  obtain ⟨d, hd, hlarge⟩ := digitVal_of_isalpha h
  have hspace : ¬isspace c = true := by
    intro hspace
    rw [digitVal_of_isspace hspace] at hd
    cases hd
  have hsign : c ≠ '-' ∧ c ≠ '+' ∧ c ≠ '0' := by
    refine ⟨?_, ?_, ?_⟩ <;> rintro rfl <;> exact absurd h (by decide)
  have hdrop : (c :: s).dropWhile isspace = c :: s := List.dropWhile_cons_of_neg hspace
  have hdigit : isDigitOf 10 c = false := by
    rw [isDigitOf, hd]
    simpa using hlarge
  simp [scan, hdrop, sign, hsign, stripPrefix, hexPrefix, hdigit]

/-! ### Hexadecimal groups -/

/-- The lower-case digit `printf` writes for a value below 16. -/
def hexDigit (d : Nat) : Char := "0123456789abcdef".toList.getD d '0'

/-- The low `width` hexadecimal digits of `v`, highest first: what `%0*lx` writes when `v` fits. -/
def hexPad : Nat → Nat → List Char
  | 0, _ => []
  | width + 1, v => hexPad width (v / 16) ++ [hexDigit (v % 16)]

theorem digitVal_hexDigit {d : Nat} (h : d < 16) : digitVal (hexDigit d) = some d := by
  interval_cases d <;> decide

@[simp] theorem length_hexPad (width v : Nat) : (hexPad width v).length = width := by
  induction width generalizing v with
  | zero => rfl
  | succ width ih => rw [hexPad, List.length_append, ih, List.length_singleton]

theorem isDigitOf_of_mem_hexPad {width v : Nat} {c : Char} (h : c ∈ hexPad width v) :
    isDigitOf 16 c = true := by
  induction width generalizing v with
  | zero => exact absurd h List.not_mem_nil
  | succ width ih =>
      rw [hexPad, List.mem_append, List.mem_singleton] at h
      rcases h with h | h
      · exact ih h
      · have hlt : v % 16 < 16 := Nat.mod_lt _ (by omega)
        rw [h, isDigitOf, digitVal_hexDigit hlt]
        simpa using hlt

theorem foldl_ofDigits (base acc : Nat) (ds : List Char) :
    ds.foldl (fun acc c => acc * base + (digitVal c).getD 0) acc =
      acc * base ^ ds.length + ofDigits base ds := by
  induction ds using List.reverseRecOn with
  | nil => simp [ofDigits]
  | append_singleton ds c ih =>
      rw [ofDigits, List.foldl_append, List.foldl_append, ih, List.length_append, List.length_singleton,
        pow_succ, ofDigits]
      simp only [List.foldl_cons, List.foldl_nil]
      ring

theorem ofDigits_append (base : Nat) (ds es : List Char) :
    ofDigits base (ds ++ es) = ofDigits base ds * base ^ es.length + ofDigits base es := by
  rw [ofDigits, List.foldl_append, foldl_ofDigits, ← ofDigits]

/-- Digits of a base stand for a number below its power. -/
theorem ofDigits_lt {base : Nat} {ds : List Char} (hds : ∀ c ∈ ds, isDigitOf base c = true) :
    ofDigits base ds < base ^ ds.length := by
  induction ds using List.reverseRecOn with
  | nil => simp [ofDigits]
  | append_singleton ds c ih =>
      have hinit := ih fun a ha => hds a (List.mem_append_left [c] ha)
      have hlast := hds c (by simp)
      rw [isDigitOf, Option.any_eq_true] at hlast
      obtain ⟨d, hd, hlt⟩ := hlast
      have hval : ofDigits base [c] = d := by simp [ofDigits, hd]
      rw [decide_eq_true_eq] at hlt
      rw [ofDigits_append, hval, List.length_append, List.length_singleton, pow_one, pow_succ]
      calc ofDigits base ds * base + d < (ofDigits base ds + 1) * base := by rw [add_mul, one_mul]; omega
        _ ≤ base ^ ds.length * base := Nat.mul_le_mul_right base hinit

theorem ofDigits_hexPad (width v : Nat) : ofDigits 16 (hexPad width v) = v % 16 ^ width := by
  induction width generalizing v with
  | zero => simp [hexPad, ofDigits, Nat.mod_one]
  | succ width ih =>
      have hlt : v % 16 < 16 := Nat.mod_lt _ (by omega)
      rw [hexPad, ofDigits_append, ih, List.length_singleton, pow_one, pow_succ', Nat.mod_mul]
      simp only [ofDigits, List.foldl_cons, List.foldl_nil, digitVal_hexDigit hlt, Option.getD_some]
      ring

/-- No white space is skipped before a digit. -/
theorem dropWhile_isspace_of_digit {base : Nat} {s : List Char} (h : ∀ c, s.head? = some c → isDigitOf base c = true) :
    s.dropWhile isspace = s := by
  rw [List.dropWhile_eq_self_iff]
  intro hlen hspace
  have hfirst := h _ (List.head?_eq_getElem? ▸ List.getElem?_eq_getElem hlen)
  rw [isDigitOf_eq_false (digitVal_of_isspace hspace)] at hfirst
  cases hfirst

/-- No sign is read before a digit. -/
theorem sign_of_digit {base : Nat} {s : List Char} (h : ∀ c, s.head? = some c → isDigitOf base c = true) :
    sign s = (false, s) := by
  have hno : ∀ c, digitVal c = none → s.head? ≠ some c := by
    intro c hc hhead
    have hfirst := h c hhead
    rw [isDigitOf_eq_false hc] at hfirst
    cases hfirst
  rw [sign, if_neg (hno '-' (by decide)), if_neg (hno '+' (by decide))]

/-- Hexadecimal digits are read to the first character that is no digit. -/
theorem strtoul_hex {ds : List Char} (hne : ds ≠ []) (hds : ∀ c ∈ ds, isDigitOf 16 c = true)
    (hlt : ofDigits 16 ds ≤ ulongMax) {c : Char} (hc : digitVal c = none) (rest : List Char) :
    strtoul 16 (ds ++ c :: rest) = (ofDigits 16 ds, c :: rest) := by
  have hget : ∀ k a, ds[k]? = some a → isDigitOf 16 a = true := fun k a h =>
    hds a (List.mem_of_getElem? h)
  have hhead : ∀ c, ds.head? = some c → isDigitOf 16 c = true := fun c h => hds c (List.mem_of_head? h)
  have hhex : hexPrefix ds = false := by
    have hx : ds[1]? ≠ some 'x' := fun h => absurd (hget 1 _ h) (by decide)
    have hX : ds[1]? ≠ some 'X' := fun h => absurd (hget 1 _ h) (by decide)
    simp [hexPrefix, hx, hX]
  have hstrip : stripPrefix 16 ds = (16, ds) := by
    simp [stripPrefix, hhex]
  have htake : ds.takeWhile (isDigitOf 16) = ds := List.takeWhile_eq_self_iff.mpr hds
  have hdrop : ds.dropWhile (isDigitOf 16) = [] := List.dropWhile_eq_nil_iff.mpr hds
  have hscan : scan 16 ds = some (false, ofDigits 16 ds, []) := by
    simp only [scan, dropWhile_isspace_of_digit hhead, sign_of_digit hhead, hstrip, htake, hdrop, if_neg hne]
  rw [strtoul, scan_append hscan hc rest]
  simp only [toUnsigned, if_neg (Nat.not_lt.mpr hlt), Bool.false_eq_true, if_false]

/-! ### Decimal digits without a base -/

theorem isDigitOf_mono {base base' : Nat} (hle : base ≤ base') {c : Char} (h : isDigitOf base c = true) :
    isDigitOf base' c = true := by
  rw [isDigitOf, Option.any_eq_true] at h ⊢
  obtain ⟨d, hd, hlt⟩ := h
  rw [decide_eq_true_eq] at hlt
  exact ⟨d, hd, decide_eq_true (hlt.trans_le hle)⟩

theorem ofDigits_singleton (base : Nat) (c : Char) : ofDigits base [c] = (digitVal c).getD 0 := by
  simp [ofDigits]

/-- Digits read in a smaller base stand for no larger number. -/
theorem ofDigits_le {base base' : Nat} (hle : base ≤ base') (ds : List Char) :
    ofDigits base ds ≤ ofDigits base' ds := by
  induction ds using List.reverseRecOn with
  | nil => exact le_rfl
  | append_singleton ds c ih =>
      rw [ofDigits_append, ofDigits_append, ofDigits_singleton, ofDigits_singleton, List.length_singleton, pow_one,
        pow_one]
      exact Nat.add_le_add (Nat.mul_le_mul ih hle) le_rfl

theorem ofDigits_le_append (base : Nat) (hbase : 0 < base) (ds es : List Char) :
    ofDigits base ds ≤ ofDigits base (ds ++ es) := by
  rw [ofDigits_append]
  exact (Nat.le_mul_of_pos_right _ (Nat.pow_pos hbase)).trans (Nat.le_add_right _ _)

theorem takeWhile_append_of_head {α : Type} {p : α → Bool} {xs ys : List α}
    (h : ∀ a, ys.head? = some a → p a = false) :
    (xs ++ ys).takeWhile p = xs.takeWhile p := by
  have hys : ys.takeWhile p = [] := by
    cases ys with
    | nil => rfl
    | cons y ys => exact List.takeWhile_cons_of_neg (Bool.eq_false_iff.mp (h y rfl))
  rw [List.takeWhile_append, hys, List.append_nil]
  split
  · next hlen => exact ((List.takeWhile_prefix p).eq_of_length hlen).symm
  · rfl

theorem dropWhile_append_of_head {α : Type} {p : α → Bool} {xs ys : List α}
    (h : ∀ a, ys.head? = some a → p a = false) :
    (xs ++ ys).dropWhile p = xs.dropWhile p ++ ys := by
  have hsplit : (xs ++ ys).takeWhile p ++ (xs ++ ys).dropWhile p = xs.takeWhile p ++ (xs.dropWhile p ++ ys) := by
    rw [List.takeWhile_append_dropWhile, ← List.append_assoc, List.takeWhile_append_dropWhile]
  rw [takeWhile_append_of_head h] at hsplit
  exact List.append_cancel_left hsplit

/-- Base 0 reads digits behind a leading `0` as octal ones, as far as they are, and saturates. -/
theorem strtoul_digits {ds rest : List Char} (hne : ds ≠ []) (hds : ∀ c ∈ ds, isDigitOf 10 c = true)
    (hrest : ∀ c, rest.head? = some c → isDigitOf 10 c = false ∧ c ≠ 'x' ∧ c ≠ 'X') {base : Nat}
    (hbase : base = if ds.head? = some '0' then 8 else 10) :
    strtoul 0 (ds ++ rest) =
      (min (ofDigits base (ds.takeWhile (isDigitOf base))) ulongMax, ds.dropWhile (isDigitOf base) ++ rest) := by
  have hle : base ≤ 10 := by
    rw [hbase]
    split
    · decide
    · decide
  have hhead : (ds ++ rest).head? = ds.head? := head?_append_of_ne_nil hne rest
  have hdigit : ∀ c, (ds ++ rest).head? = some c → isDigitOf 10 c = true := fun c hc =>
    hds c (List.mem_of_head? (hhead ▸ hc))
  have hsecond : ∀ c, (ds ++ rest)[1]? = some c → c ≠ 'x' ∧ c ≠ 'X' := by
    intro c hc
    obtain ⟨d, ds, rfl⟩ := List.exists_cons_of_ne_nil hne
    rw [List.cons_append, List.getElem?_cons_succ, ← List.head?_eq_getElem?, List.head?_append] at hc
    cases ds with
    | nil => exact (hrest c hc).2
    | cons e ds =>
        have hdec := hds c (by simpa using Or.inr (Or.inl (Option.some.inj hc).symm))
        exact ⟨fun heq => absurd hdec (heq ▸ by decide), fun heq => absurd hdec (heq ▸ by decide)⟩
  have hhex : hexPrefix (ds ++ rest) = false := by
    have hx : (ds ++ rest)[1]? ≠ some 'x' := fun h => (hsecond _ h).1 rfl
    have hX : (ds ++ rest)[1]? ≠ some 'X' := fun h => (hsecond _ h).2 rfl
    simp [hexPrefix, hx, hX]
  have hstrip : stripPrefix 0 (ds ++ rest) = (base, ds ++ rest) := by
    simp only [stripPrefix, hhex, Bool.false_eq_true, and_false, if_false, if_true, hhead, hbase]
  have hstop : ∀ c, rest.head? = some c → isDigitOf base c = false := fun c hc =>
    Bool.eq_false_iff.mpr fun hdec => Bool.eq_false_iff.mp (hrest c hc).1 (isDigitOf_mono hle hdec)
  have hsome : ds.takeWhile (isDigitOf base) ≠ [] := by
    obtain ⟨d, ds, rfl⟩ := List.exists_cons_of_ne_nil hne
    have hd : isDigitOf base d = true := by
      rw [hbase]
      split
      · next hzero =>
          obtain rfl := Option.some.inj hzero
          decide
      · exact hds d List.mem_cons_self
    rw [List.takeWhile_cons_of_pos hd]
    exact List.cons_ne_nil _ _
  have hscan : scan 0 (ds ++ rest) = some (false, ofDigits base (ds.takeWhile (isDigitOf base)),
      ds.dropWhile (isDigitOf base) ++ rest) := by
    simp only [scan, dropWhile_isspace_of_digit hdigit, sign_of_digit hdigit, hstrip, takeWhile_append_of_head hstop,
      dropWhile_append_of_head hstop, if_neg hsome]
  rw [strtoul, hscan]
  dsimp only
  unfold toUnsigned
  split
  · next hlt => rw [Nat.min_eq_right (Nat.le_of_lt hlt)]
  · next hlt =>
      rw [Nat.min_eq_left (Nat.not_lt.mp hlt)]
      rfl

/-- What holds of the characters of a text can be checked by going through it. -/
theorem forall_mem_of_all {α : Type} {p : α → Prop} [DecidablePred p] {l : List α}
    (h : (l.all fun a => decide (p a)) = true) : ∀ a ∈ l, p a :=
  fun a ha => of_decide_eq_true (List.all_eq_true.mp h a ha)

/-- A decimal numeral. -/
structure Decimal where
  digits : List Char
  ne_nil : digits ≠ []
  decimal : ∀ c ∈ digits, isDigitOf 10 c = true

def Decimal.value (d : Decimal) : Nat := ofDigits 10 d.digits

/-- Base 10 reads a numeral to its end. -/
theorem scan_digits (d : Decimal) {rest : List Char} (hrest : ∀ c, rest.head? = some c → isDigitOf 10 c = false) :
    scan 10 (d.digits ++ rest) = some (false, d.value, rest) := by
  have hdigit : ∀ c, (d.digits ++ rest).head? = some c → isDigitOf 10 c = true := by
    intro c hc
    rw [head?_append_of_ne_nil d.ne_nil] at hc
    exact d.decimal c (List.mem_of_head? hc)
  have htake : (d.digits ++ rest).takeWhile (isDigitOf 10) = d.digits := by
    rw [takeWhile_append_of_head hrest, List.takeWhile_eq_self_iff.mpr d.decimal]
  have hdrop : (d.digits ++ rest).dropWhile (isDigitOf 10) = rest := by
    rw [dropWhile_append_of_head hrest, List.dropWhile_eq_nil_iff.mpr d.decimal, List.nil_append]
  have hstrip : stripPrefix 10 (d.digits ++ rest) = (10, d.digits ++ rest) := rfl
  simp only [scan, dropWhile_isspace_of_digit hdigit, sign_of_digit hdigit, hstrip, htake, hdrop,
    if_neg d.ne_nil, Decimal.value]

theorem strtol_decimal {d : Decimal} (hlt : d.value < 2 ^ 63) {rest : List Char}
    (hrest : ∀ c, rest.head? = some c → isDigitOf 10 c = false) :
    strtol 10 (d.digits ++ rest) = ((d.value : Int), rest) := by
  rw [strtol, scan_digits d hrest]
  dsimp only
  rw [toSigned, if_neg Bool.false_ne_true, if_neg (Nat.not_le.mpr hlt)]

/-- Nothing is converted where the text starts with neither white space, nor a sign, nor a digit. -/
theorem strtol_of_head {s : List Char} (hspace : ∀ c, s.head? = some c → isspace c = false)
    (hsign : s.head? ≠ some '-' ∧ s.head? ≠ some '+') (hdigit : ∀ c, s.head? = some c → isDigitOf 10 c = false) :
    strtol 10 s = (0, s) := by
  have hskip : s.dropWhile isspace = s := by
    rw [List.dropWhile_eq_self_iff]
    exact fun hlen => Bool.eq_false_iff.mp (hspace _ (List.head?_eq_getElem? ▸ List.getElem?_eq_getElem hlen))
  have hnone : s.takeWhile (isDigitOf 10) = [] := by
    cases s with
    | nil => rfl
    | cons c s => exact List.takeWhile_cons_of_neg (Bool.eq_false_iff.mp (hdigit c rfl))
  have hstrip : stripPrefix 10 s = (10, s) := rfl
  have hscan : scan 10 s = none := by
    rw [scan, hskip, sign, if_neg hsign.1, if_neg hsign.2, hstrip, if_pos hnone]
  rw [strtol, hscan]

/-! ### Printed numbers -/

/-- `%d` for a number that is not negative, and `%llu`. -/
def decimal (n : Nat) : List Char := Nat.toDigits 10 n

/-- `%d`. -/
def printInt (n : Int) : List Char := if n < 0 then '-' :: decimal n.natAbs else decimal n.toNat

/-- `%016llx`. -/
def hex16 (n : Nat) : List Char := List.replicate (16 - (Nat.toDigits 16 n).length) '0' ++ Nat.toDigits 16 n

theorem printInt_natCast (n : Nat) : printInt n = decimal n := by
  rw [printInt, if_neg (by omega), Int.toNat_natCast]

theorem decimal_ne_nil (n : Nat) : decimal n ≠ [] := Nat.toDigits_ne_nil

theorem digitVal_of_isDigit {c : Char} (h : c.isDigit = true) : digitVal c = some (c.toNat - 48) := by
  have hrange : '0' ≤ c ∧ c ≤ '9' := by
    simpa [Char.isDigit, Char.le_def] using h
  rw [digitVal, if_pos hrange]

theorem isDigitOf_of_isDigit {c : Char} (h : c.isDigit = true) : isDigitOf 10 c = true := by
  have hle : c.toNat ≤ 57 := by
    simp only [Char.isDigit, Bool.and_eq_true, decide_eq_true_eq] at h
    exact h.2
  rw [isDigitOf, digitVal_of_isDigit h, Option.any_some, decide_eq_true_eq]
  omega

theorem isDigitOf_decimal {n : Nat} : ∀ c ∈ decimal n, isDigitOf 10 c = true := fun _ hc =>
  isDigitOf_of_isDigit (Nat.isDigit_of_mem_toDigits (by decide) (by decide) hc)

theorem isdigit_of_mem_decimal {n : Nat} {c : Char} (h : c ∈ decimal n) : isdigit c = true := by
  have hdigit := Nat.isDigit_of_mem_toDigits (by decide) (by decide) h
  have hrange : '0' ≤ c ∧ c ≤ '9' := by simpa [Char.isDigit, Char.le_def] using hdigit
  simpa [isdigit] using hrange

theorem ofDigits_decimal (n : Nat) : ofDigits 10 (decimal n) = n := by
  have hdigits : ofDigits 10 (decimal n) = Nat.ofDigitChars 10 (decimal n) 0 := by
    rw [Nat.ofDigitChars_eq_foldl, ofDigits]
    apply List.foldl_ext
    intro acc c hc
    rw [digitVal_of_isDigit (Nat.isDigit_of_mem_toDigits (by decide) (by decide) hc), Option.getD_some,
      Nat.mul_comm]
    rfl
  rw [hdigits]
  exact Nat.ofDigitChars_ten_toDigits

/-- A printed number, as a numeral. -/
def numeralOf (n : Nat) : Decimal := ⟨decimal n, decimal_ne_nil n, isDigitOf_decimal⟩

theorem value_numeralOf (n : Nat) : (numeralOf n).value = n := ofDigits_decimal n

theorem strtol_printed {n : Nat} (hn : n < 2 ^ 63) : strtol 10 (decimal n) = ((n : Int), []) := by
  have hread : strtol 10 ((numeralOf n).digits ++ []) = (((numeralOf n).value : Int), []) :=
    strtol_decimal (by rwa [value_numeralOf]) fun c hc => by cases hc
  rw [value_numeralOf, List.append_nil] at hread
  exact hread

/-- Only the number 0 starts with the digit 0. -/
theorem head?_decimal {n : Nat} (hn : 0 < n) : (decimal n).head? ≠ some '0' := by
  induction n using Nat.strong_induction_on with
  | _ n ih =>
      rw [decimal, Nat.toDigits_eq_if (by decide)]
      split
      · next hlt =>
        interval_cases n <;> decide
      · next hge =>
        have hne : Nat.toDigits 10 (n / 10) ≠ [] := Nat.toDigits_ne_nil
        rw [head?_append_of_ne_nil hne]
        exact ih (n / 10) (by omega) (by omega)

/-- A printed number is read back, whatever does not continue it follows. -/
theorem strtoul_decimal {n : Nat} (hn : n ≤ ulongMax) {rest : List Char}
    (hrest : ∀ c, rest.head? = some c → isDigitOf 10 c = false ∧ c ≠ 'x' ∧ c ≠ 'X') :
    strtoul 0 (decimal n ++ rest) = (n, rest) := by
  rw [strtoul_digits (decimal_ne_nil n) isDigitOf_decimal hrest rfl]
  obtain rfl | hpos := Nat.eq_zero_or_pos n
  · rfl
  · rw [if_neg (head?_decimal hpos), List.takeWhile_eq_self_iff.mpr isDigitOf_decimal,
      List.dropWhile_eq_nil_iff.mpr isDigitOf_decimal, ofDigits_decimal, Nat.min_eq_left hn, List.nil_append]

end CString
