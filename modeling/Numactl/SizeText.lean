import Numactl.Attach
import Numactl.RegionPolicy

/-! The sizes on the command line. `memsize` reads a number with `strtoul` in base 0 and multiplies it in a
`long`; the attach functions compare what it has made of the texts with the largest offset. So a size too large
for the type is turned into another one, and a leading `0` makes the digits octal. -/

namespace Numactl

open CString (digitVal isDigitOf ofDigits isdigit strtoul ulongMax)

/-- Decimal digits and perhaps a suffix `k`, `m` or `g` in either case. -/
structure SizeText where
  digits : List Char
  suffix : Option Char
  ne_nil : digits ≠ []
  decimal : ∀ c ∈ digits, isDigitOf 10 c = true
  unit : ∀ c, suffix = some c → c ∈ ['k', 'K', 'm', 'M', 'g', 'G']

namespace SizeText

variable (s : SizeText)

def text : List Char := s.digits ++ s.suffix.toList

/-- The decimal numeral. -/
def numeral : Nat := ofDigits 10 s.digits

/-- The power of 1024 the suffix stands for. -/
def power : Nat :=
  match s.suffix.map Char.toUpper with
  | some 'G' => 3
  | some 'M' => 2
  | some 'K' => 1
  | _ => 0

/-- The size the text stands for. -/
def size : Nat := s.numeral * 1024 ^ s.power

/-- What a text gives instead. Digits behind a leading `0` are octal, and if one of them is none the text ends
before it, without a suffix; a number too large saturates; the product is taken modulo the word. -/
def sizeRead : Nat :=
  if s.digits.head? = some '0' then
    if s.digits.all (isDigitOf 8) then min (ofDigits 8 s.digits) ulongMax * 1024 ^ s.power % 2 ^ 64
    else min (ofDigits 8 (s.digits.takeWhile (isDigitOf 8))) ulongMax
  else min s.numeral ulongMax * 1024 ^ s.power % 2 ^ 64

/-- The text stands for a number of the type, and is read as decimal: it has no leading `0`, or one significant
digit at most, which is then read alike. -/
def Fits : Prop := s.size < 2 ^ 64 ∧ (s.digits.head? = some '0' → s.numeral < 8)

end SizeText

/-! ### memsize -/

namespace SizeText

variable {s : SizeText}

theorem suffix_head {c : Char} (hc : s.suffix.toList.head? = some c) : s.suffix = some c := by
  cases h : s.suffix with
  | none =>
      rw [h] at hc
      cases hc
  | some d =>
      rw [h] at hc
      exact hc

/-- The suffixes are no digits, and no part of a prefix. -/
theorem suffix_not_digit : ∀ c, s.suffix.toList.head? = some c → isDigitOf 10 c = false ∧ c ≠ 'x' ∧ c ≠ 'X' := by
  intro c hc
  have hunit := s.unit c (suffix_head hc)
  simp only [List.mem_cons, List.not_mem_nil, or_false] at hunit
  rcases hunit with rfl | rfl | rfl | rfl | rfl | rfl <;> decide

theorem strtoul_text {base : Nat} (hbase : base = if s.digits.head? = some '0' then 8 else 10) :
    strtoul 0 s.text = (min (ofDigits base (s.digits.takeWhile (isDigitOf base))) ulongMax,
      s.digits.dropWhile (isDigitOf base) ++ s.suffix.toList) :=
  CString.strtoul_digits s.ne_nil s.decimal suffix_not_digit hbase

/-- The suffixes in the case `memsize` compares them in. -/
theorem toUpper_suffix {c : Char} (hc : s.suffix = some c) :
    c.toUpper = 'K' ∧ s.power = 1 ∨ c.toUpper = 'M' ∧ s.power = 2 ∨ c.toUpper = 'G' ∧ s.power = 3 := by
  have hunit := s.unit c hc
  unfold power
  rw [hc, Option.map_some]
  simp only [List.mem_cons, List.not_mem_nil, or_false] at hunit
  rcases hunit with rfl | rfl | rfl | rfl | rfl | rfl <;> decide

/-- The factor of a suffix. -/
theorem memsize_of_strtoul {t : List Char} {v : Nat} (hread : strtoul 0 t = (v, s.suffix.toList)) (hv : v < 2 ^ 64) :
    memsize t = v * 1024 ^ s.power % 2 ^ 64 := by
  unfold memsize
  rw [hread]
  cases hsuffix : s.suffix with
  | none =>
      have hpower : s.power = 0 := by rw [power, hsuffix]; rfl
      rw [hpower, pow_zero, Nat.mul_one, Nat.mod_eq_of_lt hv]
      rfl
  | some c =>
      rcases toUpper_suffix hsuffix with ⟨hupper, hpower⟩ | ⟨hupper, hpower⟩ | ⟨hupper, hpower⟩
      · simp only [Option.toList_some, List.head?_cons, Option.map_some, hupper, hpower, pow_one]
      · simp only [Option.toList_some, List.head?_cons, Option.map_some, hupper, hpower]
      · simp only [Option.toList_some, List.head?_cons, Option.map_some, hupper, hpower]

/-- A digit is no suffix. -/
theorem memsize_of_digit {t rest : List Char} {v : Nat} {c : Char} (hread : strtoul 0 t = (v, c :: rest))
    (hc : isDigitOf 10 c = true) : memsize t = v := by
  have hnot : CString.isalpha c ≠ true := by
    intro halpha
    obtain ⟨d, hd, hle⟩ := CString.digitVal_of_isalpha halpha
    rw [isDigitOf, hd, Option.any_some, decide_eq_true_eq] at hc
    omega
  have hupper : c.toUpper = c := by
    unfold Char.toUpper
    rw [dif_neg]
    intro hlow
    apply hnot
    unfold CString.isalpha
    rw [Bool.or_eq_true, Bool.and_eq_true, decide_eq_true_eq, decide_eq_true_eq]
    exact Or.inl hlow
  unfold memsize
  rw [hread]
  dsimp only [List.head?_cons, Option.map_some]
  rw [hupper]
  split
  · next heq => exact absurd ((Option.some.inj heq) ▸ (by decide : CString.isalpha 'G' = true)) hnot
  · next heq => exact absurd ((Option.some.inj heq) ▸ (by decide : CString.isalpha 'M' = true)) hnot
  · next heq => exact absurd ((Option.some.inj heq) ▸ (by decide : CString.isalpha 'K' = true)) hnot
  · rfl

theorem min_ulongMax_lt (v : Nat) : min v ulongMax < 2 ^ 64 :=
  (Nat.min_le_right v ulongMax).trans_lt (by decide)

/-- `memsize` reads the texts so. -/
theorem memsize_text (s : SizeText) : memsize s.text = s.sizeRead := by
  unfold sizeRead
  by_cases hzero : s.digits.head? = some '0'
  · have hread := strtoul_text (s := s) (if_pos hzero).symm
    rw [if_pos hzero]
    by_cases hall : ∀ c ∈ s.digits, isDigitOf 8 c = true
    · rw [List.takeWhile_eq_self_iff.mpr hall, List.dropWhile_eq_nil_iff.mpr hall, List.nil_append] at hread
      rw [if_pos (List.all_eq_true.mpr hall), memsize_of_strtoul hread (min_ulongMax_lt _)]
    · rw [if_neg (mt List.all_eq_true.mp hall)]
      obtain ⟨c, rest, hrest⟩ := List.exists_cons_of_ne_nil (fun hnil => hall (List.dropWhile_eq_nil_iff.mp hnil))
      have hc : c ∈ s.digits := (List.dropWhile_suffix _).mem (hrest ▸ List.mem_cons_self)
      rw [hrest, List.cons_append] at hread
      exact memsize_of_digit hread (s.decimal c hc)
  · have hread := strtoul_text (s := s) (if_neg hzero).symm
    rw [List.takeWhile_eq_self_iff.mpr s.decimal, List.dropWhile_eq_nil_iff.mpr s.decimal, List.nil_append] at hread
    rw [if_neg hzero, memsize_of_strtoul hread (min_ulongMax_lt _)]
    rfl

/-! ### Sizes that are read as they stand -/

theorem power_le (s : SizeText) : s.power ≤ 3 := by
  unfold power
  split <;> decide

theorem factor_pos (s : SizeText) : 0 < 1024 ^ s.power := Nat.pow_pos (by decide)

theorem sizeRead_lt (s : SizeText) : s.sizeRead < 2 ^ 64 := by
  unfold sizeRead
  split
  · split
    · exact Nat.mod_lt _ (by decide)
    · exact min_ulongMax_lt _
  · exact Nat.mod_lt _ (by decide)

/-- Octal digits stand for less than as decimal ones, unless all but the last are zero. -/
theorem ofDigits_octal {ds : List Char} (hne : ds ≠ []) (hall : ∀ c ∈ ds, isDigitOf 8 c = true) :
    ofDigits 10 ds < 8 ∧ ofDigits 8 ds = ofDigits 10 ds ∨ 8 ≤ ofDigits 10 ds ∧ ofDigits 8 ds < ofDigits 10 ds := by
  obtain ⟨init, c, rfl⟩ : ∃ init c, ds = init ++ [c] := by
    obtain ⟨init, c, rfl⟩ := (List.eq_nil_or_concat ds).resolve_left hne
    exact ⟨init, c, List.concat_eq_append⟩
  have hle := CString.ofDigits_le (by decide : 8 ≤ 10) init
  have hlt : (digitVal c).getD 0 < 8 := by
    have hc := hall c (List.mem_append_right init List.mem_cons_self)
    rw [isDigitOf, Option.any_eq_true] at hc
    obtain ⟨d, hd, hlt⟩ := hc
    rw [hd]
    exact of_decide_eq_true hlt
  rw [CString.ofDigits_append, CString.ofDigits_append, CString.ofDigits_singleton, CString.ofDigits_singleton,
    List.length_singleton, pow_one, pow_one]
  by_cases hinit : ofDigits 10 init = 0
  · left
    omega
  · right
    omega

/-- A digit that is not octal makes a number of two octal digits at least. -/
theorem le_numeral_of_not_octal (hall : ¬∀ c ∈ s.digits, isDigitOf 8 c = true) :
    ofDigits 8 (s.digits.takeWhile (isDigitOf 8)) + 8 ≤ s.numeral := by
  obtain ⟨c, rest, hrest⟩ := List.exists_cons_of_ne_nil (fun hnil => hall (List.dropWhile_eq_nil_iff.mp hnil))
  have hmem : c ∈ s.digits := (List.dropWhile_suffix _).mem (hrest ▸ List.mem_cons_self)
  have hnot : isDigitOf 8 c = false := by
    have hhead := List.head?_dropWhile_not (isDigitOf 8) s.digits
    rw [hrest] at hhead
    exact hhead
  have hval : 8 ≤ (digitVal c).getD 0 := by
    have hdec := s.decimal c hmem
    rw [isDigitOf, Option.any_eq_true] at hdec
    obtain ⟨d, hd, -⟩ := hdec
    rw [isDigitOf, hd, Option.any_some, decide_eq_false_iff_not, Nat.not_lt] at hnot
    rwa [hd]
  have hsplit : s.digits = (s.digits.takeWhile (isDigitOf 8) ++ [c]) ++ rest := by
    rw [List.append_assoc, List.singleton_append, ← hrest, List.takeWhile_append_dropWhile]
  generalize s.digits.takeWhile (isDigitOf 8) = p at hsplit ⊢
  have hle := CString.ofDigits_le (by decide : 8 ≤ 10) p
  calc ofDigits 8 p + 8 ≤ ofDigits 10 p * 10 + (digitVal c).getD 0 := by omega
    _ = ofDigits 10 (p ++ [c]) := by
        rw [CString.ofDigits_append, CString.ofDigits_singleton, List.length_singleton, pow_one]
    _ ≤ ofDigits 10 ((p ++ [c]) ++ rest) := CString.ofDigits_le_append 10 (by decide) _ _
    _ = s.numeral := by rw [numeral, ← hsplit]

/-- A text is read as it stands exactly if it fits. -/
theorem sizeRead_eq_size_iff : s.sizeRead = s.size ↔ s.Fits := by
  unfold sizeRead size Fits size
  have hpos := s.factor_pos
  by_cases hzero : s.digits.head? = some '0'
  · rw [if_pos hzero]
    have hfits : s.numeral * 1024 ^ s.power < 2 ^ 64 ∧ (s.digits.head? = some '0' → s.numeral < 8) ↔
        s.numeral < 8 := by
      refine ⟨fun h => h.2 hzero, fun h => ⟨?_, fun _ => h⟩⟩
      calc s.numeral * 1024 ^ s.power ≤ 7 * 1024 ^ 3 :=
            Nat.mul_le_mul (Nat.lt_succ_iff.mp h) (Nat.pow_le_pow_right (by decide) s.power_le)
        _ < 2 ^ 64 := by decide
    rw [hfits]
    by_cases hall : ∀ c ∈ s.digits, isDigitOf 8 c = true
    · rw [if_pos (List.all_eq_true.mpr hall)]
      rcases ofDigits_octal s.ne_nil hall with ⟨hlt, heq⟩ | ⟨hle, hlt⟩
      · have hmax : ofDigits 8 s.digits ≤ ulongMax := by
          rw [heq]
          exact (Nat.le_of_lt hlt).trans (by decide)
        refine iff_of_true ?_ hlt
        rw [Nat.min_eq_left hmax, heq]
        exact Nat.mod_eq_of_lt (hfits.mpr hlt).1
      · refine iff_of_false (Nat.ne_of_lt ?_) (Nat.not_lt.mpr hle)
        calc min (ofDigits 8 s.digits) ulongMax * 1024 ^ s.power % 2 ^ 64
            ≤ min (ofDigits 8 s.digits) ulongMax * 1024 ^ s.power := Nat.mod_le _ _
          _ ≤ ofDigits 8 s.digits * 1024 ^ s.power := Nat.mul_le_mul_right _ (Nat.min_le_left _ _)
          _ < s.numeral * 1024 ^ s.power := Nat.mul_lt_mul_of_pos_right hlt hpos
    · rw [if_neg (mt List.all_eq_true.mp hall)]
      have hle := le_numeral_of_not_octal hall
      refine iff_of_false (Nat.ne_of_lt ?_) (by omega)
      calc min (ofDigits 8 (s.digits.takeWhile (isDigitOf 8))) ulongMax
          ≤ ofDigits 8 (s.digits.takeWhile (isDigitOf 8)) := Nat.min_le_left _ _
        _ < s.numeral := by omega
        _ ≤ s.numeral * 1024 ^ s.power := Nat.le_mul_of_pos_right _ hpos
  · rw [if_neg hzero]
    refine ⟨fun heq => ⟨heq ▸ Nat.mod_lt _ (by decide), fun h => absurd h hzero⟩, fun hfits => ?_⟩
    have hmax : s.numeral ≤ ulongMax :=
      Nat.le_pred_of_lt ((Nat.le_mul_of_pos_right _ hpos).trans_lt hfits.1)
    rw [Nat.min_eq_left hmax, Nat.mod_eq_of_lt hfits.1]

end SizeText

/-! ### Sizes in the option loop -/

/-- The text the last of some options gives. -/
def lastText (f : Opt → Option (List Char)) (opts : List Opt) : Option (List Char) := opts.reverse.findSome? f

theorem lastText_concat (f : Opt → Option (List Char)) (opts : List Opt) (opt : Opt) :
    lastText f (opts ++ [opt]) = (f opt).or (lastText f opts) := by
  rw [lastText, List.reverse_append, List.reverse_singleton, List.singleton_append, List.findSome?_cons]
  cases f opt with
  | none => rfl
  | some text => rfl

variable {g : Globals} {h : Host} {t : Task g} {m : Main g} {pre : List Opt}

/-- The length and the offset are those of the last texts. -/
structure SizesOf (pre : List Opt) (m : Main g) : Prop where
  shmlen_eq : m.shmArgs.shmlen = (lastText Opt.lengthText pre).elim 0 memsize
  shmoffset_eq : m.shmArgs.shmoffset = (lastText Opt.offsetText pre).elim 0 memsize

theorem sizesOf_of_accepted (hok : (Main.initial t).optionLoop h pre = .ok m) (hpre : pre.any Opt.attaches = false) :
    SizesOf pre m := by
  refine Runs.accepted_history_rule (I := fun pre m => pre.any Opt.attaches = false → SizesOf pre m)
    (fun _ => ⟨rfl, rfl⟩) (fun pre c opt d _ hc hstep hnone => ?_) hok hpre
  rw [List.any_append, List.any_cons, List.any_nil, Bool.or_false, Bool.or_eq_false_iff] at hnone
  have hsizes := hc hnone.1
  have hleaves := Main.leaves_step hstep
  constructor
  · rw [lastText_concat, hleaves.shmlen_eq hnone.2, hsizes.shmlen_eq]
    cases opt.lengthText with
    | none => rfl
    | some text => rfl
  · rw [lastText_concat, hleaves.shmoffset_eq, hsizes.shmoffset_eq]
    cases opt.offsetText with
    | none => rfl
    | some text => rfl

/-! ### Requests for a region -/

/-- A request is rejected by the range check of `attach_sysvshm`, whatever the system answers: no segment has been
got or created. -/
def SysvRejected (a : ShmArgs) : Prop :=
  ∀ (sys : SysvSystem) (name opt : String) (segs : Segments),
    sys.attachSysvshm name opt (.ofArgs a) segs =
      .error (.complain "shared memory offset/length is out of range", segs)

/-- The same for `attach_shared`: no file has been opened, created or resized. -/
def FileRejected (a : ShmArgs) : Prop :=
  ∀ (sys : FileSystem) (name opt : String) (file : Option Nat),
    sys.attachShared name opt (.ofArgs a) file =
      .error (.complain "shared file offset/length is out of range", file)

/-- A segment is attached for the request. -/
def SysvAttached (a : ShmArgs) : Prop :=
  ∃ (sys : SysvSystem) (name opt : String) (segs : Segments) (r : ShmVars × Segments),
    sys.attachSysvshm name opt (.ofArgs a) segs = .ok r

def FileAttached (a : ShmArgs) : Prop :=
  ∃ (sys : FileSystem) (name opt : String) (file : Option Nat) (r : ShmVars × Option Nat),
    sys.attachShared name opt (.ofArgs a) file = .ok r

section

variable {a : ShmArgs}

theorem toNat_ofArgs (hlen : a.shmlen < 2 ^ 64) (hoff : a.shmoffset < 2 ^ 64) :
    (ShmVars.ofArgs a).shmlen.toNat = a.shmlen ∧ (ShmVars.ofArgs a).shmoffset.toNat = a.shmoffset := by
  constructor
  · exact (BitVec.toNat_ofNat _ _).trans (Nat.mod_eq_of_lt hlen)
  · exact (BitVec.toNat_ofNat _ _).trans (Nat.mod_eq_of_lt hoff)

theorem sysvRejected_iff (hlen : a.shmlen < 2 ^ 64) (hoff : a.shmoffset < 2 ^ 64) :
    SysvRejected a ↔ 2 ^ 64 ≤ a.shmlen + a.shmoffset := by
  obtain ⟨hlen', hoff'⟩ := toNat_ofArgs hlen hoff
  have hrange : (sizeMax < (ShmVars.ofArgs a).shmoffset ∨
      sizeMax - (ShmVars.ofArgs a).shmoffset < (ShmVars.ofArgs a).shmlen) ↔ 2 ^ 64 ≤ a.shmlen + a.shmoffset := by
    have hmax : sizeMax.toNat = 2 ^ 64 - 1 := by decide
    have hle : (ShmVars.ofArgs a).shmoffset ≤ sizeMax := BitVec.le_def.mpr (by rw [hoff', hmax]; omega)
    rw [BitVec.lt_def, BitVec.lt_def, BitVec.toNat_sub_of_le hle, hmax, hlen', hoff']
    omega
  refine ⟨fun hrej => by_contra fun hin => ?_, fun hout sys name opt segs => ?_⟩
  · -- a system without a key for the name gets behind the range check
    have hplain := hrej { SysvSystem.plain with ftok := fun _ _ => none, creat := fun _ => false } "" "" fun _ => none
    rw [SysvSystem.attachSysvshm, Runs.bind_eq_error] at hplain
    rcases hplain with hplain | ⟨-, -, hplain⟩
    · exact hin (hrange.mp (failIf_eq_error.mp hplain).1)
    · cases hplain
  · rw [SysvSystem.attachSysvshm, Runs.bind_eq_error]
    exact Or.inl (failIf_eq_error.mpr ⟨hrange.mpr hout, rfl, rfl⟩)

theorem fileRejected_iff (hlen : a.shmlen < 2 ^ 64) (hoff : a.shmoffset < 2 ^ 64) :
    FileRejected a ↔ 2 ^ 63 ≤ a.shmlen + a.shmoffset := by
  obtain ⟨hlen', hoff'⟩ := toNat_ofArgs hlen hoff
  have hrange : (sizeMax < (ShmVars.ofArgs a).shmlen ∨ FileSystem.maxoff < (ShmVars.ofArgs a).shmoffset ∨
      FileSystem.maxoff - (ShmVars.ofArgs a).shmoffset < (ShmVars.ofArgs a).shmlen) ↔
      2 ^ 63 ≤ a.shmlen + a.shmoffset := by
    have hmax : FileSystem.maxoff.toNat = 2 ^ 63 - 1 := by decide
    have hsize : sizeMax.toNat = 2 ^ 64 - 1 := by decide
    by_cases hle : (ShmVars.ofArgs a).shmoffset ≤ FileSystem.maxoff
    · have hle' : a.shmoffset ≤ 2 ^ 63 - 1 := by
        rw [← hoff', ← hmax]
        exact BitVec.le_def.mp hle
      rw [BitVec.lt_def, BitVec.lt_def, BitVec.lt_def, BitVec.toNat_sub_of_le hle, hmax, hsize, hlen', hoff']
      omega
    · have hlt : FileSystem.maxoff < (ShmVars.ofArgs a).shmoffset := BitVec.not_le.mp hle
      have hlt' : 2 ^ 63 - 1 < a.shmoffset := by
        rw [← hoff', ← hmax]
        exact BitVec.lt_def.mp hlt
      exact iff_of_true (Or.inr (Or.inl hlt)) (by omega)
  refine ⟨fun hrej => by_contra fun hin => ?_, fun hout sys name opt file => ?_⟩
  · -- a system without `fstat` gets behind the range check
    have hplain := hrej { FileSystem.plain with statFails := true } "" "" (some 0)
    rw [FileSystem.attachShared, Runs.bind_eq_error] at hplain
    rcases hplain with hplain | ⟨-, -, hplain⟩
    · exact hin (hrange.mp (failIf_eq_error.mp hplain).1)
    · cases hplain
  · rw [FileSystem.attachShared, Runs.bind_eq_error]
    exact Or.inl (failIf_eq_error.mpr ⟨hrange.mpr hout, rfl, rfl⟩)

theorem SysvRejected.not_attached (hrej : SysvRejected a) : ¬SysvAttached a := by
  rintro ⟨sys, name, opt, segs, r, hok⟩
  rw [hrej sys name opt segs] at hok
  cases hok

theorem FileRejected.not_attached (hrej : FileRejected a) : ¬FileAttached a := by
  rintro ⟨sys, name, opt, file, r, hok⟩
  rw [hrej sys name opt file] at hok
  cases hok

end

/-- The size a text stands for, 0 where there is none. -/
def sizeOf? (s : Option SizeText) : Nat := s.elim 0 SizeText.size

/-- What it is read as. -/
def readOf? (s : Option SizeText) : Nat := s.elim 0 SizeText.sizeRead

/-- The texts are read as they stand, or the request is rejected at once; and no region is attached for a request
that goes past `limit`. -/
def Faithful (length offset : Option SizeText) (limit : Nat) (a : ShmArgs) (rejected attached : Prop) : Prop :=
  (a.shmlen = sizeOf? length ∧ a.shmoffset = sizeOf? offset ∨ rejected) ∧
    (limit < sizeOf? length + sizeOf? offset → ¬attached)

theorem faithful_iff {length offset : Option SizeText} {limit : Nat} {a : ShmArgs} {rejected attached : Prop}
    (hread : a.shmlen = readOf? length ∧ a.shmoffset = readOf? offset)
    (hrej : rejected ↔ limit < a.shmlen + a.shmoffset) (hnot : rejected → ¬attached) :
    Faithful length offset limit a rejected attached ↔
      (∀ s, length = some s → s.Fits) ∧ (∀ s, offset = some s → s.Fits) ∨
        limit < readOf? length + readOf? offset := by
  have hexact : ∀ s : Option SizeText, readOf? s = sizeOf? s ↔ ∀ u, s = some u → u.Fits := by
    intro s
    cases s with
    | none => exact iff_of_true rfl fun u hu => by cases hu
    | some u =>
        refine SizeText.sizeRead_eq_size_iff.trans ⟨fun h v hv => ?_, fun h => h u rfl⟩
        exact Option.some.inj hv ▸ h
  rw [Faithful, ← hexact, ← hexact, hread.1, hread.2]
  rw [hread.1, hread.2] at hrej
  rw [← hrej, and_iff_left_of_imp]
  rintro (⟨hlen, hoff⟩ | hrejected) hover
  · exact hnot (hrej.mpr (by rw [hlen, hoff]; exact hover))
  · exact hnot hrejected

section

variable {g : Globals} {h : Host} {t : Task g} {m : Main g} {pre : List Opt}

theorem readOf?_lt (s : Option SizeText) : readOf? s < 2 ^ 64 := by
  cases s with
  | none => decide
  | some s => exact s.sizeRead_lt

/-- A request by `--length` and `--offset` is treated as it stands by both attach functions exactly if its texts
fit, or what they are read as is out of range. -/
theorem faithful_request_iff (hok : (Main.initial t).optionLoop h pre = .ok m)
    (hpre : pre.any Opt.attaches = false) {length offset : Option SizeText}
    (hlength : lastText Opt.lengthText pre = length.map SizeText.text)
    (hoffset : lastText Opt.offsetText pre = offset.map SizeText.text) :
    (Faithful length offset (2 ^ 64 - 1) m.shmArgs (SysvRejected m.shmArgs) (SysvAttached m.shmArgs) ↔
      (∀ s, length = some s → s.Fits) ∧ (∀ s, offset = some s → s.Fits) ∨
        2 ^ 64 - 1 < readOf? length + readOf? offset) ∧
    (Faithful length offset (2 ^ 63 - 1) m.shmArgs (FileRejected m.shmArgs) (FileAttached m.shmArgs) ↔
      (∀ s, length = some s → s.Fits) ∧ (∀ s, offset = some s → s.Fits) ∨
        2 ^ 63 - 1 < readOf? length + readOf? offset) := by
  have hsizes := sizesOf_of_accepted hok hpre
  have helim : ∀ s : Option SizeText, (s.map SizeText.text).elim 0 memsize = readOf? s := by
    intro s
    cases s with
    | none => rfl
    | some s => exact s.memsize_text
  have hread : m.shmArgs.shmlen = readOf? length ∧ m.shmArgs.shmoffset = readOf? offset := by
    rw [hsizes.shmlen_eq, hsizes.shmoffset_eq, hlength, hoffset, helim, helim]
    exact ⟨rfl, rfl⟩
  have hlen : m.shmArgs.shmlen < 2 ^ 64 := hread.1 ▸ readOf?_lt length
  have hoff : m.shmArgs.shmoffset < 2 ^ 64 := hread.2 ▸ readOf?_lt offset
  constructor
  · refine faithful_iff hread ((sysvRejected_iff hlen hoff).trans ?_) SysvRejected.not_attached
    omega
  · refine faithful_iff hread ((fileRejected_iff hlen hoff).trans ?_) FileRejected.not_attached
    omega

end

/-- 8192 bytes. -/
def eightK : SizeText where
  digits := "8".toList
  suffix := some 'k'
  ne_nil := by decide
  decimal := CString.forall_mem_of_all (by decide)
  unit := fun c hc => by cases hc; decide

theorem faithful_eightK :
    ∃ m, (Main.initial (Task.initial gapGlobals)).optionLoop plainHost [.length "8k".toList] = .ok m ∧
      Faithful (some eightK) none (2 ^ 63 - 1) m.shmArgs (FileRejected m.shmArgs) (FileAttached m.shmArgs) := by
  obtain ⟨m, hok⟩ : ∃ m, (Main.initial (Task.initial gapGlobals)).optionLoop plainHost [.length "8k".toList] =
      .ok m := Main.exists_ok (by decide +kernel)
  have hlength : lastText Opt.lengthText [.length "8k".toList] = (some eightK).map SizeText.text := rfl
  have hoffset : lastText Opt.offsetText [.length "8k".toList] = (none : Option SizeText).map SizeText.text := rfl
  refine ⟨m, hok, (faithful_request_iff hok rfl hlength hoffset).2.mpr ?_⟩
  refine Or.inl ⟨fun s hs => ?_, fun s hs => by cases hs⟩
  obtain rfl := Option.some.inj hs
  exact ⟨by decide, fun hzero => absurd hzero (by decide)⟩

/-- Four kilobytes more than 2 to the 64. -/
def wrappedK : SizeText where
  digits := "18014398509481988".toList
  suffix := some 'k'
  ne_nil := by decide
  decimal := CString.forall_mem_of_all (by decide)
  unit := fun c hc => by cases hc; decide

/-- The length is read as 4096, and both functions attach a region of that length. -/
theorem not_faithful_wrappedK :
    ∃ m, (Main.initial (Task.initial gapGlobals)).optionLoop plainHost [.length "18014398509481988k".toList] = .ok m ∧
      "18014398509481988k".toList = wrappedK.text ∧ wrappedK.size = 2 ^ 64 + 4096 ∧ m.shmArgs.shmlen = 4096 ∧
      ¬Faithful (some wrappedK) none (2 ^ 64 - 1) m.shmArgs (SysvRejected m.shmArgs) (SysvAttached m.shmArgs) ∧
      ¬Faithful (some wrappedK) none (2 ^ 63 - 1) m.shmArgs (FileRejected m.shmArgs) (FileAttached m.shmArgs) := by
  have hread : memsize "18014398509481988k".toList = 4096 := by decide +kernel
  have hargs : ∃ m, (Main.initial (Task.initial gapGlobals)).optionLoop plainHost
      [.length "18014398509481988k".toList] = .ok m ∧
      m.shmArgs = { shmlen := 4096, shmoffset := 0, shmmode := 0o600, shmid := 0, huge := false } := by
    refine ⟨_, rfl, ?_⟩
    change ShmArgs.mk (memsize "18014398509481988k".toList) _ _ _ _ = _
    rw [hread]
    rfl
  obtain ⟨m, hok, hargs⟩ := hargs
  have hsize : wrappedK.size = 2 ^ 64 + 4096 := by decide +kernel
  have hover : ∀ limit, limit < 2 ^ 64 + 4096 → limit < sizeOf? (some wrappedK) + sizeOf? none := by
    intro limit hlt
    exact hlt.trans_eq hsize.symm
  refine ⟨m, hok, by decide, hsize, by rw [hargs], fun hfaithful => ?_, fun hfaithful => ?_⟩
  · refine hfaithful.2 (hover _ (by decide)) ⟨SysvSystem.plain, "key", "--shm", fun _ => some 4096, ?_⟩
    rw [hargs]
    exact ⟨_, rfl⟩
  · refine hfaithful.2 (hover _ (by decide)) ⟨FileSystem.plain, "file", "--file", some 4096, ?_⟩
    rw [hargs]
    exact ⟨_, rfl⟩

end Numactl
