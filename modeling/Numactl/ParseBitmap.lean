import Numactl.Base.CString
import Numactl.Bitmask

/-! Parsing a cpumap line (`numa_parse_bitmap_v1`, `numa_parse_bitmap_v2` in `libnuma.c`). The parser
walks backwards over the line, a pointer `p` into it being an offset. Two groups of 32 bits make a word:
the comma between them is removed by moving the text behind it down in place, so the line changes while
it is read. -/

namespace Numactl

/-- `CPU_LONGS` of an `int`, which the macro converts to `unsigned long`. -/
def cpuLongsInt (ncpus : BitVec 32) : Nat :=
  ((ncpus.signExtend 64 + 63#64) &&& ~~~63#64).toNat / 8 / 8

/-- `while (p > line && *p != ',') --p`. -/
def scanBack (text : List Char) : Nat → Nat
  | 0 => 0
  | p + 1 => if text[p + 1]? = some ',' then p + 1 else scanBack text p

/-- `memmove(p, p + 1, n)`. -/
def memmoveDown (text : List Char) (p n : Nat) : List Char :=
  text.take p ++ (text.drop (p + 1)).take n ++ text.drop (p + n)

/-- The part of the loop body before the conversion: the line, the start of the digits in it and the
place `oldp` where they have to end. -/
def cutField (text : List Char) (p : Nat) : List Char × Nat × Nat :=
  let oldp := p
  let p := if text[p]? = some ',' then p - 1 else p
  let p := scanBack text p
  let oldp' := if 0 < p then oldp - 1 else oldp
  let text' := if 0 < p then memmoveDown text p (oldp' - p + 1) else text
  let p' := if 0 < p then scanBack text' p else p
  (text', if text'[p']? = some ',' then p' + 1 else p', oldp')

/-- The loop over the fields of a line, the last one first. `p` falls in every round, so `fuel` starts
at its first value. -/
def parseFields (ncpus : BitVec 32) : Nat → List Char → Nat → Nat → List Word → Int × List Word
  | 0, _, _, _, mask => (0, mask)
  | fuel + 1, text, p, i, mask =>
      if p = 0 then (0, mask)
      else
        let field := cutField text p
        if cpuLongsInt ncpus ≤ i then (-1, mask)
        else
          let number := CString.strtoul 16 (field.1.drop field.2.1)
          let mask := mask.set i (BitVec.ofNat 64 number.1)
          if field.1.length - number.2.length ≠ field.2.2 then (-1, mask)
          else parseFields ncpus fuel field.1 (field.2.1 - 1) (i + 1) mask

/-- `numa_parse_bitmap_v1`: the return value and the words of the array after the call. -/
def numaParseBitmapV1 (text : List Char) (mask : List Word) (ncpus : BitVec 32) : Int × List Word :=
  if '\n' ∈ text then parseFields ncpus (text.idxOf '\n') text (text.idxOf '\n') 0 mask
  else (-1, mask)

/-- A conversion in the loop sets `errno` to `ERANGE`. -/
def fieldsOverflow (ncpus : BitVec 32) : Nat → List Char → Nat → Nat → Bool
  | 0, _, _, _ => false
  | fuel + 1, text, p, i =>
      if p = 0 then false
      else
        let field := cutField text p
        if cpuLongsInt ncpus ≤ i then false
        else
          let digits := field.1.drop field.2.1
          let number := CString.strtoul 16 digits
          CString.strtoulOverflows 16 digits ||
            if field.1.length - number.2.length ≠ field.2.2 then false
            else fieldsOverflow ncpus fuel field.1 (field.2.1 - 1) (i + 1)

/-- What `numa_parse_bitmap_v1` sets `errno` to, if it does. -/
def numaParseBitmapErrno (text : List Char) (ncpus : BitVec 32) : Option Errno :=
  if '\n' ∈ text ∧ fieldsOverflow ncpus (text.idxOf '\n') text (text.idxOf '\n') 0 then some ERANGE else none

theorem length_parseFields (ncpus : BitVec 32) (fuel : Nat) (text : List Char) (p i : Nat)
    (mask : List Word) : (parseFields ncpus fuel text p i mask).2.length = mask.length := by
  induction fuel generalizing text p i mask with
  | zero => rfl
  | succ fuel ih =>
      unfold parseFields
      split
      · rfl
      · dsimp only
        split
        · rfl
        · split
          · exact List.length_set
          · rw [ih, List.length_set]

theorem length_numaParseBitmapV1 (text : List Char) (mask : List Word) (ncpus : BitVec 32) :
    (numaParseBitmapV1 text mask ncpus).2.length = mask.length := by
  unfold numaParseBitmapV1
  split
  · exact length_parseFields ncpus _ text _ 0 mask
  · rfl

/-- `numa_parse_bitmap_v2`, the body of version 1 on the mask's words, `ncpus` being `mask->size` stored
in an `int`. -/
def numaParseBitmapV2 (text : List Char) (mask : Bitmask) : Int × Bitmask :=
  let r := numaParseBitmapV1 text mask.maskp (BitVec.ofNat 32 mask.size)
  (r.1, { size := mask.size, maskp := r.2, fits := mask.fits.trans_eq (length_numaParseBitmapV1 _ _ _).symm })

@[simp] theorem size_numaParseBitmapV2 (text : List Char) (mask : Bitmask) :
    (numaParseBitmapV2 text mask).2.size = mask.size := rfl

/-! ### The pointer falls in every round -/

theorem scanBack_le (text : List Char) (p : Nat) : scanBack text p ≤ p := by
  induction p with
  | zero => exact le_rfl
  | succ p ih =>
      rw [scanBack]
      split
      · exact le_rfl
      · omega

theorem cutField_lt (text : List Char) {p : Nat} (hp : 0 < p) : (cutField text p).2.1 - 1 < p := by
  have hback : scanBack text (if text[p]? = some ',' then p - 1 else p) < p := by
    split
    · exact (scanBack_le text (p - 1)).trans_lt (by omega)
    · next hcomma =>
      obtain ⟨q, rfl⟩ := Nat.exists_eq_succ_of_ne_zero hp.ne'
      rw [scanBack, if_neg hcomma]
      exact (scanBack_le text q).trans_lt (Nat.lt_succ_self q)
  unfold cutField
  dsimp only
  generalize scanBack text (if text[p]? = some ',' then p - 1 else p) = q at hback ⊢
  have hagain := scanBack_le (memmoveDown text q (p - 1 - q + 1)) q
  split_ifs <;> omega

/-- More fuel than the pointer has no effect. -/
theorem parseFields_fuel (ncpus : BitVec 32) {fuel p : Nat} (hp : p ≤ fuel) (text : List Char) (i : Nat)
    (mask : List Word) : parseFields ncpus fuel text p i mask = parseFields ncpus p text p i mask := by
  induction fuel using Nat.strong_induction_on generalizing p text i mask with
  | _ fuel ih =>
      obtain rfl | hpos := Nat.eq_zero_or_pos p
      · cases fuel <;> rfl
      · obtain ⟨f, rfl⟩ := Nat.exists_eq_succ_of_ne_zero (hpos.trans_le hp).ne'
        obtain ⟨q, rfl⟩ := Nat.exists_eq_succ_of_ne_zero hpos.ne'
        have hlt := cutField_lt text hpos
        rw [parseFields, parseFields, if_neg hpos.ne', if_neg hpos.ne']
        dsimp only
        split
        · rfl
        · split
          · rfl
          · rw [ih f (Nat.lt_succ_self f) (by omega), ih q (by omega) (by omega)]

end Numactl
