import Numactl.NodeList

/-! Device items of a node list. A number in a list must be one of the allowed nodes; the node sysfs gives for
a device is compared with their number instead. -/

namespace Numactl

open CString (isspace strtol)

/-- The text of a `numa_node` file that holds one number: `strtol` reads it, and white space is left. -/
def HoldsNumber (text : List Char) (n : Nat) : Prop :=
  ∃ rest, strtol 0 text = ((n : Int), rest) ∧ rest ≠ text ∧ ∀ c ∈ rest, isspace c = true

/-- The `numa_node` file of the items that name a device themselves. -/
def Handler.numaNode (dv : Devices) (desc : List Char) : Handler → Option (List Char)
  | .netdev => dv.classNode "net".toList (desc.dropWhile isspace)
  | .block => dv.classNode "block".toList (desc.dropWhile isspace)
  | .pci => dv.pciNode desc
  | _ => none

/-- The name is one the item may have: `badchar` keeps `/` and `.` out of the names of classes. -/
def Handler.nameAllowed (desc : List Char) : Handler → Bool
  | .pci => true
  | _ => !(desc.dropWhile isspace).any fun c => c = '/' || c = '.'

/-- What the item should give: the node of the device if it is allowed, else no mask. -/
def ReturnsNode (g : Globals) (dv : Devices) (s : List Char) (n : Nat) : Prop :=
  (n ∈ g.numaAllNodesPtr.bits → ∃ mask, numaParseNodestring g dv s = some mask ∧ mask.bits = {n}) ∧
    (n ∉ g.numaAllNodesPtr.bits → numaParseNodestring g dv s = none)

variable {g : Globals} {dv : Devices} {text desc : List Char} {n : Nat}

/-- The number is put into an `int`. -/
theorem toInt_ofInt_natCast (hlt : n % 2 ^ 32 < 2 ^ 31) : (BitVec.ofInt 32 (n : Int)).toInt = (n % 2 ^ 32 : Nat) := by
  rw [BitVec.ofInt_natCast, BitVec.toInt_eq_toNat_bmod, BitVec.toNat_ofNat, Int.bmod_def]
  omega

theorem toInt_ofInt_natCast_neg (hle : 2 ^ 31 ≤ n % 2 ^ 32) : (BitVec.ofInt 32 (n : Int)).toInt < 0 := by
  rw [BitVec.ofInt_natCast, BitVec.toInt_eq_toNat_bmod, BitVec.toNat_ofNat, Int.bmod_def]
  omega

theorem dropWhile_of_all_isspace {rest : List Char} (hrest : ∀ c ∈ rest, isspace c = true) :
    rest.dropWhile (fun c => isspace c || c = ',') = [] := by
  rw [List.dropWhile_eq_nil_iff]
  intro c hc
  rw [hrest c hc, Bool.true_or]

/-- A file with one number sets that node if it is below the number of allowed nodes, and fails otherwise. -/
theorem nodeParse_sysfsNodeRead (hle : g.numprocnode ≤ 2 ^ 31) (htext : HoldsNumber text n) (mask : Bitmask) :
    nodeParse (sysfsNodeRead g (some text) mask) =
      if n % 2 ^ 32 < g.numprocnode then (0, numaBitmaskSetbit mask (n % 2 ^ 32)) else (-1, mask) := by
  obtain ⟨rest, hread, hne, hspace⟩ := htext
  simp only [sysfsNodeRead, sysfsNodeLoop, hread, if_neg hne]
  by_cases hsmall : n % 2 ^ 32 < 2 ^ 31
  · rw [toInt_ofInt_natCast hsmall, if_neg (by omega)]
    by_cases hin : n % 2 ^ 32 < g.numprocnode
    · rw [if_pos hin, if_neg (by omega), dropWhile_of_all_isspace hspace]
      rfl
    · rw [if_neg hin, if_pos (by omega)]
      rfl
  · rw [if_pos (toInt_ofInt_natCast_neg (by omega)), if_neg (by omega)]
    rfl

/-- What an item does with the number in the file of its device. -/
theorem handler_eq {h : Handler} (hfile : h.numaNode dv desc = some text) (hle : g.numprocnode ≤ 2 ^ 31)
    (htext : HoldsNumber text n) (mask : Bitmask) :
    h.handler g dv mask desc =
      if h.nameAllowed desc = true ∧ n % 2 ^ 32 < g.numprocnode then (0, numaBitmaskSetbit mask (n % 2 ^ 32))
      else (-1, mask) := by
  have hclass : ∀ cls, dv.classNode cls (desc.dropWhile isspace) = some text →
      affinityClass g dv mask cls desc =
        if (!(desc.dropWhile isspace).any fun c => c = '/' || c = '.') = true ∧ n % 2 ^ 32 < g.numprocnode then
          (0, numaBitmaskSetbit mask (n % 2 ^ 32)) else (-1, mask) := by
    intro cls hcls
    unfold affinityClass
    dsimp only
    cases (desc.dropWhile isspace).any fun c => c = '/' || c = '.' with
    | true => rfl
    | false =>
        rw [if_neg Bool.false_ne_true, hcls, nodeParse_sysfsNodeRead hle htext]
        simp only [Bool.not_false, true_and]
  cases h with
  | netdev => exact hclass _ hfile
  | ip => cases hfile
  | file => cases hfile
  | block => exact hclass _ hfile
  | pci =>
      have hpci : dv.pciNode desc = some text := hfile
      change affinityPci g dv mask desc = _
      rw [affinityPci, hpci, nodeParse_sysfsNodeRead hle htext]
      simp only [Handler.nameAllowed, true_and]

theorem find?_handlers (h : Handler) (desc : List Char) :
    (handlers.find? fun k => k.name.isPrefixOf (h.name ++ desc)) = some h := by
  cases h <;> rfl

theorem name_append_ne_all (h : Handler) (desc : List Char) : h.name ++ desc ≠ all := by
  cases h <;> exact fun heq => by cases heq

/-- A list that is a device item: what its handler makes of an empty mask. -/
theorem numaParseNodestring_device (g : Globals) (dv : Devices) (h : Handler) (desc : List Char) :
    numaParseNodestring g dv (h.name ++ desc) =
      if (h.handler g dv g.numaAllocateNodemask desc).1 < 0 then none
      else some (h.handler g dv g.numaAllocateNodemask desc).2 := by
  have hresolve : resolveAffinity g dv (h.name ++ desc) g.numaAllocateNodemask =
      h.handler g dv g.numaAllocateNodemask desc := by
    rw [resolveAffinity, find?_handlers]
    dsimp only
    rw [List.drop_left]
  have hword : isNodeWord (h.name ++ desc) = true := by
    rw [isNodeWord, Bool.or_eq_true]
    refine Or.inr (List.any_eq_true.mpr ⟨h, by cases h <;> decide, ?_⟩)
    exact List.isPrefixOf_iff_prefix.mpr (List.prefix_append _ _)
  have hne : h.name ++ desc ≠ [] := fun heq => by rw [heq] at hword; cases hword
  have hinvert : (h.name ++ desc).head? ≠ some '!' := by cases h <;> exact fun heq => by cases heq
  have hrelative : (h.name ++ desc).head? ≠ some '+' := by cases h <;> exact fun heq => by cases heq
  rw [numaParseNodestring, parseNodestring, if_neg hne, parseString]
  simp only [hinvert, hrelative, decide_false, Bool.false_eq_true, if_false, parseItems, nodeArgs_word, hword, if_true,
    if_neg (name_append_ne_all h desc), hresolve]
  exact Option.map_id'

theorem card_bits_le (bmp : Bitmask) : bmp.bits.card ≤ bmp.size := by
  have hsub : bmp.bits ⊆ Finset.range bmp.size := fun i hi => Finset.mem_range.mpr (Bitmask.mem_bits.mp hi).1
  calc bmp.bits.card ≤ (Finset.range bmp.size).card := Finset.card_le_card hsub
    _ = bmp.size := Finset.card_range bmp.size

/-- A device item gives the node of its device if it is allowed, and no mask if it is not, exactly if the node is
allowed just when the name is one the item may have and the node, as an `int`, is below the number of allowed
nodes. -/
theorem returnsNode_iff {h : Handler} (hnum : g.numprocnode = g.numaAllNodesPtr.bits.card)
    (hfile : h.numaNode dv desc = some text) (htext : HoldsNumber text n) :
    ReturnsNode g dv (h.name ++ desc) n ↔
      (n ∈ g.numaAllNodesPtr.bits ↔
        h.nameAllowed desc = true ∧ n % 2 ^ 32 < g.numaAllNodesPtr.bits.card) := by
  have hcard : g.numprocnode ≤ g.nodemaskSz := by
    rw [hnum, ← g.all_nodes_size]
    exact card_bits_le _
  have hsz := g.nodemask_lt
  have hsmall : n ∈ g.numaAllNodesPtr.bits → n % 2 ^ 32 = n := by
    intro hmem
    have hlt := (Bitmask.mem_bits.mp hmem).1
    rw [g.all_nodes_size] at hlt
    exact Nat.mod_eq_of_lt (by omega)
  rw [ReturnsNode, numaParseNodestring_device, handler_eq hfile (by omega) htext, ← hnum]
  by_cases hin : h.nameAllowed desc = true ∧ n % 2 ^ 32 < g.numprocnode
  · have hbits : (numaBitmaskSetbit g.numaAllocateNodemask (n % 2 ^ 32)).bits = {n % 2 ^ 32} := by
      have hlt : n % 2 ^ 32 < g.numaAllocateNodemask.size := hin.2.trans_le hcard
      have hempty : g.numaAllocateNodemask.bits = ∅ := bits_zeroBitmask _
      rw [numaBitmaskSetbit, bits_setbit_true, if_pos hlt, hempty]
      rfl
    rw [if_pos hin, if_neg (Int.lt_irrefl 0), iff_true_right hin]
    refine ⟨fun hret => ?_, fun hmem => ⟨fun _ => ⟨_, rfl, ?_⟩, fun hnot => absurd hmem hnot⟩⟩
    · by_contra hnot
      cases hret.2 hnot
    · rw [hbits, hsmall hmem]
  · rw [if_neg hin, if_pos (show (-1 : Int) < 0 by decide), iff_false_right hin]
    refine ⟨fun hret hmem => ?_, fun hnot => ⟨fun hmem => absurd hmem hnot, fun _ => rfl⟩⟩
    obtain ⟨mask, hmask, -⟩ := hret.1 hmem
    cases hmask

/-- A machine on which the task may use the nodes 0 and 2, the size of the set being known, and whose devices are
on node 2. -/
def deviceGlobals : Globals where
  __ := gapGlobals
  numprocnode := 2

def nodeTwoDevices : Devices := ⟨fun _ _ => some "2\n".toList, fun _ => some "0\n".toList, fun _ => none, fun _ => none⟩

theorem holdsNumber_two : HoldsNumber "2\n".toList 2 := by
  refine ⟨"\n".toList, by decide, by decide, fun c hc => ?_⟩
  rw [List.mem_singleton.mp hc]
  rfl

theorem holdsNumber_zero : HoldsNumber "0\n".toList 0 := by
  refine ⟨"\n".toList, by decide, by decide, fun c hc => ?_⟩
  rw [List.mem_singleton.mp hc]
  rfl

theorem deviceGlobals_bits : deviceGlobals.numaAllNodesPtr.bits = {0, 2} := by decide +kernel

theorem returnsNode_pci : ReturnsNode deviceGlobals nodeTwoDevices "pci:0:1f.2".toList 0 := by
  have hcard : deviceGlobals.numprocnode = deviceGlobals.numaAllNodesPtr.bits.card := by
    rw [deviceGlobals_bits]
    rfl
  have hfile : Handler.pci.numaNode nodeTwoDevices "0:1f.2".toList = some "0\n".toList := rfl
  refine (returnsNode_iff hcard hfile holdsNumber_zero).mpr ?_
  rw [deviceGlobals_bits]
  decide

/-- The interface is on the allowed node 2, and 2 is not below the number of allowed nodes. -/
theorem not_returnsNode_netdev : deviceGlobals.numprocnode = deviceGlobals.numaAllNodesPtr.bits.card ∧
    HoldsNumber "2\n".toList 2 ∧ Handler.netdev.numaNode nodeTwoDevices "eth0".toList = some "2\n".toList ∧
      2 ∈ deviceGlobals.numaAllNodesPtr.bits ∧ ¬ReturnsNode deviceGlobals nodeTwoDevices "netdev:eth0".toList 2 := by
  have hmem : 2 ∈ deviceGlobals.numaAllNodesPtr.bits := by
    rw [deviceGlobals_bits]
    decide
  refine ⟨by rw [deviceGlobals_bits]; rfl, holdsNumber_two, rfl, hmem, fun hret => ?_⟩
  obtain ⟨mask, hmask, -⟩ := hret.1 hmem
  have hnone : numaParseNodestring deviceGlobals nodeTwoDevices "netdev:eth0".toList = none := by decide +kernel
  rw [hnone] at hmask
  cases hmask

end Numactl
