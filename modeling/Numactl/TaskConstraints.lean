import Numactl.ReadMask

/-! What a task may use, from `/proc/self/status` (`set_nodemask_size`, `set_task_constraints` in
`libnuma.c`). The file is the list of its lines, or nothing when it cannot be opened. Bit counts and CPU
counts are taken to fit an `int`, and a mask line has a tab before its mask. -/

namespace Numactl

open CString (isDigitOf digitVal)

def isDigit (s : Char) : Bool :=
  ('0' ≤ s ∧ s ≤ '9') ∨ ('a' ≤ s ∧ s ≤ 'f') ∨ ('A' ≤ s ∧ s ≤ 'F')

def strprefix (s pre : List Char) : Bool := s.take pre.length == pre

def nodemaskPrefix : List Char := "Mems_allowed:\t".toList

/-- `strrchr(buffer, '\t') + 1`. -/
def afterLastTab (buffer : List Char) : Option (List Char) :=
  if '\t' ∈ buffer then some (buffer.reverse.takeWhile (· ≠ '\t')).reverse else none

/-- One line in the loop of `set_nodemask_size`. -/
def nodemaskSizeLine (nodemaskSz : Nat) (buf : List Char) : Nat :=
  if strprefix buf nodemaskPrefix then
    (((buf.drop nodemaskPrefix.length).takeWhile (· ≠ '\n')).countP isDigit) * 4
  else nodemaskSz

/-- The sizes tried when no line tells it, 32768 the last of them; `einval` says for which `get_mempolicy`
fails with `EINVAL`. -/
def fallbackSize (einval : Nat → Bool) : Nat → Nat → Nat
  | 0, nodemaskSz => nodemaskSz
  | fuel + 1, nodemaskSz =>
      if einval (nodemaskSz * 2) ∧ nodemaskSz * 2 < 4096 * 8 then fallbackSize einval fuel (nodemaskSz * 2)
      else nodemaskSz * 2

/-- From a `nodemask_sz` of 0. -/
def setNodemaskSize (einval : Nat → Bool) (status : Option (List (List Char))) : Nat :=
  let nodemaskSz := (status.getD []).foldl nodemaskSizeLine 0
  if nodemaskSz = 0 then fallbackSize einval 11 16 else nodemaskSz

/-- What has been found out before the constraints are read. -/
structure MachineSizes where
  nodemaskSz : Nat
  cpumaskSz : Nat
  maxconfiguredcpu : Nat
  maxconfigurednode : Nat

/-- What `set_task_constraints` sets. -/
structure TaskConstraints where
  numaAllCpusPtr : Bitmask
  numaPossibleCpusPtr : Bitmask
  numaAllNodesPtr : Bitmask
  numaPossibleNodesPtr : Bitmask
  numaNoNodesPtr : Bitmask
  numproccpu : Int
  numprocnode : Int

namespace TaskConstraints

/-- Before the file is read. The possible nodes have a mask of the size of a CPU mask. -/
def initial (sizes : MachineSizes) : TaskConstraints where
  numaAllCpusPtr := zeroBitmask sizes.cpumaskSz
  numaPossibleCpusPtr := zeroBitmask sizes.cpumaskSz
  numaAllNodesPtr := zeroBitmask sizes.nodemaskSz
  numaPossibleNodesPtr := zeroBitmask sizes.cpumaskSz
  numaNoNodesPtr := zeroBitmask sizes.nodemaskSz
  numproccpu := -1
  numprocnode := -1

def cpusPrefix : List Char := "Cpus_allowed:".toList

def memsPrefix : List Char := "Mems_allowed:".toList

def readCpus (buffer mask : List Char) (c : TaskConstraints) : TaskConstraints :=
  if strprefix buffer cpusPrefix then
    { c with
      numproccpu := (readMask mask c.numaAllCpusPtr).1
      numaAllCpusPtr := (readMask mask c.numaAllCpusPtr).2 }
  else c

def readMems (buffer mask : List Char) (c : TaskConstraints) : TaskConstraints :=
  if strprefix buffer memsPrefix then
    { c with
      numprocnode := (readMask mask c.numaAllNodesPtr).1
      numaAllNodesPtr := (readMask mask c.numaAllNodesPtr).2 }
  else c

/-- One line of the file. -/
def readLine (c : TaskConstraints) (buffer : List Char) : TaskConstraints :=
  match afterLastTab buffer with
  | none => c
  | some mask => readMems buffer mask (readCpus buffer mask c)

/-- The possible CPUs and nodes, which are those configured. -/
def setPossible (sizes : MachineSizes) (c : TaskConstraints) : TaskConstraints :=
  { c with
    numaPossibleCpusPtr := (List.range (sizes.maxconfiguredcpu + 1)).foldl numaBitmaskSetbit c.numaPossibleCpusPtr
    numaPossibleNodesPtr :=
      (List.range (sizes.maxconfigurednode + 1)).foldl numaBitmaskSetbit c.numaPossibleNodesPtr }

/-- Without CPUs read, all configured ones. -/
def defaultCpus (sizes : MachineSizes) (c : TaskConstraints) : TaskConstraints :=
  if c.numproccpu ≤ 0 then
    { c with
      numaAllCpusPtr := (List.range (sizes.maxconfiguredcpu + 1)).foldl numaBitmaskSetbit c.numaAllCpusPtr
      numproccpu := sizes.maxconfiguredcpu + 1 }
  else c

/-- With more CPUs than are configured, those with higher numbers are taken out. -/
def reduceCpus (sizes : MachineSizes) (c : TaskConstraints) : TaskConstraints :=
  if (sizes.maxconfiguredcpu : Int) + 1 < c.numproccpu then
    { c with
      numaAllCpusPtr := ((List.range c.numaAllCpusPtr.size).filter (sizes.maxconfiguredcpu + 1 ≤ ·)).foldl
        numaBitmaskClearbit c.numaAllCpusPtr
      numproccpu := sizes.maxconfiguredcpu + 1 }
  else c

def defaultNodes (sizes : MachineSizes) (c : TaskConstraints) : TaskConstraints :=
  if c.numprocnode ≤ 0 then
    { c with
      numaAllNodesPtr := (List.range (sizes.maxconfigurednode + 1)).foldl numaBitmaskSetbit c.numaAllNodesPtr
      numprocnode := sizes.maxconfigurednode + 1 }
  else c

end TaskConstraints

open TaskConstraints in
/-- `set_task_constraints`, which leaves the masks empty when the file cannot be opened. -/
def setTaskConstraints (sizes : MachineSizes) (status : Option (List (List Char))) : TaskConstraints :=
  match status with
  | none => initial sizes
  | some lines =>
      defaultNodes sizes (reduceCpus sizes (defaultCpus sizes (setPossible sizes
        (lines.foldl readLine (initial sizes)))))

def numaNumTaskNodes (c : TaskConstraints) : Int := c.numprocnode

def numaNumTaskCpus (c : TaskConstraints) : Int := c.numproccpu

/-! ### The lines with masks -/

namespace MaskText

/-- The line of `/proc/self/status` that starts with `pre` and holds the mask. -/
def line (m : MaskText) (pre : List Char) : List Char := pre ++ '\t' :: (m.text ++ ['\n'])

theorem mem_commaGroups {gs : List (List Char)} {c : Char} (h : c ∈ commaGroups gs) :
    c = ',' ∨ ∃ g ∈ gs, c ∈ g := by
  obtain ⟨g, hg, hc⟩ := List.mem_flatMap.mp h
  rcases List.mem_cons.mp hc with rfl | hc
  · exact Or.inl rfl
  · exact Or.inr ⟨g, hg, hc⟩

theorem mem_text {m : MaskText} {c : Char} (h : c ∈ m.text) : isDigitOf 16 c = true ∨ c = ',' := by
  rcases List.mem_append.mp h with h | h
  · exact Or.inl ((m.isGroup m.first List.mem_cons_self).digits c h)
  · rcases mem_commaGroups h with rfl | ⟨g, hg, hc⟩
    · exact Or.inr rfl
    · exact Or.inl ((m.isGroup g (List.mem_cons_of_mem _ hg)).digits c hc)

theorem isDigit_of_isDigitOf {c : Char} (h : isDigitOf 16 c = true) : isDigit c = true := by
  rw [isDigitOf, Option.any_eq_true] at h
  obtain ⟨d, hd, hlt⟩ := h
  rw [decide_eq_true_eq] at hlt
  simp only [isDigit, decide_eq_true_eq]
  simp only [digitVal, Char.le_def, UInt32.le_iff_toNat_le] at hd ⊢
  split_ifs at hd with hdigit hlower hupper
  · exact Or.inl hdigit
  · refine Or.inr (Or.inl ⟨hlower.1, ?_⟩)
    have hval : c.toNat - 87 = d := Option.some.inj hd
    change c.val.toNat - 87 = d at hval
    change c.val.toNat ≤ 102
    omega
  · refine Or.inr (Or.inr ⟨hupper.1, ?_⟩)
    have hval : c.toNat - 55 = d := Option.some.inj hd
    change c.val.toNat - 55 = d at hval
    change c.val.toNat ≤ 70
    omega

theorem countP_isDigit_text (m : MaskText) : m.text.countP isDigit = m.digits := by
  have hgroup : ∀ g, IsGroup g → g.countP isDigit = g.length := fun g hg =>
    List.countP_eq_length.mpr fun c hc => isDigit_of_isDigitOf (hg.digits c hc)
  have hrest : ∀ gs : List (List Char), (∀ g ∈ gs, IsGroup g) → (∀ g ∈ gs, g.length = 8) →
      (commaGroups gs).countP isDigit = 8 * gs.length := by
    intro gs hgs hfull
    induction gs with
    | nil => rfl
    | cons g gs ih =>
        have hcons : commaGroups (g :: gs) = ',' :: (g ++ commaGroups gs) := by simp [commaGroups]
        rw [hcons, List.countP_cons_of_neg (by decide), List.countP_append, hgroup g (hgs g List.mem_cons_self),
          ih (fun a ha => hgs a (List.mem_cons_of_mem g ha)) fun a ha => hfull a (List.mem_cons_of_mem g ha),
          hfull g List.mem_cons_self, List.length_cons, Nat.mul_add, Nat.add_comm]
  rw [text, List.countP_append, hgroup _ (m.isGroup m.first List.mem_cons_self),
    hrest m.rest (fun g hg => m.isGroup g (List.mem_cons_of_mem _ hg)) m.full, digits]

theorem notMem_text {m : MaskText} {c : Char} (hdigit : isDigitOf 16 c = false) (hcomma : c ≠ ',') : c ∉ m.text := by
  intro h
  rcases mem_text h with h | h
  · rw [hdigit] at h
    cases h
  · exact hcomma h

theorem afterLastTab_line (m : MaskText) (pre : List Char) : afterLastTab (m.line pre) = some (m.text ++ ['\n']) := by
  have hfree : ∀ c ∈ (m.text ++ ['\n']).reverse, decide (c ≠ '\t') = true := by
    intro c hc
    rw [decide_eq_true_eq]
    rintro rfl
    rcases List.mem_append.mp (List.mem_reverse.mp hc) with h | h
    · exact notMem_text (by decide) (by decide) h
    · exact absurd h (by decide)
  rw [afterLastTab, line, if_pos (by simp), List.reverse_append, List.reverse_cons, List.append_assoc,
    List.takeWhile_append_of_pos hfree]
  simp

theorem strprefix_line (m : MaskText) (pre : List Char) : strprefix (m.line pre) pre = true := by
  simp [ strprefix, line]

end MaskText

/-! ### What the lines do -/

theorem strprefix_iff {s pre : List Char} : strprefix s pre = true ↔ pre <+: s := by
  rw [ strprefix, beq_iff_eq, List.prefix_iff_eq_take]
  exact eq_comm

/-- The size of the node masks is that of the one line with a mask of nodes. -/
theorem setNodemaskSize_eq (m : MaskText) {pre post : List (List Char)}
    (hother : ∀ buf ∈ pre ++ post, strprefix buf TaskConstraints.memsPrefix = false) (einval : Nat → Bool) :
    setNodemaskSize einval (some (pre ++ m.line TaskConstraints.memsPrefix :: post)) = 4 * m.digits := by
  have hskip : ∀ (lines : List (List Char)) (sz : Nat),
      (∀ buf ∈ lines, strprefix buf TaskConstraints.memsPrefix = false) → lines.foldl nodemaskSizeLine sz = sz := by
    intro lines sz hlines
    induction lines with
    | nil => rfl
    | cons buf lines ih =>
        have hshort : ¬ strprefix buf nodemaskPrefix = true := by
          intro hlong
          have hpre : TaskConstraints.memsPrefix <+: nodemaskPrefix := ⟨['\t'], by decide⟩
          have hmems := strprefix_iff.mpr (hpre.trans (strprefix_iff.mp hlong))
          rw [hlines buf List.mem_cons_self] at hmems
          cases hmems
        rw [List.foldl_cons, nodemaskSizeLine, if_neg hshort]
        exact ih fun b hb => hlines b (List.mem_cons_of_mem buf hb)
  have hline : m.line TaskConstraints.memsPrefix = nodemaskPrefix ++ (m.text ++ ['\n']) := by
    rw [MaskText.line, show nodemaskPrefix = TaskConstraints.memsPrefix ++ ['\t'] by decide, List.append_assoc]
    rfl
  have hfree : ∀ c ∈ m.text, decide (c ≠ '\n') = true := by
    intro c hc
    rw [decide_eq_true_eq]
    rintro rfl
    exact MaskText.notMem_text (by decide) (by decide) hc
  have hread : ∀ sz, nodemaskSizeLine sz (m.line TaskConstraints.memsPrefix) = m.digits * 4 := by
    intro sz
    rw [nodemaskSizeLine, if_pos (strprefix_iff.mpr ⟨_, hline.symm⟩), hline, List.drop_left,
      List.takeWhile_append_of_pos hfree, ← m.countP_isDigit_text]
    simp
  have hdigits : 0 < m.digits := by
    have := List.length_pos_of_ne_nil (m.isGroup m.first List.mem_cons_self).ne_nil
    unfold MaskText.digits
    omega
  rw [setNodemaskSize, Option.getD_some, List.foldl_append, List.foldl_cons, hread,
    hskip post _ fun buf hbuf => hother buf (List.mem_append_right _ hbuf), if_neg (by omega), Nat.mul_comm]

namespace TaskConstraints

variable {sizes : MachineSizes} {c : TaskConstraints} {buffer : List Char} {pre post : List (List Char)}

theorem readCpus_nodes (buffer mask : List Char) (c : TaskConstraints) :
    (readCpus buffer mask c).numaAllNodesPtr = c.numaAllNodesPtr ∧
      (readCpus buffer mask c).numprocnode = c.numprocnode := by
  unfold readCpus
  split
  · exact ⟨rfl, rfl⟩
  · exact ⟨rfl, rfl⟩

theorem readMems_cpus (buffer mask : List Char) (c : TaskConstraints) :
    (readMems buffer mask c).numaAllCpusPtr = c.numaAllCpusPtr ∧
      (readMems buffer mask c).numproccpu = c.numproccpu := by
  unfold readMems
  split
  · exact ⟨rfl, rfl⟩
  · exact ⟨rfl, rfl⟩

theorem readLine_nodes (h : strprefix buffer memsPrefix = false) :
    (readLine c buffer).numaAllNodesPtr = c.numaAllNodesPtr ∧ (readLine c buffer).numprocnode = c.numprocnode := by
  unfold readLine
  split
  · exact ⟨rfl, rfl⟩
  · rw [readMems, if_neg (Bool.eq_false_iff.mp h)]
    exact readCpus_nodes _ _ c

theorem readLine_cpus (h : strprefix buffer cpusPrefix = false) :
    (readLine c buffer).numaAllCpusPtr = c.numaAllCpusPtr ∧ (readLine c buffer).numproccpu = c.numproccpu := by
  unfold readLine
  split
  · exact ⟨rfl, rfl⟩
  · rw [readCpus, if_neg (Bool.eq_false_iff.mp h)]
    exact readMems_cpus _ _ c

theorem readLine_mems (m : MaskText) (c : TaskConstraints) :
    (readLine c (m.line memsPrefix)).numaAllNodesPtr = (readMask (m.text ++ ['\n']) c.numaAllNodesPtr).2 ∧
      (readLine c (m.line memsPrefix)).numprocnode = (readMask (m.text ++ ['\n']) c.numaAllNodesPtr).1 := by
  have hcpus : ¬ strprefix (m.line memsPrefix) cpusPrefix = true := by
    rw [ strprefix, MaskText.line]
    exact Bool.false_ne_true
  rw [readLine, m.afterLastTab_line]
  dsimp only
  rw [readCpus, if_neg hcpus, readMems, if_pos (m.strprefix_line memsPrefix)]
  exact ⟨rfl, rfl⟩

theorem readLine_cpusAllowed (m : MaskText) (c : TaskConstraints) :
    (readLine c (m.line cpusPrefix)).numaAllCpusPtr = (readMask (m.text ++ ['\n']) c.numaAllCpusPtr).2 ∧
      (readLine c (m.line cpusPrefix)).numproccpu = (readMask (m.text ++ ['\n']) c.numaAllCpusPtr).1 := by
  have hmems : ¬ strprefix (m.line cpusPrefix) memsPrefix = true := by
    rw [ strprefix, MaskText.line]
    exact Bool.false_ne_true
  rw [readLine, m.afterLastTab_line]
  dsimp only
  rw [readMems, if_neg hmems, readCpus, if_pos (m.strprefix_line cpusPrefix)]
  exact ⟨rfl, rfl⟩

/-- What no line changes that has not the prefix. -/
theorem foldl_readLine_keeps {β : Type} {view : TaskConstraints → β} {pref : List Char}
    (hkeeps : ∀ c buffer, strprefix buffer pref = false → view (readLine c buffer) = view c)
    {lines : List (List Char)} (h : ∀ buf ∈ lines, strprefix buf pref = false) :
    view (lines.foldl readLine c) = view c := by
  induction lines generalizing c with
  | nil => rfl
  | cons buf lines ih =>
      rw [List.foldl_cons, ih fun b hb => h b (List.mem_cons_of_mem buf hb)]
      exact hkeeps c buf (h buf List.mem_cons_self)

theorem foldl_readLine_nodes {lines : List (List Char)} (h : ∀ buf ∈ lines, strprefix buf memsPrefix = false) :
    (lines.foldl readLine c).numaAllNodesPtr = c.numaAllNodesPtr ∧
      (lines.foldl readLine c).numprocnode = c.numprocnode :=
  ⟨foldl_readLine_keeps (fun _ _ hbuf => (readLine_nodes hbuf).1) h,
    foldl_readLine_keeps (fun _ _ hbuf => (readLine_nodes hbuf).2) h⟩

theorem foldl_readLine_cpus {lines : List (List Char)} (h : ∀ buf ∈ lines, strprefix buf cpusPrefix = false) :
    (lines.foldl readLine c).numaAllCpusPtr = c.numaAllCpusPtr ∧
      (lines.foldl readLine c).numproccpu = c.numproccpu :=
  ⟨foldl_readLine_keeps (fun _ _ hbuf => (readLine_cpus hbuf).1) h,
    foldl_readLine_keeps (fun _ _ hbuf => (readLine_cpus hbuf).2) h⟩

/-- The file's line with a mask of nodes is the one that counts. -/
theorem foldl_readLine_mems (m : MaskText) (hother : ∀ buf ∈ pre ++ post, strprefix buf memsPrefix = false) :
    ((pre ++ m.line memsPrefix :: post).foldl readLine (initial sizes)).numaAllNodesPtr =
        (readMask (m.text ++ ['\n']) (zeroBitmask sizes.nodemaskSz)).2 ∧
      ((pre ++ m.line memsPrefix :: post).foldl readLine (initial sizes)).numprocnode =
        (readMask (m.text ++ ['\n']) (zeroBitmask sizes.nodemaskSz)).1 := by
  have hpre := foldl_readLine_nodes (c := initial sizes) fun buf hbuf => hother buf (List.mem_append_left post hbuf)
  rw [List.foldl_append, List.foldl_cons]
  obtain ⟨hnodes, hnum⟩ := foldl_readLine_nodes
    (c := readLine (pre.foldl readLine (initial sizes)) (m.line memsPrefix)) fun buf hbuf =>
      hother buf (List.mem_append_right pre hbuf)
  rw [hnodes, hnum, (readLine_mems m _).1, (readLine_mems m _).2, hpre.1]
  exact ⟨rfl, rfl⟩

theorem foldl_readLine_cpusAllowed (m : MaskText)
    (hother : ∀ buf ∈ pre ++ post, strprefix buf cpusPrefix = false) :
    ((pre ++ m.line cpusPrefix :: post).foldl readLine (initial sizes)).numaAllCpusPtr =
        (readMask (m.text ++ ['\n']) (zeroBitmask sizes.cpumaskSz)).2 ∧
      ((pre ++ m.line cpusPrefix :: post).foldl readLine (initial sizes)).numproccpu =
        (readMask (m.text ++ ['\n']) (zeroBitmask sizes.cpumaskSz)).1 := by
  have hpre := foldl_readLine_cpus (c := initial sizes) fun buf hbuf => hother buf (List.mem_append_left post hbuf)
  rw [List.foldl_append, List.foldl_cons]
  obtain ⟨hcpus, hnum⟩ := foldl_readLine_cpus (c := readLine (pre.foldl readLine (initial sizes)) (m.line cpusPrefix))
    fun buf hbuf => hother buf (List.mem_append_right pre hbuf)
  rw [hcpus, hnum, (readLine_cpusAllowed m _).1, (readLine_cpusAllowed m _).2, hpre.1]
  exact ⟨rfl, rfl⟩

theorem cpuPasses_nodes (sizes : MachineSizes) (c : TaskConstraints) :
    (reduceCpus sizes (defaultCpus sizes (setPossible sizes c))).numaAllNodesPtr = c.numaAllNodesPtr ∧
      (reduceCpus sizes (defaultCpus sizes (setPossible sizes c))).numprocnode = c.numprocnode := by
  unfold reduceCpus defaultCpus
  split
  · split
    · exact ⟨rfl, rfl⟩
    · exact ⟨rfl, rfl⟩
  · split
    · exact ⟨rfl, rfl⟩
    · exact ⟨rfl, rfl⟩

theorem defaultNodes_cpus (sizes : MachineSizes) (c : TaskConstraints) :
    (defaultNodes sizes c).numaAllCpusPtr = c.numaAllCpusPtr ∧
      (defaultNodes sizes c).numproccpu = c.numproccpu := by
  unfold defaultNodes
  split
  · exact ⟨rfl, rfl⟩
  · exact ⟨rfl, rfl⟩

end TaskConstraints

open TaskConstraints in
/-- A mask of nodes in the kernel's format with some node in it always has room, and afterwards the mask of
the allowed nodes holds its bits and the number of task nodes is their number. No mask that is not read is
changed. -/
theorem memsAllowed_read (m : MaskText) (hset : m.value ≠ 0) {pre post : List (List Char)}
    (hother : ∀ buf ∈ pre ++ post, strprefix buf memsPrefix = false) {einval : Nat → Bool} {sizes : MachineSizes}
    (hsize : sizes.nodemaskSz = setNodemaskSize einval (some (pre ++ m.line memsPrefix :: post))) :
    (readMask (m.text ++ ['\n']) (zeroBitmask sizes.nodemaskSz)).1 ≠ -1 ∧
      (∀ i, i ∈ (setTaskConstraints sizes (some (pre ++ m.line memsPrefix :: post))).numaAllNodesPtr.bits ↔
        m.value.testBit i = true) ∧
      numaNumTaskNodes (setTaskConstraints sizes (some (pre ++ m.line memsPrefix :: post))) =
        (setTaskConstraints sizes (some (pre ++ m.line memsPrefix :: post))).numaAllNodesPtr.bits.card ∧
      ∀ s bmp, (readMask s bmp).1 = -1 → (readMask s bmp).2 = bmp := by
  have hfits : m.value < 2 ^ sizes.nodemaskSz := by
    rw [hsize, setNodemaskSize_eq m hother]
    exact m.value_lt
  obtain ⟨bmp, hread, -, hbits⟩ := readMask_text (t := '\n') (by decide) (by decide) [] m hfits
  rw [if_neg hset] at hread
  obtain ⟨hnodes, hnum⟩ := @foldl_readLine_mems sizes pre post m hother
  rw [hread] at hnodes hnum
  have hpos : 0 < bmp.bits.card := by
    obtain ⟨i, hi⟩ := Nat.exists_testBit_of_ne_zero hset
    exact Finset.card_pos.mpr ⟨i, (hbits i).mpr hi⟩
  obtain ⟨hnodes', hnum'⟩ := cpuPasses_nodes sizes ((pre ++ m.line memsPrefix :: post).foldl readLine (initial sizes))
  rw [hnodes] at hnodes'
  rw [hnum] at hnum'
  have hkept : setTaskConstraints sizes (some (pre ++ m.line memsPrefix :: post)) =
      reduceCpus sizes (defaultCpus sizes (setPossible sizes
        ((pre ++ m.line memsPrefix :: post).foldl readLine (initial sizes)))) := by
    refine if_neg ?_
    rw [hnum']
    dsimp only
    omega
  rw [hkept, numaNumTaskNodes, hnodes', hnum']
  refine ⟨?_, hbits, rfl, fun s bmp => readMask_unchanged⟩
  rw [hread]
  dsimp only
  omega

namespace TaskConstraints

theorem bits_foldl_numaBitmaskSetbit (bmp : Bitmask) (n : Nat) :
    ((List.range n).foldl numaBitmaskSetbit bmp).bits = bmp.bits ∪ (Finset.range n).filter (· < bmp.size) := by
  have hrange : (List.range n).toFinset = Finset.range n := by
    ext i
    simp
  have h := bits_foldl_setbit bmp (List.range n)
  rw [hrange] at h
  exact h

theorem bits_foldl_numaBitmaskClearbit (bmp : Bitmask) (n : Nat) :
    (((List.range bmp.size).filter (n ≤ ·)).foldl numaBitmaskClearbit bmp).bits = bmp.bits.filter (· < n) := by
  apply Finset.ext
  intro i
  have hbit := bit_foldl_setbit bmp i false ((List.range bmp.size).filter (n ≤ ·))
  have hsize := size_foldl_setbit bmp false ((List.range bmp.size).filter (n ≤ ·))
  rw [Finset.mem_filter, Bitmask.mem_bits, Bitmask.mem_bits]
  refine (and_congr (iff_of_eq (congrArg (i < ·) hsize)) (iff_of_eq (congrArg (· = true) hbit))).trans ?_
  simp only [List.mem_filter, List.mem_range, decide_eq_true_eq]
  by_cases hn : n ≤ i
  · have hlt : ¬i < n := Nat.not_lt.mpr hn
    refine iff_of_false (fun h => ?_) fun h => hlt h.2
    rw [if_pos ⟨⟨h.1, hn⟩, h.1⟩] at h
    cases h.2
  · rw [if_neg fun h => hn h.1.2]
    exact ⟨fun h => ⟨h, Nat.lt_of_not_le hn⟩, fun h => h.1⟩

/-- The allowed CPUs and their number after the passes over what was read. -/
theorem reduceCpus_defaultCpus (sizes : MachineSizes) (c : TaskConstraints)
    (hcount : c.numproccpu = if c.numaAllCpusPtr.bits = ∅ then -1 else (c.numaAllCpusPtr.bits.card : Int)) :
    (reduceCpus sizes (defaultCpus sizes c)).numaAllCpusPtr.bits =
        (if c.numaAllCpusPtr.bits = ∅ then (Finset.range (sizes.maxconfiguredcpu + 1)).filter (· < c.numaAllCpusPtr.size)
        else if sizes.maxconfiguredcpu + 1 < c.numaAllCpusPtr.bits.card then
          c.numaAllCpusPtr.bits.filter (· < sizes.maxconfiguredcpu + 1)
        else c.numaAllCpusPtr.bits) ∧
      (reduceCpus sizes (defaultCpus sizes c)).numproccpu =
        if c.numaAllCpusPtr.bits = ∅ then (sizes.maxconfiguredcpu + 1 : Int)
        else min c.numaAllCpusPtr.bits.card (sizes.maxconfiguredcpu + 1) := by
  by_cases hempty : c.numaAllCpusPtr.bits = ∅
  · rw [if_pos hempty] at hcount
    rw [defaultCpus, if_pos (by rw [hcount]; decide), reduceCpus, if_neg (lt_irrefl _), if_pos hempty, if_pos hempty]
    exact ⟨by rw [bits_foldl_numaBitmaskSetbit, hempty, Finset.empty_union], rfl⟩
  · have hpos : 0 < c.numaAllCpusPtr.bits.card := Finset.card_pos.mpr (Finset.nonempty_iff_ne_empty.mpr hempty)
    rw [if_neg hempty] at hcount
    rw [defaultCpus, if_neg (by omega), if_neg hempty, if_neg hempty, reduceCpus, hcount]
    by_cases hmany : sizes.maxconfiguredcpu + 1 < c.numaAllCpusPtr.bits.card
    · rw [if_pos (by omega), if_pos hmany]
      refine ⟨bits_foldl_numaBitmaskClearbit _ _, ?_⟩
      dsimp only
      omega
    · rw [if_neg (by omega), if_neg hmany]
      refine ⟨rfl, ?_⟩
      omega

/-- Cutting a set at `C` by its number of elements is cutting it at `C`, and counts it, exactly if it and the
numbers below `C` are nested. -/
theorem cut_by_card_iff (A : Finset Nat) (C : Nat) :
    ((if C < A.card then A.filter (· < C) else A) = A.filter (· < C) ∧
      min A.card C = (if C < A.card then A.filter (· < C) else A).card) ↔
      A ⊆ Finset.range C ∨ Finset.range C ⊆ A := by
  have hsub : A.filter (· < C) ⊆ Finset.range C := fun i hi =>
    Finset.mem_range.mpr (Finset.mem_filter.mp hi).2
  by_cases hmany : C < A.card
  · rw [if_pos hmany, Nat.min_eq_right hmany.le]
    refine ⟨fun h => Or.inr ?_, fun h => ⟨rfl, ?_⟩⟩
    · have heq : A.filter (· < C) = Finset.range C :=
        Finset.eq_of_subset_of_card_le hsub (by rw [Finset.card_range]; exact h.2.le)
      exact heq ▸ Finset.filter_subset _ A
    · rcases h with h | h
      · have := Finset.card_le_card h
        rw [Finset.card_range] at this
        omega
      · have heq : A.filter (· < C) = Finset.range C :=
          hsub.antisymm fun i hi => Finset.mem_filter.mpr ⟨h hi, Finset.mem_range.mp hi⟩
        rw [heq, Finset.card_range]
  · rw [if_neg hmany, Nat.min_eq_left (Nat.le_of_not_lt hmany)]
    refine ⟨fun h => Or.inl (h.1 ▸ hsub), fun h => ⟨?_, rfl⟩⟩
    have hin : A ⊆ Finset.range C := by
      rcases h with h | h
      · exact h
      · exact (Finset.eq_of_subset_of_card_le h (by rw [Finset.card_range]; exact Nat.le_of_not_lt hmany)).ge
    exact (Finset.filter_true_of_mem fun i hi => Finset.mem_range.mp (hin hi)).symm

end TaskConstraints

open TaskConstraints in
/-- The allowed CPUs are those of the mask that are configured, all configured ones for an empty mask, and
their number is that of the task's CPUs, exactly if the mask and the configured CPUs are nested; for an
empty mask, if the kernel's CPU masks have room for the configured CPUs. -/
theorem cpusAllowed_iff (m : MaskText) {A : Finset Nat} (hA : ∀ i, i ∈ A ↔ m.value.testBit i = true)
    {sizes : MachineSizes} (hfits : m.value < 2 ^ sizes.cpumaskSz) {pre post : List (List Char)}
    (hother : ∀ buf ∈ pre ++ post, strprefix buf cpusPrefix = false) :
    ((setTaskConstraints sizes (some (pre ++ m.line cpusPrefix :: post))).numaAllCpusPtr.bits =
        (if A = ∅ then Finset.range (sizes.maxconfiguredcpu + 1) else A.filter (· < sizes.maxconfiguredcpu + 1)) ∧
      numaNumTaskCpus (setTaskConstraints sizes (some (pre ++ m.line cpusPrefix :: post))) =
        (setTaskConstraints sizes (some (pre ++ m.line cpusPrefix :: post))).numaAllCpusPtr.bits.card) ↔
      if A = ∅ then sizes.maxconfiguredcpu + 1 ≤ sizes.cpumaskSz
      else A ⊆ Finset.range (sizes.maxconfiguredcpu + 1) ∨ Finset.range (sizes.maxconfiguredcpu + 1) ⊆ A := by
  obtain ⟨bmp, hread, hsize, hbits⟩ := readMask_text (t := '\n') (by decide) (by decide) [] m hfits
  have hbmp : bmp.bits = A := Finset.ext fun i => (hbits i).trans (hA i).symm
  have hzero : m.value = 0 ↔ A = ∅ := by
    rw [Finset.eq_empty_iff_forall_notMem]
    refine ⟨fun h i => by rw [hA, h]; simp, fun h => ?_⟩
    by_contra hne
    obtain ⟨i, hi⟩ := Nat.exists_testBit_of_ne_zero hne
    exact h i ((hA i).mpr hi)
  obtain ⟨hcpus, hnum⟩ := @foldl_readLine_cpusAllowed sizes pre post m hother
  rw [hread] at hcpus hnum
  dsimp only at hcpus hnum
  generalize hlines : (pre ++ m.line cpusPrefix :: post).foldl readLine (initial sizes) = c at hcpus hnum
  have hset : setTaskConstraints sizes (some (pre ++ m.line cpusPrefix :: post)) =
      defaultNodes sizes (reduceCpus sizes (defaultCpus sizes (setPossible sizes c))) := by
    rw [← hlines]
    rfl
  have hallcpus : (setPossible sizes c).numaAllCpusPtr = bmp := hcpus
  obtain ⟨hfinal, hcount⟩ := reduceCpus_defaultCpus sizes (setPossible sizes c) (by
    rw [hallcpus, hbmp]
    exact hnum.trans (by rw [hbmp]; simp only [hzero]))
  rw [hallcpus, hsize, hbmp] at hfinal
  rw [hallcpus, hbmp] at hcount
  rw [hset, numaNumTaskCpus, (defaultNodes_cpus sizes _).1, (defaultNodes_cpus sizes _).2, hfinal, hcount]
  by_cases hempty : A = ∅
  · simp only [if_pos hempty]
    refine ⟨fun h => ?_, fun h => ?_⟩
    · have hlast : sizes.maxconfiguredcpu ∈ Finset.range (sizes.maxconfiguredcpu + 1) :=
        Finset.self_mem_range_succ _
      rw [← h.1, Finset.mem_filter] at hlast
      exact hlast.2
    · have hall : (Finset.range (sizes.maxconfiguredcpu + 1)).filter (· < sizes.cpumaskSz) =
          Finset.range (sizes.maxconfiguredcpu + 1) :=
        Finset.filter_true_of_mem fun i hi => (Finset.mem_range.mp hi).trans_le h
      rw [hall, Finset.card_range]
      exact ⟨rfl, rfl⟩
  · simp only [if_neg hempty]
    rw [← cut_by_card_iff]
    refine and_congr_right' ?_
    omega

/-- Four configured CPUs and two nodes, with room for 64 CPUs and the given number of nodes. -/
def fourCpus (nodemaskSz : Nat) : MachineSizes where
  nodemaskSz := nodemaskSz
  cpumaskSz := 64
  maxconfiguredcpu := 3
  maxconfigurednode := 1

theorem isGroup_of_all {ds : List Char} (h : ds ≠ [] ∧ ds.length ≤ 8 ∧ ds.all (isDigitOf 16) = true) : IsGroup ds where
  ne_nil := h.1
  length_le := h.2.1
  digits := List.all_eq_true.mp h.2.2

/-- Text of one group. -/
def oneGroup (ds : List Char) (h : ds ≠ [] ∧ ds.length ≤ 8 ∧ ds.all (isDigitOf 16) = true) : MaskText where
  first := ds
  rest := []
  isGroup g hg := by
    rw [List.mem_singleton.mp hg]
    exact isGroup_of_all h
  full g hg := by cases hg

theorem isGroup_e : ['f', 'e'] ≠ [] ∧ ['f', 'e'].length ≤ 8 ∧ ['f', 'e'].all (isDigitOf 16) = true := by decide

theorem isGroup_3 : ['3'] ≠ [] ∧ ['3'].length ≤ 8 ∧ ['3'].all (isDigitOf 16) = true := by decide

/-- The nodes 0, 31 and 32, with a first group of one digit. -/
def shortFirst : MaskText where
  first := ['1']
  rest := ["80000001".toList]
  isGroup g hg := by
    rcases List.mem_cons.mp hg with rfl | hg
    · exact isGroup_of_all (by decide)
    · rw [List.mem_singleton.mp hg]
      exact isGroup_of_all (by decide)
  full g hg := by
    rw [List.mem_singleton.mp hg]
    rfl

open TaskConstraints in
/-- Nine digits make node masks of 36 bits. -/
theorem memsAllowed_shortFirst :
    (readMask (shortFirst.text ++ ['\n']) (zeroBitmask 36)).1 ≠ -1 ∧
      (∀ i, i ∈ (setTaskConstraints (fourCpus 36) (some [shortFirst.line memsPrefix])).numaAllNodesPtr.bits ↔
        shortFirst.value.testBit i = true) ∧
      numaNumTaskNodes (setTaskConstraints (fourCpus 36) (some [shortFirst.line memsPrefix])) =
        (setTaskConstraints (fourCpus 36) (some [shortFirst.line memsPrefix])).numaAllNodesPtr.bits.card :=
  have h := @memsAllowed_read shortFirst (by decide) [] [] (by simp) (fun _ => false) (fourCpus 36) (by decide)
  ⟨h.1, h.2.1, h.2.2.1⟩

open TaskConstraints in
/-- The CPUs 0 and 1 of four. -/
theorem cpusAllowed_3 :
    (setTaskConstraints (fourCpus 64) (some [(oneGroup ['3'] isGroup_3).line cpusPrefix])).numaAllCpusPtr.bits =
        (if ({0, 1} : Finset Nat) = ∅ then Finset.range 4 else ({0, 1} : Finset Nat).filter (· < 4)) ∧
      numaNumTaskCpus (setTaskConstraints (fourCpus 64) (some [(oneGroup ['3'] isGroup_3).line cpusPrefix])) =
        (setTaskConstraints (fourCpus 64)
          (some [(oneGroup ['3'] isGroup_3).line cpusPrefix])).numaAllCpusPtr.bits.card := by
  have hbits : ∀ i, i ∈ ({0, 1} : Finset Nat) ↔ (oneGroup ['3'] isGroup_3).value.testBit i = true := by
    intro i
    have hvalue : (oneGroup ['3'] isGroup_3).value = 3 := by decide
    rw [hvalue, Finset.mem_insert, Finset.mem_singleton]
    match i with
    | 0 => decide
    | 1 => decide
    | i + 2 =>
        rw [Nat.testBit_lt_two_pow (Nat.lt_of_lt_of_le (by decide : 3 < 2 ^ 2)
          (Nat.pow_le_pow_right (by decide) (Nat.le_add_left 2 i)))]
        simp
  exact (@cpusAllowed_iff (oneGroup ['3'] isGroup_3) {0, 1} hbits (fourCpus 64) (by decide) [] [] (by simp)).mpr
    (by decide)

open TaskConstraints in
/-- With CPU 0 taken from a mask of eight, three CPUs are left of the four configured, and four are counted. -/
theorem cpusAllowed_fe_miscounted :
    (setTaskConstraints (fourCpus 64) (some [(oneGroup ['f', 'e'] isGroup_e).line cpusPrefix])).numaAllCpusPtr.bits =
        {1, 2, 3} ∧
      numaNumTaskCpus (setTaskConstraints (fourCpus 64)
        (some [(oneGroup ['f', 'e'] isGroup_e).line cpusPrefix])) = 4 := by
  decide +kernel

end Numactl
