import Numactl.ListInversion
import Numactl.OptionSteps

/-! The policy of an attached region against the policy numactl records for `--verify`. A policy option
chooses separately what it asks of the kernel for the region and what it records, so the two are compared
for every option that is accepted, after any options before it. -/

namespace Numactl

open Runs (bind_eq_ok pure_eq_ok)

variable {g : Globals}

/-! ### Parsed masks -/

/-- The mask has no word and no set bit past its size. -/
structure Bitmask.Clean (bmp : Bitmask) : Prop where
  length_eq : bmp.maskp.length = longsperbits bmp.size
  clear : ∀ i, bmp.size ≤ i → Words.bit bmp.maskp i = false

theorem clean_zeroBitmask (n : Nat) : (zeroBitmask n).Clean where
  length_eq := List.length_replicate
  clear _ _ := Words.bit_replicate_zero _ _

theorem Bitmask.Clean.setbit {bmp : Bitmask} (h : bmp.Clean) (n : Nat) (v : Bool) :
    (setbit bmp n v).Clean where
  length_eq := by rw [length_setbit, size_setbit, h.length_eq]
  clear i hi := by
    rw [size_setbit] at hi
    rw [bit_setbit, if_neg (by omega)]
    exact h.clear i hi

/-- A mask is determined by its size and the numbers it holds, if it is clean. -/
theorem Bitmask.Clean.fill_eq {bmp : Bitmask} (h : bmp.Clean) :
    Kernel.fill (zeroBitmask bmp.size) bmp.bits = bmp := by
  apply Bitmask.ext
  · rfl
  · apply Words.ext_bit
    · rw [Kernel.fill, Words.length_ofBits, h.length_eq]
      exact List.length_replicate
    · intro i hi
      rw [Kernel.fill, Words.length_ofBits] at hi
      rw [Kernel.fill, Words.bit_ofBits (by decide), decide_eq_true hi, Bool.true_and]
      by_cases hsize : i < bmp.size
      · rw [Bool.eq_iff_iff, decide_eq_true_eq, Bitmask.mem_bits, and_iff_right hsize]
      · rw [h.clear i (Nat.not_lt.mp hsize), decide_eq_false_iff_not, Bitmask.mem_bits]
        exact fun hmem => hsize hmem.1

/-- What setting bits and the words of a list keep, the loop over the items keeps. -/
theorem parseItems_rule {A : ListArgs} {P : Bitmask → Prop}
    (hset : ∀ m n, P m → P (numaBitmaskSetbit m n))
    (hword : ∀ s m m', A.word s m = some (some m') → P m → P m') {fuel : Nat} {s : List Char}
    {mask m : Bitmask} (hmask : P mask) (h : parseItems A fuel s mask = some m) : P m := by
  have hrange : ∀ arg arg2 m, P m → P (setRange A.allowed arg arg2 m) := by
    intro arg arg2 m hm
    rw [setRange_eq_foldl]
    generalize (List.range' arg (arg2 + 1 - arg)).filter _ = ns
    induction ns generalizing m with
    | nil => exact hm
    | cons n ns ih => exact ih _ (hset m n hm)
  have hitem : ∀ it m m', A.itemMask it m = some m' → P m → P m' := by
    intro it m m' hit hm
    cases it with
    | one v =>
        simp only [ListArgs.itemMask, Option.ite_none_left_eq_some, Option.some.injEq] at hit
        obtain ⟨-, rfl⟩ := hit
        exact hset _ _ hm
    | range v w =>
        simp only [ListArgs.itemMask, Option.ite_none_left_eq_some, Option.some.injEq] at hit
        obtain ⟨-, -, rfl⟩ := hit
        exact hrange _ _ _ (hset _ _ hm)
  induction fuel generalizing s mask with
  | zero => cases h
  | succ fuel ih =>
      rw [parseItems, A.parseItem_eq] at h
      cases hw : A.word s mask with
      | some result =>
          rw [hw] at h
          exact hword s mask m (by rw [hw, ← h]) hmask
      | none =>
          rw [hw] at h
          cases hread : NumberList.readItem s with
          | none =>
              rw [hread] at h
              cases h
          | some r =>
              obtain ⟨it, rest⟩ := r
              rw [hread, Option.bind_some] at h
              cases hm : A.itemMask it mask with
              | none =>
                  rw [hm] at h
                  cases h
              | some mask' =>
                  have hmask' := hitem _ _ _ hm hmask
                  rw [hm, Option.map_some] at h
                  cases rest with
                  | nil =>
                      obtain rfl := Option.some.inj h
                      exact hmask'
                  | cons c rest =>
                      dsimp only at h
                      split at h
                      · exact ih hmask' h
                      · cases h

theorem parseString_rule {args : Bool → ListArgs} {P : Bitmask → Prop}
    (hset : ∀ m n v, P m → P (setbit m n v))
    (hword : ∀ r s m m', (args r).word s m = some (some m') → P m → P m') {conf : Nat} {s : List Char}
    {mask m : Bitmask} (hmask : P mask) (h : parseString args conf s mask = some m) : P m := by
  have hinvert : ∀ m, P m → P (invertMask conf m) := by
    intro m hm
    unfold invertMask
    generalize List.range conf = is
    induction is generalizing m with
    | nil => exact hm
    | cons i is ih =>
        refine ih _ ?_
        dsimp only
        split
        · exact hset m i false hm
        · exact hset m i true hm
  rw [parseString, Option.map_eq_some_iff] at h
  obtain ⟨m', hm', rfl⟩ := h
  have hP := parseItems_rule (fun m n => hset m n true) (hword _) hmask hm'
  split
  · exact hinvert m' hP
  · exact hP

/-- The node parsers return clean masks of the library's size. -/
theorem clean_nodeParser {dv : Devices} {parseAll : Bool} {s : List Char} {mask : Bitmask}
    (h : nodeParser g dv parseAll s = some mask) : mask.Clean ∧ mask.size = g.nodemaskSz := by
  have hcopy : ∀ {allowed m : Bitmask}, (∀ i, g.nodemaskSz ≤ i → Words.bit allowed.maskp i = false) →
      m.Clean ∧ m.size = g.nodemaskSz →
      (copyBitmaskToBitmask allowed m).Clean ∧ (copyBitmaskToBitmask allowed m).size = g.nodemaskSz := by
    intro allowed m hallowed hm
    refine ⟨⟨?_, fun i hi => ?_⟩, ?_⟩
    · rw [length_copyBitmaskToBitmask, size_copyBitmaskToBitmask, hm.1.length_eq]
    · rw [size_copyBitmaskToBitmask] at hi
      rw [bit_copyBitmaskToBitmask, hallowed i (hm.2 ▸ hi), Bool.and_false, hm.1.clear i hi, ite_self]
    · rw [size_copyBitmaskToBitmask, hm.2]
  have hset : ∀ (m : Bitmask) n v, m.Clean ∧ m.size = g.nodemaskSz →
      (setbit m n v).Clean ∧ (setbit m n v).size = g.nodemaskSz := fun m n v hm =>
    ⟨hm.1.setbit n v, (size_setbit m n v).trans hm.2⟩
  have hzero : g.numaAllocateNodemask.Clean ∧ g.numaAllocateNodemask.size = g.nodemaskSz :=
    ⟨clean_zeroBitmask _, rfl⟩
  have hparse : ∀ {allowed : Bitmask}, (∀ i, g.nodemaskSz ≤ i → Words.bit allowed.maskp i = false) →
      parseNodestring g dv s allowed = some mask → mask.Clean ∧ mask.size = g.nodemaskSz := by
    intro allowed hallowed hmask
    unfold parseNodestring at hmask
    dsimp only at hmask
    split at hmask
    · obtain rfl := Option.some.inj hmask
      exact hcopy (fun i _ => Words.bit_replicate_zero _ i) hzero
    · refine parseString_rule hset (fun r s m m' hword hm => ?_) hzero hmask
      rw [nodeArgs_word, Option.ite_none_right_eq_some, Option.some.injEq] at hword
      obtain ⟨-, hword⟩ := hword
      split at hword
      · obtain rfl := Option.some.inj hword
        exact hcopy hallowed hm
      · rw [Option.ite_none_left_eq_some, Option.some.injEq] at hword
        obtain ⟨ret, ns, hadds⟩ := adds_resolveAffinity g dv s
        rw [← hword.2, hadds]
        clear hadds hword hmask
        induction ns generalizing m with
        | nil => exact hm
        | cons n ns ih => exact ih _ (hset m n true hm)
  have hpossible : ∀ i, g.nodemaskSz ≤ i → Words.bit g.numaPossibleNodesPtr.maskp i = false := by
    intro i hi
    change Words.bit ((List.range (g.maxconfigurednode + 1)).foldl (fun b k => setbit b k true)
      (zeroBitmask g.cpumaskSz)).maskp i = false
    have hmax := g.maxnode_lt
    rw [bit_foldl_setbit, if_neg (by rw [List.mem_range]; omega)]
    exact Words.bit_replicate_zero _ i
  unfold nodeParser at h
  split at h
  · exact hparse hpossible h
  · exact hparse g.all_nodes_clear h

/-! ### verify_shm -/

/-- A report of a wrong policy or of a mismatched node mask. -/
def VerifyReport.IsPolicy : VerifyReport → Prop
  | wrongPolicy .. => True
  | mismatchedMask .. => True
  | _ => False

theorem verifyNode_not_isPolicy (g : Globals) (policy page : Nat) (node ilnode : Int) (nodes2 : Bitmask) :
    ∀ rep ∈ (verifyNode g policy page node ilnode nodes2).1, ¬rep.IsPolicy := by
  intro rep hrep
  unfold verifyNode at hrep
  dsimp only at hrep
  split at hrep
  · split at hrep
    · rcases List.mem_append.mp hrep with hrange | hlast
      · split at hrange
        · rw [List.mem_singleton.mp hrange]
          exact id
        · cases hrange
      · rw [List.mem_singleton.mp hlast]
        exact id
    · split at hrep
      · rw [List.mem_singleton.mp hrep]
        exact id
      · cases hrep
  · split at hrep
    · split at hrep
      · rw [List.mem_singleton.mp hrep]
        exact id
      · cases hrep
    · cases hrep

/-- Over pages that all have the policy and the nodes expected, no wrong policy and no mismatched mask is
reported. -/
theorem verifyPages_not_isPolicy {k : Kernel} (hk : k.Keeps g) {policy : Nat} {mask : Bitmask}
    (hclean : mask.Clean) (hsize : mask.size = g.nodemaskSz) {t : Task g} {lo hi pagesize : Nat}
    (hpos : 0 < pagesize) (hpages : ∀ a, lo ≤ a → a < hi → t.pages a = ⟨policy, mask.bits⟩) (fuel p : Nat)
    (ilnode : Int) (hlo : lo ≤ p) (hhi : p + fuel * pagesize ≤ hi) :
    ∃ reports, verifyPages k policy mask t pagesize fuel p ilnode = some reports ∧
      ∀ rep ∈ reports, ¬rep.IsPolicy := by
  induction fuel generalizing p ilnode with
  | zero => exact ⟨[], rfl, fun rep hrep => by cases hrep⟩
  | succ fuel ih =>
      have hnext : p + pagesize + fuel * pagesize ≤ hi := by
        rw [Nat.succ_mul] at hhi
        omega
      have hget : (k.getMempolicy (t.pages p) g.numaAllocateNodemask t).1 = some (policy, mask) := by
        have hfill := hclean.fill_eq
        rw [hsize] at hfill
        rw [hpages p hlo (by omega), Kernel.getMempolicy_eq _ g.numaAllocateNodemask hk.fits]
        exact congrArg (fun m => some (policy, m)) hfill
      have hnode := verifyNode_not_isPolicy g policy p (k.nodeAt p) ilnode mask
      rw [verifyPages, hget]
      dsimp only
      rw [if_neg (fun h => h rfl), if_neg (fun h => h rfl), List.nil_append]
      cases hil : (verifyNode g policy p (k.nodeAt p) ilnode mask).2 with
      | none => exact ⟨_, rfl, hnode⟩
      | some ilnode' =>
          obtain ⟨reports, hreports, hnone⟩ := ih (p + pagesize) ilnode' (by omega) hnext
          dsimp only
          rw [hreports]
          refine ⟨_, rfl, fun rep hrep => ?_⟩
          rcases List.mem_append.mp hrep with hhere | hlater
          · exact hnode rep hhere
          · exact hnone rep hlater

/-- The pages of a region all have one policy. -/
def Task.RegionHas (t : Task g) (r : Region) (p : MemPolicy) : Prop :=
  ∀ a, r.shmptr ≤ a → a < r.shmptr + r.shmlen → t.pages a = p

theorem verifyShm_not_isPolicy {k : Kernel} (hk : k.Keeps g) {policy : Nat} {mask : Bitmask}
    (hclean : mask.Clean) (hsize : mask.size = g.nodemaskSz) {t : Task g} {r : Region}
    (hpages : t.RegionHas r ⟨policy, mask.bits⟩) :
    ∃ reports, verifyShm k r policy mask t = some reports ∧ ∀ rep ∈ reports, ¬rep.IsPolicy := by
  refine verifyPages_not_isPolicy hk hclean hsize r.pagesize_pos hpages _ _ _ le_rfl ?_
  rw [Nat.div_mul_cancel r.pagesize_dvd]

/-! ### Binding the region -/

/-- What numactl relies on after its calls: a refusal has an error number. -/
def Kernel.NamesErrors (k : Kernel) : Prop := ∀ requests, k.refusal requests ≠ some 0

/-- With `errno` still 0 afterwards, the memory has the policy asked for, and nothing else the library keeps
has changed. -/
theorem dombind_of_errno {k : Kernel} (hk : k.Keeps g) (hb : k.NamesErrors) {r : Region} {pol : Nat}
    {bmp : Bitmask} {t : Task g} (h : (dombind k r.shmptr r.shmlen pol (some bmp) t).2.errno = 0) :
    (dombind k r.shmptr r.shmlen pol (some bmp) t).2.RegionHas r ⟨pol, bmp.bits⟩ ∧
      (dombind k r.shmptr r.shmlen pol (some bmp) t).2.hasPreferredMany = t.hasPreferredMany := by
  unfold dombind Kernel.mbind at h ⊢
  dsimp only [Option.map_some, Option.elim_some] at h ⊢
  rcases k.ask_cases (.mbind r.shmptr r.shmlen pol (some bmp.maskp) bmp.size t.mbindFlags)
    (fun t => { t with
      pages := fun a => if r.shmptr ≤ a ∧ a < r.shmptr + r.shmlen then
        ⟨pol, k.readNodes bmp.maskp bmp.size⟩ else t.pages a }) t with ⟨e, he, hask⟩ | ⟨-, hask⟩
  · rw [hask] at h
    obtain rfl : e = 0 := h
    exact absurd he (hb _)
  · rw [hask]
    refine ⟨fun a hlo hhi => ?_, rfl⟩
    rw [← hk.readNodes_eq bmp]
    exact if_pos ⟨hlo, hhi⟩

/-! ### What the region gets -/

/-- Binding to the first node of a list is binding to the list if it has one node at most; with none,
`find_first` gives -1 and no bit is set. -/
theorem bits_firstNode_eq_iff {mask : Bitmask} (hsize : mask.size = g.nodemaskSz) :
    (numaBitmaskSetbit g.numaAllocateNodemask (BitVec.ofInt 32 (numaFindFirst mask)).toNat).bits = mask.bits ↔
      mask.bits.card ≤ 1 := by
  have hzero : g.numaAllocateNodemask.bits = ∅ := bits_zeroBitmask _
  have hlt := g.nodemask_lt
  rw [bits_numaBitmaskSetbit, hzero, Finset.empty_union]
  rcases mask.bits.eq_empty_or_nonempty with hempty | hne
  · rw [(numaFindFirst_eq_neg_one mask).mpr hempty, hempty]
    refine iff_of_true ?_ (Nat.zero_le 1)
    apply Finset.filter_false_of_mem
    intro i hi
    rw [Finset.mem_singleton.mp hi]
    change ¬(2 ^ 32 - 1 < g.nodemaskSz)
    omega
  · have hmin := mask.bits.min'_mem hne
    have hmem := (Bitmask.mem_bits.mp hmin).1
    rw [(numaFindFirst_eq_natCast mask).mpr ⟨hmin, fun j hj => mask.bits.min'_le j hj⟩]
    have hnat : (BitVec.ofInt 32 ((mask.bits.min' hne : Nat) : Int)).toNat = mask.bits.min' hne := by
      rw [BitVec.ofInt_natCast, BitVec.toNat_ofNat]
      exact Nat.mod_eq_of_lt (by omega)
    have hall : ∀ i ∈ ({mask.bits.min' hne} : Finset Nat), i < g.numaAllocateNodemask.size := by
      intro i hi
      rw [Finset.mem_singleton.mp hi]
      exact hmem.trans_eq hsize
    rw [hnat, Finset.filter_true_of_mem hall]
    refine ⟨fun h => ?_, fun h => ?_⟩
    · rw [← h, Finset.card_singleton]
    · refine (Finset.eq_of_subset_of_card_le (Finset.singleton_subset_iff.mpr hmin) ?_)
      rwa [Finset.card_singleton]

/-- The node list of a memory policy option that has one. -/
def Opt.nodeList : Opt → Option (List Char)
  | .weightedInterleave optarg => some optarg
  | .interleave optarg => some optarg
  | .membind optarg => some optarg
  | .preferredMany optarg => some optarg
  | .preferred optarg => some optarg
  | _ => none

/-- For a region, `-w` interleaves without weights, and `-p` and `-P` ask for the first node only: they ask
for what they record where the list has one node at most. -/
def Opt.AsksAsRecorded (dv : Devices) (m : Main g) : Opt → Prop
  | .weightedInterleave _ => False
  | .preferredMany optarg => ∀ mask, m.Denotes dv optarg mask → mask.bits.card ≤ 1
  | .preferred optarg => ∀ mask, m.Denotes dv optarg mask → mask.bits.card ≤ 1
  | _ => True

/-- The region has the mode in `set_policy` and the nodes in `mask`, and `--verify` reports no wrong policy
and no mismatched node mask. -/
def Main.RegionAsRecorded (h : Host) (r : Region) (m : Main g) : Prop :=
  ∃ policy mask reports, m.setPolicy = some policy ∧ m.mask = some mask ∧
    m.task.RegionHas r ⟨policy, mask.bits⟩ ∧ verifyShm h.kernel r policy mask m.task = some reports ∧
    ∀ rep ∈ reports, ¬rep.IsPolicy

theorem Task.RegionHas.unique {t : Task g} {r : Region} {p q : MemPolicy} (hp : t.RegionHas r p)
    (hq : t.RegionHas r q) : p = q :=
  have hlen := r.len_pos
  (hp r.shmptr le_rfl (by omega)).symm.trans (hq r.shmptr le_rfl (by omega))

namespace Main

variable {h : Host} {m m' : Main g} {optarg : List Char} {mask : Bitmask} {r : Region}

theorem Denotes.unique {dv : Devices} {mask' : Bitmask} (hmask : m.Denotes dv optarg mask)
    (hmask' : m.Denotes dv optarg mask') : mask = mask' := by
  obtain ⟨s, hs, hparse⟩ := hmask
  obtain ⟨s', hs', hparse'⟩ := hmask'
  cases hs.symm.trans hs'
  exact Option.some.inj (hparse.symm.trans hparse')

/-- Where the policy asked for the region is known, the record is right if it is that policy. -/
theorem regionAsRecorded_iff_eq (hk : h.kernel.Keeps g) {installed policy : Nat} {nodes : Finset Nat}
    (hacc : Accepted h.devices m m' optarg mask) (hpolicy : m'.setPolicy = some policy)
    (hregion : m'.task.RegionHas r ⟨installed, nodes⟩) :
    m'.RegionAsRecorded h r ↔ installed = policy ∧ nodes = mask.bits := by
  refine ⟨fun hrec => ?_, fun heq => ?_⟩
  · obtain ⟨policy', mask', -, hpolicy', hmask', hhas, -⟩ := hrec
    cases hpolicy.symm.trans hpolicy'
    cases hacc.mask_eq.symm.trans hmask'
    exact MemPolicy.mk.inj (hregion.unique hhas)
  · obtain ⟨rfl, rfl⟩ := heq
    obtain ⟨s, -, hparse⟩ := hacc.denotes
    obtain ⟨hclean, hsize⟩ := clean_nodeParser hparse
    obtain ⟨reports, hreports, hnone⟩ := verifyShm_not_isPolicy hk hclean hsize hregion
    exact ⟨installed, mask, reports, hpolicy, hacc.mask_eq, hregion, hreports, hnone⟩

variable (hk : h.kernel.Keeps g) (hb : h.kernel.NamesErrors)

include hk hb

/-- `-i` and `-w` both interleave the region over the mask. -/
theorem regionAsRecorded_interleave (hregion : m.region = some r) (hok : m.interleave h optarg = .ok m') :
    m'.RegionAsRecorded h r ↔ m.weightedInterleave = false := by
  obtain ⟨mask, hacc, hpolicy, htask⟩ := interleave_ok hok
  have herrno := hacc.errno_eq
  rw [htask r hregion] at herrno
  have hregion' : m'.task.RegionHas r ⟨mpolInterleave, mask.bits⟩ := by
    rw [htask r hregion]
    exact (dombind_of_errno hk hb herrno).1
  rw [regionAsRecorded_iff_eq hk hacc hpolicy hregion', and_iff_left rfl]
  cases m.weightedInterleave with
  | true => exact iff_of_false (fun hmode => by cases hmode) (fun hflag => by cases hflag)
  | false => exact iff_of_true rfl rfl

/-- `-m` binds the region to the mask. -/
theorem regionAsRecorded_membind (hregion : m.region = some r) (hok : m.membind h optarg = .ok m') :
    m'.RegionAsRecorded h r := by
  obtain ⟨mask, hacc, hpolicy, htask⟩ := membind_ok hok
  have herrno := hacc.errno_eq
  rw [htask r hregion, errno_numaSetBindPolicy] at herrno
  have hhas := (dombind_of_errno hk hb herrno).1
  have hregion' : m'.task.RegionHas r ⟨mpolBind, mask.bits⟩ := by
    rw [htask r hregion]
    intro a hlo hhi
    rw [pages_numaSetBindPolicy hk]
    exact hhas a hlo hhi
  exact (regionAsRecorded_iff_eq hk hacc hpolicy hregion').mpr ⟨rfl, rfl⟩

/-- `-p` and `-P` bind the region to the first node, with the mode they record. -/
theorem regionAsRecorded_preferred {many : Bool} (hregion : m.region = some r)
    (hok : m.preferred h many optarg = .ok m') :
    m'.RegionAsRecorded h r ↔ ∀ mask, m.Denotes h.devices optarg mask → mask.bits.card ≤ 1 := by
  obtain ⟨mask, hacc, -, htask⟩ := preferred_ok hok
  obtain ⟨htask, hpolicy⟩ := htask r hregion
  obtain ⟨s, -, hparse⟩ := hacc.denotes
  have hsize := (clean_nodeParser hparse).2
  have herrno := hacc.errno_eq
  rw [htask, numaHasPreferredMany, errno_setPreferredMany] at herrno
  obtain ⟨hhas, hkept⟩ := dombind_of_errno hk hb herrno
  obtain ⟨probed, hprobed, hbind⟩ := numaSetBindPolicy_false _ { m.task with errno := 0 }
  have hanswer : numaHasPreferredMany h.kernel
      (numaTonodeMemory h.kernel r.shmptr r.shmlen (numaFindFirst mask) (preferring h m)) = (probed, _) :=
    numaHasPreferredMany_of_probed h.kernel (hkept.trans hprobed)
  rw [hanswer] at htask hpolicy
  have hregion' : m'.task.RegionHas r ⟨if probed then mpolPreferredMany else mpolPreferred,
      (numaBitmaskSetbit g.numaAllocateNodemask (BitVec.ofInt 32 (numaFindFirst mask)).toNat).bits⟩ := by
    rw [htask, ← hbind]
    exact hhas
  rw [regionAsRecorded_iff_eq hk hacc hpolicy hregion', and_iff_right rfl, bits_firstNode_eq_iff hsize]
  refine ⟨fun hcard mask' hmask' => ?_, fun hcard => hcard mask hacc.denotes⟩
  rwa [hmask'.unique hacc.denotes]

/-- After any accepted options that attach a region, an accepted memory policy option leaves the region with
the policy it records, and `--verify` nothing to report about it, exactly if it asks for what it records. -/
theorem regionAsRecorded_iff {pre : List Opt} {t : Task g} {opt : Opt}
    (hpre : (initial t).optionLoop h pre = .ok m) (hregion : m.region = some r)
    (hopt : opt.nodeList.isSome = true) (hok : m.step h opt = .ok m') :
    m'.RegionAsRecorded h r ↔ opt.AsksAsRecorded h.devices m := by
  have hrecorded : WeightedRecorded m :=
    Runs.accepted_rule (fun _ _ _ hm hstep => weightedRecorded_step hm hstep) (fun hw => by cases hw) hpre
  cases opt with
  | weightedInterleave arg =>
      have hflag := regionAsRecorded_interleave (m := { m with weightedInterleave := true }) hk hb hregion hok
      exact hflag.trans (iff_of_false (fun hfalse => by cases hfalse) id)
  | interleave arg =>
      obtain ⟨mask, hacc, -⟩ := interleave_ok hok
      refine (regionAsRecorded_interleave hk hb hregion hok).trans (iff_of_true ?_ trivial)
      rw [Bool.eq_false_iff]
      intro hw
      have hset := hrecorded hw
      rw [hacc.unset] at hset
      cases hset
  | membind arg => exact iff_of_true (regionAsRecorded_membind hk hb hregion hok) trivial
  | preferredMany arg =>
      exact regionAsRecorded_preferred (m := { m with task := (numaHasPreferredMany h.kernel m.task).2 })
        hk hb hregion (preferredMany_ok hok)
  | preferred arg => exact regionAsRecorded_preferred hk hb hregion hok
  | _ => cases hopt

end Main

theorem plainKernel_namesErrors : plainKernel.NamesErrors := by
  intro requests
  unfold plainKernel
  dsimp only
  split
  · split
    · exact (Option.some_ne_none 0).symm
    · decide
  · exact (Option.some_ne_none 0).symm

/-- Two pages. -/
def plainRegion : Region where
  shmptr := 65536
  shmlen := 8192
  pagesize := 4096
  len_pos := by decide
  pagesize_pos := by decide
  pagesize_dvd := by decide

/-- A system that attaches the region whatever is asked. -/
def plainHost : Host where
  kernel := plainKernel
  devices := noDevices
  attachSysvshm _ _ := some plainRegion
  attachShared _ _ := some plainRegion

/-- `main` on a machine with the nodes 0 and 2, after `--shm`. -/
def attachedMain : Main gapGlobals where
  __ := Main.initial (Task.initial gapGlobals)
  region := some plainRegion
  shmArgs := { shmlen := 8192, shmoffset := 0, shmmode := 0o600, shmid := 0, huge := false }
  shmattached := true

theorem optionLoop_shm : (Main.initial (Task.initial gapGlobals)).optionLoop plainHost [.shm "queue".toList] =
    .ok attachedMain := rfl

theorem Main.exists_ok {x : Except (Stopped g) (Main g)} (h : x.toOption.isSome = true) : ∃ m, x = .ok m := by
  cases x with
  | error e => cases h
  | ok m => exact ⟨m, rfl⟩

theorem regionAsRecorded_interleaved :
    ∃ m, attachedMain.step plainHost (.interleave "0,2".toList) = .ok m ∧
      m.RegionAsRecorded plainHost plainRegion := by
  obtain ⟨m, hok⟩ : ∃ m, attachedMain.step plainHost (.interleave "0,2".toList) = .ok m :=
    Main.exists_ok (by decide +kernel)
  have hiff := Main.regionAsRecorded_iff plainKernel_keeps plainKernel_namesErrors optionLoop_shm rfl rfl hok
  exact ⟨m, hok, hiff.mpr trivial⟩

/-- `--weighted-interleave` interleaves the region without weights, and the record says with weights. -/
theorem not_regionAsRecorded_weightedInterleave :
    ∃ m, (Main.initial (Task.initial gapGlobals)).optionLoop plainHost
        [.shm "queue".toList, .weightedInterleave "0,2".toList] = .ok m ∧
      m.region = some plainRegion ∧ ¬m.RegionAsRecorded plainHost plainRegion := by
  obtain ⟨m, hok⟩ : ∃ m, attachedMain.step plainHost (.weightedInterleave "0,2".toList) = .ok m :=
    Main.exists_ok (by decide +kernel)
  obtain ⟨mask, hacc, -⟩ := Main.interleave_ok hok
  refine ⟨m, ?_, hacc.region_eq, fun hrec => ?_⟩
  · simp only [Main.optionLoop, List.foldlM_cons, List.foldlM_nil, bind_eq_ok, pure_eq_ok]
    exact ⟨attachedMain, rfl, m, hok, rfl⟩
  · have hflag := (Main.regionAsRecorded_interleave (m := { attachedMain with weightedInterleave := true })
      (h := plainHost) plainKernel_keeps plainKernel_namesErrors rfl hok).mp hrec
    cases hflag

end Numactl
