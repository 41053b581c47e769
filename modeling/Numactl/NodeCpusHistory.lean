import Numactl.NodeCpus

/-! Histories of `numa_node_to_cpus` queries, update calls and changes of the cpumap files. Each version
is a cache with one staleness flag for all nodes; the first part shows this for both, and the rest reads
the facts about such caches as facts about the calls. -/

namespace Numactl

/-- A call, or a change of the cpumap files. -/
inductive CpuEvent where
  | queryV1 (node : Int) (buffer : List Word)
  | queryV2 (node : Int) (buffer : Bitmask)
  | update
  | sysfs (cpumap : Nat → CpumapFile)

/-- What the calls depend on: the masks kept by the two versions and the files. -/
structure NodeCpus (cfg : CpuConfig) where
  v1 : NodeCpuMask (CpuWords cfg.cpumaskSz)
  v2 : NodeCpuMask (Cpumask cfg.cpumaskSz)
  cpumap : Nat → CpumapFile

namespace NodeCpus

variable {cfg : CpuConfig}

/-- Before the first call: no mask is kept, and both flags are set. -/
def initial (cfg : CpuConfig) (cpumap : Nat → CpumapFile) : NodeCpus cfg where
  v1 := { slot := fun _ => none, stale := true }
  v2 := { slot := fun _ => none, stale := true }
  cpumap := cpumap

def replyV1 (s : NodeCpus cfg) (node : Int) (buffer : List Word) : CpusReply (List Word) :=
  (numaNodeToCpusV1 cfg s.cpumap s.v1 node buffer).1

def replyV2 (s : NodeCpus cfg) (node : Int) (buffer : Bitmask) : CpusReply Bitmask :=
  (numaNodeToCpusV2 cfg s.cpumap s.v2 node buffer).1

/-- `numa_node_to_cpu_update` sets both flags. -/
def numaNodeToCpuUpdate (s : NodeCpus cfg) : NodeCpus cfg :=
  { s with v1 := { s.v1 with stale := true }, v2 := { s.v2 with stale := true } }

def step (s : NodeCpus cfg) : CpuEvent → NodeCpus cfg
  | .queryV1 node buffer => { s with v1 := (numaNodeToCpusV1 cfg s.cpumap s.v1 node buffer).2 }
  | .queryV2 node buffer => { s with v2 := (numaNodeToCpusV2 cfg s.cpumap s.v2 node buffer).2 }
  | .update => numaNodeToCpuUpdate s
  | .sysfs cpumap => { s with cpumap := cpumap }

/-! ### Both versions are caches with one flag -/

/-- The query passes the `ERANGE` check, and so takes the flag. -/
def TakesFlagV1 (cfg : CpuConfig) : CpuEvent → Prop
  | .queryV1 node buffer =>
      0 ≤ node ∧ node ≤ cfg.maxconfigurednode ∧ cpuLongs cfg.cpumaskSz ≤ buffer.length
  | _ => False

def TakesFlagV2 (cfg : CpuConfig) : CpuEvent → Prop
  | .queryV2 node _ => 0 ≤ node ∧ node ≤ cfg.maxconfigurednode
  | _ => False

instance (e : CpuEvent) : Decidable (TakesFlagV1 cfg e) := by
  cases e <;> simp only [TakesFlagV1] <;> infer_instance

instance (e : CpuEvent) : Decidable (TakesFlagV2 cfg e) := by
  cases e <;> simp only [TakesFlagV2] <;> infer_instance

def sourceOf {μ : Type} (r : Int × μ) : Bool × μ := (decide (r.1 = 0), r.2)

def cacheV1 (s : NodeCpus cfg) : FlagCache.Cache Nat (CpuWords cfg.cpumaskSz) where
  slot := s.v1.slot
  stale := s.v1.stale
  source n := sourceOf (readCpumapV1 cfg (s.cpumap n))

def cacheV2 (s : NodeCpus cfg) : FlagCache.Cache Nat (Cpumask cfg.cpumaskSz) where
  slot := s.v2.slot
  stale := s.v2.stale
  source n := sourceOf (readCpumapV2 cfg (s.cpumap n))

def opV1 (cfg : CpuConfig) : CpuEvent → FlagCache.Op Nat (CpuWords cfg.cpumaskSz)
  | .queryV1 node buffer =>
      if TakesFlagV1 cfg (.queryV1 node buffer) then .query node.toNat else .skip
  | .queryV2 _ _ => .skip
  | .update => .refresh
  | .sysfs cpumap => .change fun n => sourceOf (readCpumapV1 cfg (cpumap n))

def opV2 (cfg : CpuConfig) : CpuEvent → FlagCache.Op Nat (Cpumask cfg.cpumaskSz)
  | .queryV1 _ _ => .skip
  | .queryV2 node buffer =>
      if TakesFlagV2 cfg (.queryV2 node buffer) then .query node.toNat else .skip
  | .update => .refresh
  | .sysfs cpumap => .change fun n => sourceOf (readCpumapV2 cfg (cpumap n))

theorem not_takesFlagV1_iff (node : Int) (buffer : List Word) :
    ¬TakesFlagV1 cfg (.queryV1 node buffer) ↔
      node < 0 ∨ (cfg.maxconfigurednode : Int) < node ∨ buffer.length < cpuLongs cfg.cpumaskSz := by
  simp only [TakesFlagV1]
  omega

theorem not_takesFlagV2_iff (node : Int) (buffer : Bitmask) :
    ¬TakesFlagV2 cfg (.queryV2 node buffer) ↔ node < 0 ∨ (cfg.maxconfigurednode : Int) < node := by
  simp only [TakesFlagV2]
  omega

def retOf (ok : Bool) : Int := if ok then 0 else -1

theorem retOf_sourceOf {μ : Type} (parse : List Char → μ → Int × μ) (setall : μ → μ) (file : CpumapFile)
    (mask : μ) : (readCpumap parse setall file mask).1 =
      retOf (sourceOf (readCpumap parse setall file mask)).1 := by
  obtain h | h := readCpumap_ret parse setall file mask <;> simp [h, retOf, sourceOf]

/-- What a query sets `errno` to, if it does, when the mask is read or kept. -/
def errnoOf (cfg : CpuConfig) (reads : Bool) (file : CpumapFile) : Option Errno :=
  if reads then file.errno cfg.cpumaskSz else none

/-- A version 1 call past the `ERANGE` check is a query of the cache. -/
theorem numaNodeToCpusV1_eq (s : NodeCpus cfg) {node : Int} {buffer : List Word}
    (h : TakesFlagV1 cfg (.queryV1 node buffer)) :
    numaNodeToCpusV1 cfg s.cpumap s.v1 node buffer =
      ({ ret := retOf (s.cacheV1.reply node.toNat).1,
         errno := errnoOf cfg (s.cacheV1.reads node.toNat) (s.cpumap node.toNat),
         buffer := copyWords (s.cacheV1.reply node.toNat).2 buffer },
       { slot := Function.update s.v1.slot node.toNat (s.cacheV1.store true node.toNat), stale := false }) := by
  have hrange := mt (not_takesFlagV1_iff node buffer).mpr (not_not_intro h)
  have hret := retOf_sourceOf CpuWords.parse CpuWords.setall (s.cpumap node.toNat)
    (CpuWords.zero cfg.cpumaskSz)
  rw [numaNodeToCpusV1, if_neg hrange]
  unfold FlagCache.Cache.reply FlagCache.Cache.store FlagCache.Cache.reads cacheV1
  dsimp only
  cases hslot : s.v1.slot node.toNat with
  | none =>
      simp only [Option.isNone_none, Bool.or_true, if_true]
      exact Prod.ext (CpusReply.mk.injEq .. |>.mpr ⟨hret, rfl, rfl⟩) rfl
  | some mask =>
      cases hstale : s.v1.stale with
      | true =>
          simp only [Bool.true_or, if_true]
          exact Prod.ext (CpusReply.mk.injEq .. |>.mpr ⟨hret, rfl, rfl⟩) rfl
      | false =>
          have hkeep : Function.update s.v1.slot node.toNat (some mask) = s.v1.slot := by
            rw [← hslot, Function.update_eq_self]
          simp [retOf, errnoOf, hkeep]

theorem cacheV1_step (s : NodeCpus cfg) (e : CpuEvent) :
    (s.step e).cacheV1 = s.cacheV1.step true (opV1 cfg e) := by
  cases e with
  | queryV1 node buffer =>
      by_cases h : TakesFlagV1 cfg (.queryV1 node buffer)
      · rw [opV1, if_pos h, step, cacheV1]
        dsimp only
        rw [numaNodeToCpusV1_eq s h]
        rfl
      · have hrange := (not_takesFlagV1_iff node buffer).mp h
        rw [opV1, if_neg h, step, cacheV1]
        dsimp only
        rw [numaNodeToCpusV1, if_pos hrange]
        rfl
  | queryV2 node buffer => rfl
  | update => rfl
  | sysfs cpumap => rfl

/-- A version 2 call past the `ERANGE` check is a query of the cache; only an answer from the slot is
refused to a buffer that is too small. -/
theorem numaNodeToCpusV2_eq (s : NodeCpus cfg) {node : Int} {buffer : Bitmask}
    (h : TakesFlagV2 cfg (.queryV2 node buffer)) :
    numaNodeToCpusV2 cfg s.cpumap s.v2 node buffer =
      (if s.cacheV2.reads node.toNat = false ∧ buffer.size < cfg.cpumaskSz then
          { ret := -1, errno := some EINVAL, buffer := numaBitmaskClearall buffer }
        else
          { ret := retOf (s.cacheV2.reply node.toNat).1,
            errno := errnoOf cfg (s.cacheV2.reads node.toNat) (s.cpumap node.toNat),
            buffer := copyBitmaskToBitmask (s.cacheV2.reply node.toNat).2.toBitmask
              (numaBitmaskClearall buffer) },
       { slot := Function.update s.v2.slot node.toNat (s.cacheV2.store false node.toNat), stale := false }) := by
  have hrange := mt (not_takesFlagV2_iff node buffer).mpr (not_not_intro h)
  have hret := retOf_sourceOf Cpumask.parse Cpumask.setall (s.cpumap node.toNat) (numaAllocateCpumask cfg)
  rw [numaNodeToCpusV2, if_neg hrange]
  unfold FlagCache.Cache.reply FlagCache.Cache.store FlagCache.Cache.reads cacheV2
  dsimp only
  obtain hslot | ⟨mask, hslot⟩ := Option.eq_none_or_eq_some (s.v2.slot node.toNat)
  · simp only [hslot, Option.isNone_none, Bool.or_true, Bool.true_eq_false, false_and, if_false,
      Bool.or_false, sourceOf, decide_eq_true_eq]
    exact Prod.ext (CpusReply.mk.injEq .. |>.mpr ⟨hret, rfl, rfl⟩) rfl
  · cases hstale : s.v2.stale with
    | true =>
        simp only [hslot, Bool.true_or, Bool.true_eq_false, false_and, if_false, if_true,
          Cpumask.copyTo_eq]
        exact Prod.ext (CpusReply.mk.injEq .. |>.mpr ⟨hret, rfl, rfl⟩) rfl
    | false =>
        have hkeep : Function.update s.v2.slot node.toNat (some mask) = s.v2.slot := by
          rw [← hslot, Function.update_eq_self]
        simp only [hslot, Option.isNone_some, Bool.or_false, true_and, size_clearall, mask.size_eq,
          Bool.false_eq_true, if_false, hkeep, retOf, errnoOf, if_true]
        split <;> rfl

theorem cacheV2_step (s : NodeCpus cfg) (e : CpuEvent) :
    (s.step e).cacheV2 = s.cacheV2.step false (opV2 cfg e) := by
  cases e with
  | queryV1 node buffer => rfl
  | queryV2 node buffer =>
      by_cases h : TakesFlagV2 cfg (.queryV2 node buffer)
      · rw [opV2, if_pos h, step, cacheV2]
        dsimp only
        rw [numaNodeToCpusV2_eq s h]
        rfl
      · have hrange := (not_takesFlagV2_iff node buffer).mp h
        rw [opV2, if_neg h, step, cacheV2]
        dsimp only
        rw [numaNodeToCpusV2, if_pos hrange]
        rfl
  | update => rfl
  | sysfs cpumap => rfl

theorem isQuery_opV1 (e : CpuEvent) : (opV1 cfg e).IsQuery ↔ TakesFlagV1 cfg e := by
  cases e with
  | queryV1 node buffer => by_cases h : TakesFlagV1 cfg (.queryV1 node buffer) <;> simp [opV1, h, FlagCache.Op.IsQuery]
  | queryV2 node buffer => rfl
  | update => rfl
  | sysfs cpumap => rfl

theorem isQuery_opV2 (e : CpuEvent) : (opV2 cfg e).IsQuery ↔ TakesFlagV2 cfg e := by
  cases e with
  | queryV1 node buffer => rfl
  | queryV2 node buffer => by_cases h : TakesFlagV2 cfg (.queryV2 node buffer) <;> simp [opV2, h, FlagCache.Op.IsQuery]
  | update => rfl
  | sysfs cpumap => rfl

def IsUpdate : CpuEvent → Prop
  | .update => True
  | _ => False

theorem isRefresh_opV1 (e : CpuEvent) : (opV1 cfg e).IsRefresh ↔ IsUpdate e := by
  cases e with
  | queryV1 node buffer =>
      by_cases h : TakesFlagV1 cfg (.queryV1 node buffer) <;> simp [opV1, h, FlagCache.Op.IsRefresh, IsUpdate]
  | queryV2 node buffer => rfl
  | update => rfl
  | sysfs cpumap => rfl

theorem isRefresh_opV2 (e : CpuEvent) : (opV2 cfg e).IsRefresh ↔ IsUpdate e := by
  cases e with
  | queryV1 node buffer => rfl
  | queryV2 node buffer =>
      by_cases h : TakesFlagV2 cfg (.queryV2 node buffer) <;> simp [opV2, h, FlagCache.Op.IsRefresh, IsUpdate]
  | update => rfl
  | sysfs cpumap => rfl

theorem cacheV1_after (s : NodeCpus cfg) (ops : List CpuEvent) :
    (Runs.after step s ops).cacheV1 =
      Runs.after (FlagCache.Cache.step true) s.cacheV1 (ops.map (opV1 cfg)) :=
  Runs.after_map (opV1 cfg) cacheV1 cacheV1_step s ops

theorem cacheV2_after (s : NodeCpus cfg) (ops : List CpuEvent) :
    (Runs.after step s ops).cacheV2 =
      Runs.after (FlagCache.Cache.step false) s.cacheV2 (ops.map (opV2 cfg)) :=
  Runs.after_map (opV2 cfg) cacheV2 cacheV2_step s ops

theorem since_opV1 (ops : List CpuEvent) :
    Runs.Since FlagCache.Op.IsQuery FlagCache.Op.IsRefresh (ops.map (opV1 cfg)) ↔
      Runs.Since (TakesFlagV1 cfg) IsUpdate ops := by
  simp only [Runs.since_map, isQuery_opV1, isRefresh_opV1]

theorem since_opV2 (ops : List CpuEvent) :
    Runs.Since FlagCache.Op.IsQuery FlagCache.Op.IsRefresh (ops.map (opV2 cfg)) ↔
      Runs.Since (TakesFlagV2 cfg) IsUpdate ops := by
  simp only [Runs.since_map, isQuery_opV2, isRefresh_opV2]

/-! ### The first query after an update -/

/-- The cpumap file can be read and parsed, and says `mask`. -/
def CpumapV1 (cfg : CpuConfig) (file : CpumapFile) (mask : CpuWords cfg.cpumaskSz) : Prop :=
  Parses CpuWords.parse file (CpuWords.zero cfg.cpumaskSz) mask

def CpumapV2 (cfg : CpuConfig) (file : CpumapFile) (mask : Cpumask cfg.cpumaskSz) : Prop :=
  Parses Cpumask.parse file (numaAllocateCpumask cfg) mask

theorem sourceOf_eq_true_iff {μ : Type} (r : Int × μ) (mask : μ) :
    sourceOf r = (true, mask) ↔ r = (0, mask) := by
  obtain ⟨ret, m⟩ := r
  simp [sourceOf]

theorem sourceV1_eq_iff (s : NodeCpus cfg) (n : Nat) (mask : CpuWords cfg.cpumaskSz) :
    s.cacheV1.source n = (true, mask) ↔ CpumapV1 cfg (s.cpumap n) mask :=
  (sourceOf_eq_true_iff _ _).trans (readCpumap_eq_zero_iff _ _ _ _ _)

theorem sourceV2_eq_iff (s : NodeCpus cfg) (n : Nat) (mask : Cpumask cfg.cpumaskSz) :
    s.cacheV2.source n = (true, mask) ↔ CpumapV2 cfg (s.cpumap n) mask :=
  (sourceOf_eq_true_iff _ _).trans (readCpumap_eq_zero_iff _ _ _ _ _)

def QueriesV1 (n : Nat) : CpuEvent → Prop
  | .queryV1 node _ => node = n
  | _ => False

def QueriesV2 (n : Nat) : CpuEvent → Prop
  | .queryV2 node _ => node = n
  | _ => False

/-- Each first query of a node since an update call, made with a buffer of the kernel's cpumask size
while the node's cpumap can be read and parsed, returns that cpumap. -/
structure FirstQueriesFresh (s : NodeCpus cfg) (ops : List CpuEvent) : Prop where
  v1 : ∀ (pre : List CpuEvent) (n : Nat) (buffer : List Word) (post : List CpuEvent),
    ops = pre ++ .queryV1 n buffer :: post → Runs.Since IsUpdate (QueriesV1 n) pre →
    buffer.length = cpuLongs cfg.cpumaskSz →
    ∀ mask, CpumapV1 cfg ((Runs.after step s pre).cpumap n) mask →
      ((Runs.after step s pre).replyV1 n buffer).ret = 0 ∧
        ((Runs.after step s pre).replyV1 n buffer).buffer = mask.words
  v2 : ∀ (pre : List CpuEvent) (n : Nat) (buffer : Bitmask) (post : List CpuEvent),
    ops = pre ++ .queryV2 n buffer :: post → Runs.Since IsUpdate (QueriesV2 n) pre →
    buffer.size = cfg.cpumaskSz →
    ∀ mask, CpumapV2 cfg ((Runs.after step s pre).cpumap n) mask →
      ((Runs.after step s pre).replyV2 n buffer).ret = 0 ∧
        ((Runs.after step s pre).replyV2 n buffer).buffer.bits = mask.bits

/-- At each such query the node exists, and where a query through the same entry point has taken the flag
since the last update, the node has no mask kept that differs from its cpumap. -/
structure NoOldMaskServed (s : NodeCpus cfg) (ops : List CpuEvent) : Prop where
  v1 : ∀ (pre : List CpuEvent) (n : Nat) (buffer : List Word) (post : List CpuEvent),
    ops = pre ++ .queryV1 n buffer :: post → Runs.Since IsUpdate (QueriesV1 n) pre →
    buffer.length = cpuLongs cfg.cpumaskSz →
    ∀ mask, CpumapV1 cfg ((Runs.after step s pre).cpumap n) mask →
      n ≤ cfg.maxconfigurednode ∧ (Runs.Since (TakesFlagV1 cfg) IsUpdate pre →
        ∀ old, (Runs.after step s pre).v1.slot n = some old → old.words = mask.words)
  v2 : ∀ (pre : List CpuEvent) (n : Nat) (buffer : Bitmask) (post : List CpuEvent),
    ops = pre ++ .queryV2 n buffer :: post → Runs.Since IsUpdate (QueriesV2 n) pre →
    buffer.size = cfg.cpumaskSz →
    ∀ mask, CpumapV2 cfg ((Runs.after step s pre).cpumap n) mask →
      n ≤ cfg.maxconfigurednode ∧ (Runs.Since (TakesFlagV2 cfg) IsUpdate pre →
        ∀ old, (Runs.after step s pre).v2.slot n = some old → old.bits = mask.bits)

theorem copyWords_eq {n : Nat} (mask : CpuWords n) {buffer : List Word} (h : buffer.length = cpuLongs n) :
    copyWords mask buffer = mask.words := by
  rw [copyWords, if_neg (by omega), Words.copy, List.take_of_length_le mask.length_eq.le,
    List.drop_of_length_le h.le, List.append_nil]

theorem bits_copy_cpumask {n : Nat} (mask : Cpumask n) {buffer : Bitmask} (h : buffer.size = n) :
    (copyBitmaskToBitmask mask.toBitmask (numaBitmaskClearall buffer)).bits = mask.bits :=
  bits_copyBitmaskToBitmask_of_size_eq (by rw [size_clearall, mask.size_eq, h])

/-- A version 1 query of a node whose cpumap is readable, at the end of any history. -/
theorem replyV1_fresh_iff {cpumap : Nat → CpumapFile} (pre : List CpuEvent) {n : Nat} {buffer : List Word}
    (hbuffer : buffer.length = cpuLongs cfg.cpumaskSz) {mask : CpuWords cfg.cpumaskSz}
    (hmask : CpumapV1 cfg ((Runs.after step (initial cfg cpumap) pre).cpumap n) mask) :
    (((Runs.after step (initial cfg cpumap) pre).replyV1 n buffer).ret = 0 ∧
        ((Runs.after step (initial cfg cpumap) pre).replyV1 n buffer).buffer = mask.words) ↔
      n ≤ cfg.maxconfigurednode ∧ (Runs.Since (TakesFlagV1 cfg) IsUpdate pre →
        ∀ old, (Runs.after step (initial cfg cpumap) pre).v1.slot n = some old →
          old.words = mask.words) := by
  by_cases hn : n ≤ cfg.maxconfigurednode
  · have htakes : TakesFlagV1 cfg (.queryV1 n buffer) := ⟨by omega, by omega, hbuffer.ge⟩
    have hfresh := FlagCache.reply_after_iff true (c := (initial cfg cpumap).cacheV1) rfl
      (pre.map (opV1 cfg)) n (o := fun r => retOf r.1 = 0 ∧ r.2.words = mask.words)
    rw [← cacheV1_after, since_opV1, (sourceV1_eq_iff _ _ _).mpr hmask] at hfresh
    rw [replyV1, numaNodeToCpusV1_eq _ htakes, Int.toNat_natCast]
    dsimp only
    rw [copyWords_eq _ hbuffer]
    refine (hfresh ⟨rfl, rfl⟩).trans ⟨fun h => ⟨hn, fun hsince old hold => (h hsince old hold).2⟩, fun h => ?_⟩
    exact fun hsince old hold => ⟨rfl, h.2 hsince old hold⟩
  · have hrange : (n : Int) < 0 ∨ (cfg.maxconfigurednode : Int) < n ∨
        buffer.length < cpuLongs cfg.cpumaskSz := by omega
    rw [replyV1, numaNodeToCpusV1, if_pos hrange]
    exact iff_of_false (fun h => absurd h.1 (by simp)) fun h => hn h.1

theorem replyV2_fresh_iff {cpumap : Nat → CpumapFile} (pre : List CpuEvent) {n : Nat} {buffer : Bitmask}
    (hbuffer : buffer.size = cfg.cpumaskSz) {mask : Cpumask cfg.cpumaskSz}
    (hmask : CpumapV2 cfg ((Runs.after step (initial cfg cpumap) pre).cpumap n) mask) :
    (((Runs.after step (initial cfg cpumap) pre).replyV2 n buffer).ret = 0 ∧
        ((Runs.after step (initial cfg cpumap) pre).replyV2 n buffer).buffer.bits = mask.bits) ↔
      n ≤ cfg.maxconfigurednode ∧ (Runs.Since (TakesFlagV2 cfg) IsUpdate pre →
        ∀ old, (Runs.after step (initial cfg cpumap) pre).v2.slot n = some old →
          old.bits = mask.bits) := by
  by_cases hn : n ≤ cfg.maxconfigurednode
  · have htakes : TakesFlagV2 cfg (.queryV2 n buffer) := ⟨by omega, by omega⟩
    have hfresh := FlagCache.reply_after_iff false (c := (initial cfg cpumap).cacheV2) rfl
      (pre.map (opV2 cfg)) n (o := fun r => retOf r.1 = 0 ∧ r.2.bits = mask.bits)
    rw [← cacheV2_after, since_opV2, (sourceV2_eq_iff _ _ _).mpr hmask] at hfresh
    rw [replyV2, numaNodeToCpusV2_eq _ htakes, Int.toNat_natCast]
    dsimp only
    rw [if_neg (by omega)]
    dsimp only
    rw [bits_copy_cpumask _ hbuffer]
    refine (hfresh ⟨rfl, rfl⟩).trans ⟨fun h => ⟨hn, fun hsince old hold => (h hsince old hold).2⟩, fun h => ?_⟩
    exact fun hsince old hold => ⟨rfl, h.2 hsince old hold⟩
  · have hrange : (n : Int) < 0 ∨ (cfg.maxconfigurednode : Int) < n := by omega
    rw [replyV2, numaNodeToCpusV2, if_pos hrange]
    exact iff_of_false (fun h => absurd h.1 (by simp)) fun h => hn h.1

/-- Two nodes and 64 CPUs. -/
def twoNodes : CpuConfig where
  cpumaskSz := 64
  pos := Nat.succ_pos 63
  maxconfigurednode := 1

def cpu0 (_ : Nat) : CpumapFile := .text '1' ['\n']

def cpu1 (_ : Nat) : CpumapFile := .text '2' ['\n']

/-- A query of the history for `node` read and parsed `mask` from the node's cpumap. -/
def ReadByV1 (s : NodeCpus cfg) (ops : List CpuEvent) (node : Int) (mask : CpuWords cfg.cpumaskSz) : Prop :=
  ∃ pre buffer post, ops = pre ++ .queryV1 node buffer :: post ∧ TakesFlagV1 cfg (.queryV1 node buffer) ∧
    (Runs.after step s pre).cacheV1.reads node.toNat = true ∧
    CpumapV1 cfg ((Runs.after step s pre).cpumap node.toNat) mask

def ReadByV2 (s : NodeCpus cfg) (ops : List CpuEvent) (node : Int) (mask : Cpumask cfg.cpumaskSz) : Prop :=
  ∃ pre buffer post, ops = pre ++ .queryV2 node buffer :: post ∧ TakesFlagV2 cfg (.queryV2 node buffer) ∧
    (Runs.after step s pre).cacheV2.reads node.toNat = true ∧
    CpumapV2 cfg ((Runs.after step s pre).cpumap node.toNat) mask

/-- Every query that returns 0 delivers a mask read and parsed from its node's cpumap by this query or
an earlier one. -/
structure DeliversRead (s : NodeCpus cfg) (ops : List CpuEvent) : Prop where
  v1 : ∀ (pre : List CpuEvent) (node : Int) (buffer : List Word) (post : List CpuEvent),
    ops = pre ++ .queryV1 node buffer :: post →
    ((Runs.after step s pre).replyV1 node buffer).ret = 0 →
    ∃ mask, ((Runs.after step s pre).replyV1 node buffer).buffer = copyWords mask buffer ∧
      ReadByV1 s (pre ++ [.queryV1 node buffer]) node mask
  v2 : ∀ (pre : List CpuEvent) (node : Int) (buffer : Bitmask) (post : List CpuEvent),
    ops = pre ++ .queryV2 node buffer :: post →
    ((Runs.after step s pre).replyV2 node buffer).ret = 0 →
    ∃ mask, ((Runs.after step s pre).replyV2 node buffer).buffer =
        copyBitmaskToBitmask mask.toBitmask (numaBitmaskClearall buffer) ∧
      ReadByV2 s (pre ++ [.queryV2 node buffer]) node mask

/-- A query whose reading fails and whose substitute is kept: in version 1 every one that reads, in
version 2 one that reads because the flag is set while the node has a mask kept. -/
def KeepsFailure (s : NodeCpus cfg) : CpuEvent → Prop
  | .queryV1 node buffer =>
      TakesFlagV1 cfg (.queryV1 node buffer) ∧
        (s.v1.stale = true ∨ s.v1.slot node.toNat = none) ∧ ¬∃ mask, CpumapV1 cfg (s.cpumap node.toNat) mask
  | .queryV2 node buffer =>
      TakesFlagV2 cfg (.queryV2 node buffer) ∧ s.v2.stale = true ∧ s.v2.slot node.toNat ≠ none ∧
        ¬∃ mask, CpumapV2 cfg (s.cpumap node.toNat) mask
  | _ => False

theorem sourceOf_fst_eq_false_iff {μ : Type} (r : Bool × μ) : r.1 = false ↔ ¬∃ mask, r = (true, mask) := by
  obtain ⟨ok, mask⟩ := r
  cases ok <;> simp

theorem keepsFailure_of_poisonsV1 {s : NodeCpus cfg} {node : Int} {buffer : List Word}
    (htakes : TakesFlagV1 cfg (.queryV1 node buffer)) (h : s.cacheV1.Poisons true node.toNat) :
    s.KeepsFailure (.queryV1 node buffer) := by
  obtain ⟨hreads, hfail, -⟩ := h
  rw [sourceOf_fst_eq_false_iff] at hfail
  simp only [sourceV1_eq_iff] at hfail
  refine ⟨htakes, ?_, hfail⟩
  simpa [FlagCache.Cache.reads, cacheV1] using hreads

theorem keepsFailure_of_poisonsV2 {s : NodeCpus cfg} {node : Int} {buffer : Bitmask}
    (htakes : TakesFlagV2 cfg (.queryV2 node buffer)) (h : s.cacheV2.Poisons false node.toNat) :
    s.KeepsFailure (.queryV2 node buffer) := by
  obtain ⟨hreads, hfail, hkept⟩ := h
  rw [sourceOf_fst_eq_false_iff] at hfail
  simp only [sourceV2_eq_iff] at hfail
  have hsome : s.v2.slot node.toNat ≠ none := by
    obtain h | h := hkept
    · exact Option.isSome_iff_ne_none.mp h
    · cases h
  refine ⟨htakes, ?_, hsome, hfail⟩
  simpa [FlagCache.Cache.reads, cacheV2, hsome] using hreads

theorem takesFlagV1_of_ret {s : NodeCpus cfg} {node : Int} {buffer : List Word}
    (h : (s.replyV1 node buffer).ret = 0) : TakesFlagV1 cfg (.queryV1 node buffer) := by
  by_contra hrange
  rw [not_takesFlagV1_iff] at hrange
  rw [replyV1, numaNodeToCpusV1, if_pos hrange] at h
  exact absurd h (by simp)

theorem takesFlagV2_of_ret {s : NodeCpus cfg} {node : Int} {buffer : Bitmask}
    (h : (s.replyV2 node buffer).ret = 0) : TakesFlagV2 cfg (.queryV2 node buffer) := by
  by_contra hrange
  rw [not_takesFlagV2_iff] at hrange
  rw [replyV2, numaNodeToCpusV2, if_pos hrange] at h
  exact absurd h (by simp)

theorem opV1_eq_query {e : CpuEvent} {i : Nat} (h : opV1 cfg e = .query i) :
    ∃ buffer, e = .queryV1 i buffer ∧ TakesFlagV1 cfg e := by
  cases e with
  | queryV1 node buffer =>
      rw [opV1] at h
      by_cases htakes : TakesFlagV1 cfg (.queryV1 node buffer)
      · rw [if_pos htakes, FlagCache.Op.query.injEq] at h
        have hnode : node = i := by
          have := htakes.1
          omega
        exact ⟨buffer, by rw [hnode], htakes⟩
      · rw [if_neg htakes] at h
        cases h
  | queryV2 node buffer => cases h
  | update => cases h
  | sysfs cpumap => cases h

theorem opV2_eq_query {e : CpuEvent} {i : Nat} (h : opV2 cfg e = .query i) :
    ∃ buffer, e = .queryV2 i buffer ∧ TakesFlagV2 cfg e := by
  cases e with
  | queryV1 node buffer => cases h
  | queryV2 node buffer =>
      rw [opV2] at h
      by_cases htakes : TakesFlagV2 cfg (.queryV2 node buffer)
      · rw [if_pos htakes, FlagCache.Op.query.injEq] at h
        have hnode : node = i := by
          have := htakes.1
          omega
        exact ⟨buffer, by rw [hnode], htakes⟩
      · rw [if_neg htakes] at h
        cases h
  | update => cases h
  | sysfs cpumap => cases h

theorem not_poisonsV1_along {s : NodeCpus cfg} {ops : List CpuEvent}
    (h : Runs.Along step s ops fun t e => ¬t.KeepsFailure e) :
    Runs.Along (FlagCache.Cache.step true) s.cacheV1 (ops.map (opV1 cfg)) fun t op =>
      ∀ i, op = .query i → ¬t.Poisons true i := by
  refine Runs.Along.map cacheV1_step fun pre e post hops i hop hpoisons => ?_
  obtain ⟨buffer, rfl, htakes⟩ := opV1_eq_query hop
  exact h pre _ post hops (keepsFailure_of_poisonsV1 htakes hpoisons)

theorem not_poisonsV2_along {s : NodeCpus cfg} {ops : List CpuEvent}
    (h : Runs.Along step s ops fun t e => ¬t.KeepsFailure e) :
    Runs.Along (FlagCache.Cache.step false) s.cacheV2 (ops.map (opV2 cfg)) fun t op =>
      ∀ i, op = .query i → ¬t.Poisons false i := by
  refine Runs.Along.map cacheV2_step fun pre e post hops i hop hpoisons => ?_
  obtain ⟨buffer, rfl, htakes⟩ := opV2_eq_query hop
  exact h pre _ post hops (keepsFailure_of_poisonsV2 htakes hpoisons)

theorem retOf_eq_zero {ok : Bool} (h : retOf ok = 0) : ok = true := by
  cases ok
  · cases h
  · rfl

/-- Only a change of the files changes the files. -/
theorem cpumap_after (s : NodeCpus cfg) {ops : List CpuEvent} (h : ∀ f, .sysfs f ∉ ops) :
    (Runs.after step s ops).cpumap = s.cpumap := by
  induction ops generalizing s with
  | nil => rfl
  | cons e ops ih =>
      rw [Runs.after_cons, ih _ fun f hf => h f (List.mem_cons_of_mem e hf)]
      cases e with
      | queryV1 node buffer => rfl
      | queryV2 node buffer => rfl
      | update => rfl
      | sysfs f => exact absurd List.mem_cons_self (h f)

/-- Once a failed reading has been kept, the same query returns 0 and delivers the substitute. -/
theorem replyV1_of_keepsFailure {s : NodeCpus cfg} {node : Int} {buffer : List Word}
    (h : s.KeepsFailure (.queryV1 node buffer)) :
    (s.step (.queryV1 node buffer)).replyV1 node buffer =
      { ret := 0, errno := none, buffer := copyWords (readCpumapV1 cfg (s.cpumap node.toNat)).2 buffer } := by
  obtain ⟨htakes, hreads, hfail⟩ := h
  have hpoisons : s.cacheV1.Poisons true node.toNat := by
    refine ⟨by simpa [FlagCache.Cache.reads, cacheV1] using hreads, ?_, Or.inr rfl⟩
    rw [sourceOf_fst_eq_false_iff]
    simpa only [sourceV1_eq_iff] using hfail
  have hop : opV1 cfg (.queryV1 node buffer) = .query node.toNat := by rw [opV1, if_pos htakes]
  obtain ⟨hreads', hreply⟩ := FlagCache.reply_of_poisons hpoisons
  rw [replyV1, numaNodeToCpusV1_eq _ htakes, cacheV1_step, hop, hreads', hreply]
  rfl

theorem replyV2_of_keepsFailure {s : NodeCpus cfg} {node : Int} {buffer : Bitmask}
    (hbuffer : cfg.cpumaskSz ≤ buffer.size) (h : s.KeepsFailure (.queryV2 node buffer)) :
    (s.step (.queryV2 node buffer)).replyV2 node buffer =
      { ret := 0, errno := none,
        buffer := copyBitmaskToBitmask (readCpumapV2 cfg (s.cpumap node.toNat)).2.toBitmask
          (numaBitmaskClearall buffer) } := by
  obtain ⟨htakes, hstale, hslot, hfail⟩ := h
  have hpoisons : s.cacheV2.Poisons false node.toNat := by
    refine ⟨by simp [FlagCache.Cache.reads, cacheV2, hstale], ?_,
      Or.inl (Option.isSome_iff_ne_none.mpr hslot)⟩
    rw [sourceOf_fst_eq_false_iff]
    simpa only [sourceV2_eq_iff] using hfail
  have hop : opV2 cfg (.queryV2 node buffer) = .query node.toNat := by rw [opV2, if_pos htakes]
  obtain ⟨hreads, hreply⟩ := FlagCache.reply_of_poisons hpoisons
  rw [replyV2, numaNodeToCpusV2_eq _ htakes, cacheV2_step, hop, hreads, hreply, if_neg (by omega)]
  rfl

end NodeCpus
end Numactl
