import Numactl.NodeCpus
import Numactl.NodeString

/-! Memory policies: the system calls libnuma makes and the functions of `libnuma.c` that set and read the
policy of the task and of its memory. The kernel is a parameter: it may refuse any request, depending on
all that was asked before, and what it reads from a mask passed with a bit count is its own. It keeps the
policies it has granted. Running out of memory is not modelled, and `numa_error` returns, as it does unless
the application asks for an exit. -/

namespace Numactl

def mpolDefault : Nat := 0

def mpolPreferred : Nat := 1

def mpolBind : Nat := 2

def mpolInterleave : Nat := 3

def mpolLocal : Nat := 4

def mpolPreferredMany : Nat := 5

def mpolWeightedInterleave : Nat := 6

/-- A flag, OR-ed to a mode. -/
def mpolFNumaBalancing : Nat := 2 ^ 13

/-- A flag for `mbind`. -/
def mpolMfStrict : BitVec 32 := 1

/-- A policy as it is set and reported: the mode OR-ed with its flags, and the nodes. -/
@[ext] structure MemPolicy where
  policy : Nat
  nodes : Finset Nat
  deriving DecidableEq

/-- The mode without its flags. -/
def MemPolicy.mode (p : MemPolicy) : Nat := p.policy % mpolFNumaBalancing

/-- What is asked of the kernel. A mask is passed by its words, `none` being the null pointer. -/
inductive Request where
  | setMempolicy (policy : Nat) (nmask : List Word) (maxnode : Nat)
  | mbind (start len policy : Nat) (nmask : Option (List Word)) (maxnode : Nat) (flags : BitVec 32)
  | schedSetaffinity (pid len : Nat) (mask : List Word)
  | mmap (length : Nat)
  | munmap (addr length : Nat)
  deriving DecidableEq

/-- The system around the library: whether it knows memory policies, the number of node ids, the nodes read
from a mask passed with a bit count, the answer to the last of the requests made so far (`none` if it is
granted), the address it maps, the nodes of the task's cpuset at that time, the node of the page at an
address, and the cpumap files. -/
structure Kernel where
  available : Bool
  nrNodeIds : Nat
  readNodes : List Word → Nat → Finset Nat
  refusal : List Request → Option Errno
  mapped : List Request → Nat
  memsAllowed : List Request → Finset Nat
  nodeAt : Nat → Int
  cpumap : Nat → CpumapFile

def Globals.cpuConfig (g : Globals) : CpuConfig where
  cpumaskSz := g.cpumaskSz
  pos := g.cpumask_pos
  maxconfigurednode := g.maxconfigurednode

/-- The kernel's side and the library's side of a task: its policy, the policy of every address, `errno`;
what the library has found out about `MPOL_PREFERRED_MANY` (`none` for -1), its settings and its CPU masks;
the calls of `numa_error` and the requests made. -/
structure Task (g : Globals) where
  policy : MemPolicy
  pages : Nat → MemPolicy
  errno : Errno
  hasPreferredMany : Option Bool
  bindPolicy : Nat
  mbindFlags : BitVec 32
  failAllocOnError : Bool
  nodeCpus : NodeCpuMask (Cpumask g.cpuConfig.cpumaskSz)
  errors : List String
  requests : List Request

variable {g : Globals}

/-- A task with the default policy, when the library is loaded. -/
def Task.initial (g : Globals) : Task g where
  policy := ⟨mpolDefault, ∅⟩
  pages _ := ⟨mpolDefault, ∅⟩
  errno := 0
  hasPreferredMany := none
  bindPolicy := mpolBind
  mbindFlags := 0
  failAllocOnError := false
  nodeCpus := ⟨fun _ => none, true⟩
  errors := []
  requests := []

namespace Kernel

variable (k : Kernel)

/-- The request is made; a refusal leaves its `errno`, otherwise `granted` happens. -/
def ask (req : Request) (granted : Task g → Task g) (t : Task g) : Bool × Task g :=
  let t := { t with requests := t.requests ++ [req] }
  match k.refusal t.requests with
  | some e => (false, { t with errno := e })
  | none => (true, granted t)

def setMempolicy (policy : Nat) (nmask : List Word) (maxnode : Nat) (t : Task g) : Bool × Task g :=
  k.ask (.setMempolicy policy nmask maxnode)
    (fun t => { t with policy := ⟨policy, k.readNodes nmask maxnode⟩ }) t

def mbind (start len policy : Nat) (nmask : Option (List Word)) (maxnode : Nat) (flags : BitVec 32)
    (t : Task g) : Bool × Task g :=
  k.ask (.mbind start len policy nmask maxnode flags)
    (fun t => { t with
      pages := fun a => if start ≤ a ∧ a < start + len then
        ⟨policy, nmask.elim ∅ fun words => k.readNodes words maxnode⟩ else t.pages a }) t

def schedSetaffinity (pid len : Nat) (mask : List Word) (t : Task g) : Bool × Task g :=
  k.ask (.schedSetaffinity pid len mask) id t

/-- A mask the kernel has written a set of nodes into. -/
def fill (bmp : Bitmask) (nodes : Finset Nat) : Bitmask where
  size := bmp.size
  maskp := Words.ofBits 64 bmp.maskp.length fun i => decide (i ∈ nodes)
  fits := by rw [Words.length_ofBits]; exact bmp.fits

/-- `get_mempolicy` into a mask, which must have a bit for every node id. -/
def getMempolicy (current : MemPolicy) (bmp : Bitmask) (t : Task g) : Option (Nat × Bitmask) × Task g :=
  if bmp.size < k.nrNodeIds then (none, { t with errno := EINVAL })
  else (some (current.policy, fill bmp current.nodes), t)

end Kernel

/-- `numa_available`, as a condition. -/
def numaAvailable (k : Kernel) : Bool := k.available

def numaError (place : String) (t : Task g) : Task g := { t with errors := t.errors ++ [place] }

section

variable (k : Kernel)

def setpol (policy : Nat) (bmp : Bitmask) (t : Task g) : Task g :=
  let r := k.setMempolicy policy bmp.maskp bmp.size t
  if r.1 then r.2 else numaError "set_mempolicy" r.2

/-- What `oldpolicy` and the mask hold afterwards. -/
def getpol (oldpolicy : Nat) (bmp : Bitmask) (t : Task g) : (Nat × Bitmask) × Task g :=
  let r := k.getMempolicy t.policy bmp t
  match r.1 with
  | some q => (q, r.2)
  | none => ((oldpolicy, bmp), numaError "get_mempolicy" r.2)

/-- `none` is the null pointer. -/
def dombind (mem size pol : Nat) (bmp : Option Bitmask) (t : Task g) : Int × Task g :=
  let r := k.mbind mem size pol (bmp.map Bitmask.maskp) (bmp.elim 0 Bitmask.size) t.mbindFlags t
  if r.1 then (0, r.2) else (-1, numaError "mbind" r.2)

def dombindOrFree (mem size pol : Nat) (bmp : Option Bitmask) (t : Task g) : Option Nat × Task g :=
  let r := dombind k mem size pol bmp t
  if r.1 < 0 ∧ r.2.failAllocOnError then (none, (k.ask (.munmap mem size) id r.2).2)
  else (some mem, r.2)

def numaGetMemsAllowed (t : Task g) : Bitmask × Task g :=
  let bmp := g.numaAllocateNodemask
  let r := k.getMempolicy ⟨mpolDefault, k.memsAllowed t.requests⟩ bmp t
  match r.1 with
  | some q => (q.2, r.2)
  | none => (bmp, numaError "get_mempolicy" r.2)

/-- The probe for `MPOL_PREFERRED_MANY`, made once: the mode is tried with the allowed nodes, and the old
policy set again. -/
def setPreferredMany (t : Task g) : Task g :=
  if t.hasPreferredMany.isSome then t
  else
    let oldErrno := t.errno
    let q := numaGetMemsAllowed k { t with hasPreferredMany := some false }
    let r := k.getMempolicy q.2.policy g.numaAllocateNodemask q.2
    match r.1 with
    | none => { r.2 with errno := oldErrno }
    | some (oldp, bmp) =>
        let s := k.setMempolicy mpolPreferredMany q.1.maskp q.1.size r.2
        if s.1 then
          { (k.setMempolicy oldp bmp.maskp (bmp.size + 1) { s.2 with hasPreferredMany := some true }).2 with
            errno := oldErrno }
        else { s.2 with errno := oldErrno }

def numaHasPreferredMany (t : Task g) : Bool × Task g :=
  let t := setPreferredMany k t
  (t.hasPreferredMany.getD true, t)

def numaSetBindPolicy (strict : Bool) (t : Task g) : Task g :=
  let t := setPreferredMany k t
  if strict then { t with bindPolicy := mpolBind }
  else if t.hasPreferredMany.getD true then { t with bindPolicy := mpolPreferredMany }
  else { t with bindPolicy := mpolPreferred }

/-! ### The policy of the task -/

def numaSetInterleaveMaskV2 (bmp : Bitmask) (t : Task g) : Task g :=
  if numaBitmaskEqual bmp g.numaNoNodesPtr then setpol k mpolDefault bmp t
  else setpol k mpolInterleave bmp t

def numaSetWeightedInterleaveMask (bmp : Bitmask) (t : Task g) : Task g :=
  if numaBitmaskEqual bmp g.numaNoNodesPtr then setpol k mpolDefault bmp t
  else setpol k mpolWeightedInterleave bmp t

def numaSetMembindV2 (bmp : Bitmask) (t : Task g) : Task g := setpol k mpolBind bmp t

/-- The policy `numa_set_membind_balancing` tries first. -/
def balancedBind : Nat := mpolBind ||| mpolFNumaBalancing

/-- Falls back to the call without the flag where the kernel does not know it. -/
def numaSetMembindBalancing (bmp : Bitmask) (t : Task g) : Task g :=
  let r := k.setMempolicy balancedBind bmp.maskp (bmp.size + 1) t
  if r.1 then r.2
  else if r.2.errno = EINVAL then numaSetMembindV2 k bmp { r.2 with errno := 0 }
  else numaError "set_mempolicy" r.2

/-- `__numa_set_preferred`. -/
def setPreferred (bmp : Bitmask) (t : Task g) : Task g :=
  let nodes := numaBitmaskWeight bmp
  let t := if 1 < nodes then numaError "libnuma.c" { t with errno := EINVAL } else t
  setpol k (if nodes ≠ 0 then mpolPreferred else mpolLocal) bmp t

/-- The argument is an `int`; as a bit number it is an `unsigned int`. -/
def numaSetPreferred (node : Int) (t : Task g) : Task g :=
  setPreferred k (numaBitmaskSetbit g.numaAllocateNodemask (BitVec.ofInt 32 node).toNat) t

def numaSetPreferredMany (bitmask : Bitmask) (t : Task g) : Task g :=
  let t := setPreferredMany k t
  if t.hasPreferredMany.getD true then setpol k mpolPreferredMany bitmask t
  else numaSetPreferred k (numaFindFirst bitmask) t

def numaSetLocalalloc (t : Task g) : Task g := setpol k mpolLocal g.numaNoNodesPtr t

def numaGetMembindV2 (t : Task g) : Bitmask × Task g :=
  let r := getpol k 0 g.numaAllocateNodemask t
  (if r.1.1 ≠ mpolBind then copyBitmaskToBitmask g.numaAllNodesPtr r.1.2 else r.1.2, r.2)

/-- `__numa_preferred`. -/
def preferred (t : Task g) : Bitmask × Task g :=
  let r := getpol k 0 (numaBitmaskClearall g.numaAllocateNodemask) t
  if r.1.1 ≠ mpolPreferred ∧ r.1.1 ≠ mpolPreferredMany ∧ r.1.1 ≠ mpolBind then (r.1.2, r.2)
  else if r.1.1 = mpolPreferred ∧ 1 < numaBitmaskWeight r.1.2 then
    (r.1.2, numaError "libnuma.c" { r.2 with errno := EINVAL })
  else (r.1.2, r.2)

def numaPreferredMany (t : Task g) : Bitmask × Task g := preferred k t

def numaPreferredErr (t : Task g) : Int × Task g :=
  let r := preferred k t
  (numaFindFirst r.1, r.2)

def numaPreferred (t : Task g) : Int × Task g :=
  let r := numaPreferredErr k t
  (if 0 ≤ r.1 then r.1 else 0, r.2)

/-! ### The policy of memory -/

/-- Strict mode of the next bindings of memory. -/
def numaSetStrict (flag : Bool) (t : Task g) : Task g :=
  { t with mbindFlags := if flag then t.mbindFlags ||| mpolMfStrict else t.mbindFlags &&& ~~~mpolMfStrict }

def numaInterleaveMemoryV2 (mem size : Nat) (bmp : Bitmask) (t : Task g) : Task g :=
  (dombind k mem size mpolInterleave (some bmp) t).2

def numaWeightedInterleaveMemory (mem size : Nat) (bmp : Bitmask) (t : Task g) : Task g :=
  (dombind k mem size mpolWeightedInterleave (some bmp) t).2

def numaTonodeMemory (mem size : Nat) (node : Int) (t : Task g) : Task g :=
  (dombind k mem size t.bindPolicy
    (some (numaBitmaskSetbit g.numaAllocateNodemask (BitVec.ofInt 32 node).toNat)) t).2

def numaTonodemaskMemoryV2 (mem size : Nat) (bmp : Bitmask) (t : Task g) : Task g :=
  (dombind k mem size t.bindPolicy (some bmp) t).2

def numaSetlocalMemory (mem size : Nat) (t : Task g) : Task g := (dombind k mem size mpolLocal none t).2

def numaAllocInterleavedSubsetV2 (size : Nat) (bmp : Bitmask) (t : Task g) : Option Nat × Task g :=
  let r := k.ask (.mmap size) id t
  if r.1 then dombindOrFree k (k.mapped r.2.requests) size mpolInterleave (some bmp) r.2 else (none, r.2)

/-! ### The CPUs of nodes -/

/-- `cpus->maskp[k] |= nodecpus->maskp[k]` over the words of `cpus`. -/
def addWords (cpus nodecpus : Bitmask) : Bitmask where
  size := cpus.size
  maskp := (List.range (cpuLongs cpus.size)).foldl
    (fun ws j => ws.set j (ws.getD j 0 ||| nodecpus.maskp.getD j 0)) cpus.maskp
  fits := by
    have hlen : ∀ (js : List Nat) (ws : List Word), (js.foldl
        (fun ws j => ws.set j (ws.getD j 0 ||| nodecpus.maskp.getD j 0)) ws).length = ws.length := by
      intro js
      induction js with
      | nil => exact fun ws => rfl
      | cons j js ih => exact fun ws => (ih _).trans List.length_set
    rw [hlen]
    exact cpus.fits

/-- The two masks of the loop and the task. -/
structure NodeCpusLoop (g : Globals) where
  cpus : Bitmask
  nodecpus : Bitmask
  task : Task g

/-- The part of the loop body for a node of the mask: its CPUs are added if it is allowed. -/
def addNodeCpus (allowed : Bitmask) (s : NodeCpusLoop g) (i : Nat) : NodeCpusLoop g :=
  if numaBitmaskIsbitset allowed i then
    let r := numaNodeToCpusV2 g.cpuConfig k.cpumap s.task.nodeCpus i s.nodecpus
    let task := { s.task with nodeCpus := r.2, errno := r.1.errno.getD s.task.errno }
    if r.1.ret < 0 then { s with nodecpus := r.1.buffer, task := task }
    else { cpus := addWords s.cpus r.1.buffer, nodecpus := r.1.buffer, task := task }
  else s

def nodeCpusLoop (allowed : Bitmask) (bmp : Bitmask) (t : Task g) : NodeCpusLoop g :=
  (List.range bmp.size).foldl
    (fun s i =>
      if bmp.maskp.getD (i / bitsperlong) 0 = 0 then s
      else if numaBitmaskIsbitset bmp i then addNodeCpus k allowed s i else s)
    { cpus := g.numaAllocateCpumask, nodecpus := g.numaAllocateCpumask, task := t }

/-- `numa_run_on_node_mask_v2` and `numa_run_on_node_mask_all`, which differ in the nodes they allow. -/
def runOnNodeMask (allowed : Bitmask) (bmp : Bitmask) (t : Task g) : Int × Task g :=
  let s := nodeCpusLoop k allowed bmp t
  let r := k.schedSetaffinity 0 (numaBitmaskNbytes s.cpus) s.cpus.maskp s.task
  if r.1 then (0, r.2) else (-1, numaError "numa_sched_setaffinity_v2_int() failed" r.2)

def numaRunOnNodeMaskV2 (bmp : Bitmask) (t : Task g) : Int × Task g := runOnNodeMask k g.numaAllNodesPtr bmp t

def numaRunOnNodeMaskAll (bmp : Bitmask) (t : Task g) : Int × Task g :=
  runOnNodeMask k g.numaPossibleNodesPtr bmp t

def numaBindV2 (bmp : Bitmask) (t : Task g) : Task g := numaSetMembindV2 k bmp (numaRunOnNodeMaskV2 k bmp t).2

end

end Numactl
