import Numactl.Shm

/-! The option loop of `numactl.c`. A state of `main` goes through the options one by one; an option may
stop the program, and then says how and in which state. Attaching a region is a parameter, what the
commands print is left out, and so are the options' effects after the loop. -/

namespace Numactl

open CString (strtoul)

/-- What the options set for the attaching of a region. -/
structure ShmArgs where
  shmlen : Nat
  shmoffset : Nat
  shmmode : Nat
  shmid : Nat
  huge : Bool

/-- The system around numactl: the kernel, the devices, and what attaching a region by `--shm` or `--file`
gives, `none` where it exits. -/
structure Host where
  kernel : Kernel
  devices : Devices
  attachSysvshm : List Char → ShmArgs → Option Region
  attachShared : List Char → ShmArgs → Option Region

/-- The variables of `main` and its file, with the task they act on. `none` is the value -1 of
`set_policy`, and `region` is there when `shmfd` is not negative. -/
structure Main (g : Globals) where
  task : Task g
  setPolicy : Option Nat
  region : Option Region
  shmArgs : ShmArgs
  shmattached : Bool
  shmoption : Option String
  didNodeCpuParse : Bool
  didCpubind : Bool
  didStrict : Bool
  doShm : Bool
  doDump : Bool
  doHardware : Bool
  parseAll : Bool
  numaBalancing : Bool
  weightedInterleave : Bool
  cpuCompress : Bool
  mask : Option Bitmask
  last : Option (List Char)

/-- The options, with their arguments. -/
inductive Opt where
  | show
  | hardware
  | balancing
  | weightedInterleave (optarg : List Char)
  | interleave (optarg : List Char)
  | cpunodebind (optarg : List Char)
  | physcpubind (optarg : List Char)
  | membind (optarg : List Char)
  | preferredMany (optarg : List Char)
  | preferred (optarg : List Char)
  | localalloc
  | shm (optarg : List Char)
  | file (optarg : List Char)
  | length (optarg : List Char)
  | shmmode (optarg : List Char)
  | dump
  | dumpNodes
  | strict
  | shmid (optarg : List Char)
  | huge
  | offset (optarg : List Char)
  | touch
  | verify
  | all
  | cpuCompress
  | version
  | unknown

/-- How the program ends: the usage text, possibly after a message; a message of `complain`; the message
about a region beyond its length; an error number; the exit of an attach function; or success. -/
inductive Exit where
  | usage (message : Option String)
  | complain (message : String)
  | shmbeyond (shmoffset shmlen : Nat) (message : String)
  | perror (place : String)
  | attach
  | success
  deriving DecidableEq

/-- The program has ended, in the state it was in. -/
structure Stopped (g : Globals) where
  exit : Exit
  main : Main g

variable {g : Globals}

namespace Main

def stopIf (m : Main g) (condition : Prop) [Decidable condition] (exit : Exit) :
    Except (Stopped g) Unit :=
  if condition then .error ⟨exit, m⟩ else .ok ()

def checkerror (s : String) (m : Main g) : Except (Stopped g) (Main g) := do
  m.stopIf (m.task.errno ≠ 0) (.perror s)
  return m

def checknuma (k : Kernel) (m : Main g) : Except (Stopped g) Unit :=
  m.stopIf (¬numaAvailable k) (.complain "This system does not support NUMA policy")

def setpolicy (pol : Nat) (m : Main g) : Except (Stopped g) (Main g) := do
  m.stopIf (m.setPolicy ≠ none) (.usage (some "Conflicting policies"))
  return { m with setPolicy := some pol }

def nopolicy (m : Main g) : Except (Stopped g) Unit :=
  m.stopIf (m.setPolicy ≠ none) (.usage (some "specify policy after --shm/--file"))

def checkCpubind (flag : Bool) (m : Main g) : Except (Stopped g) Unit :=
  m.stopIf (flag = true) (.usage (some "cannot do --cpubind on shared memory\n"))

def noshm (opt : String) (m : Main g) : Except (Stopped g) (Main g) := do
  m.stopIf (m.shmattached = true) (.usage (some (opt ++ " must be before shared memory specification")))
  return { m with shmoption := some opt }

def dontshm (opt : String) (m : Main g) : Except (Stopped g) Unit :=
  match m.shmoption with
  | some shmoption => .error ⟨.usage (some (shmoption ++ " shm option is not allowed before " ++ opt)), m⟩
  | none => .ok ()

def needshm (opt : String) (m : Main g) : Except (Stopped g) Unit :=
  m.stopIf (m.shmattached = false) (.usage (some (opt ++ " must be after shared memory specification")))

def checkAllParse (m : Main g) : Except (Stopped g) Unit :=
  m.stopIf (m.didNodeCpuParse = true)
    (.usage (some "--all/-a option must be before all cpu/node specifications"))

def checkShmbeyond (message : String) (m : Main g) : Except (Stopped g) Unit :=
  m.stopIf (m.shmArgs.shmlen ≤ m.shmArgs.shmoffset)
    (.shmbeyond m.shmArgs.shmoffset m.shmArgs.shmlen message)

end Main

/-- `memsize`: a `long`, stored in an `unsigned long long`. -/
def memsize (s : List Char) : Nat :=
  let r := strtoul 0 s
  match r.2.head?.map Char.toUpper with
  | some 'G' => r.1 * 1024 ^ 3 % 2 ^ 64
  | some 'M' => r.1 * 1024 ^ 2 % 2 ^ 64
  | some 'K' => r.1 * 1024 % 2 ^ 64
  | _ => r.1

def same : List Char := "same".toList

/-- The parser of `numactl_parse_nodestring`, without `same`. -/
def nodeParser (g : Globals) (dv : Devices) (parseAll : Bool) : List Char → Option Bitmask :=
  if parseAll then numaParseNodestringAll g dv else numaParseNodestring g dv

/-- The text `numactl_parse_nodestring` parses, `none` where `same` has nothing before it. -/
def Main.listText (optarg : List Char) (m : Main g) : Option (List Char) :=
  if optarg = same then m.last else some optarg

/-- `numactl_parse_nodestring`, which keeps the list for `same`, and the assignment to `mask` with the check
of its callers. -/
def Main.parseMask (dv : Devices) (optarg : List Char) (m : Main g) : Except (Stopped g) (Bitmask × Main g) :=
  match m.listText optarg with
  | none => .error ⟨.usage (some "same needs previous node specification"), m⟩
  | some s =>
      match nodeParser g dv m.parseAll s with
      | none => .error ⟨.usage none, { m with last := some s, mask := none }⟩
      | some mask => .ok (mask, { m with last := some s, mask := some mask })

/-- A call of libnuma with `errno` set to 0 before it. -/
def Main.call (m : Main g) (f : Task g → Task g) : Main g := { m with task := f m.task }

section

variable (h : Host)

/-- `-i`, and `-w` after its flag is set. -/
def Main.interleave (optarg : List Char) (m : Main g) : Except (Stopped g) (Main g) := do
  m.checknuma h.kernel
  let (mask, m) ← m.parseMask h.devices optarg
  let m := { m with task := { m.task with errno := 0 }, didNodeCpuParse := true }
  let m ← m.setpolicy (if m.weightedInterleave then mpolWeightedInterleave else mpolInterleave)
  let m := m.call fun t =>
    match m.region with
    | some r => numaInterleaveMemoryV2 h.kernel r.shmptr r.shmlen mask t
    | none =>
        if m.weightedInterleave then numaSetWeightedInterleaveMask h.kernel mask t
        else numaSetInterleaveMaskV2 h.kernel mask t
  m.checkerror "setting interleave mask"

/-- `-N` and `-c`. -/
def Main.cpunodebind (optarg : List Char) (m : Main g) : Except (Stopped g) (Main g) := do
  m.dontshm "-c/--cpubind/--cpunodebind"
  m.checknuma h.kernel
  let (mask, m) ← m.parseMask h.devices optarg
  let m := { m with task := { m.task with errno := 0 } }
  m.checkCpubind m.doShm
  let m := { m with didCpubind := true, didNodeCpuParse := true }
  let m := m.call fun t => (numaRunOnNodeMaskAll h.kernel mask t).2
  m.checkerror "sched_setaffinity"

def Main.physcpubind (optarg : List Char) (m : Main g) : Except (Stopped g) (Main g) := do
  m.dontshm "-C/--physcpubind"
  match if m.parseAll then numaParseCpustringAll g optarg else numaParseCpustring g optarg with
  | none => .error ⟨.usage none, m⟩
  | some cpubuf =>
      let m := { m with task := { m.task with errno := 0 } }
      m.checkCpubind m.doShm
      let m := { m with didCpubind := true, didNodeCpuParse := true }
      let m := m.call fun t => (h.kernel.schedSetaffinity 0 (numaBitmaskNbytes cpubuf) cpubuf.maskp t).2
      m.checkerror "sched_setaffinity"

def Main.membind (optarg : List Char) (m : Main g) : Except (Stopped g) (Main g) := do
  m.checknuma h.kernel
  let m ← m.setpolicy mpolBind
  let (mask, m) ← m.parseMask h.devices optarg
  let m := { m with task := { m.task with errno := 0 }, didNodeCpuParse := true }
  let m := m.call (numaSetBindPolicy h.kernel true)
  let m := m.call fun t =>
    match m.region with
    | some r => numaTonodemaskMemoryV2 h.kernel r.shmptr r.shmlen mask t
    | none =>
        if m.numaBalancing then numaSetMembindBalancing h.kernel mask t else numaSetMembindV2 h.kernel mask t
  let m := m.call (numaSetBindPolicy h.kernel false)
  m.checkerror "setting membind"

/-- `-p` and, with `many`, `-P` after its check of the kernel. -/
def Main.preferred (many : Bool) (optarg : List Char) (m : Main g) : Except (Stopped g) (Main g) := do
  m.checknuma h.kernel
  let (mask, m) ← m.parseMask h.devices optarg
  let m := { m with task := { m.task with errno := 0 }, didNodeCpuParse := true }
  let m := m.call (numaSetBindPolicy h.kernel false)
  match m.region with
  | some r =>
      let m := m.call (numaTonodeMemory h.kernel r.shmptr r.shmlen (numaFindFirst mask))
      let has := numaHasPreferredMany h.kernel m.task
      let m ← { m with task := has.2 }.setpolicy (if has.1 then mpolPreferredMany else mpolPreferred)
      m.checkerror "setting preferred node"
  | none =>
      if many = false then
        m.stopIf (numaBitmaskWeight mask ≠ 1) (.usage none)
        let m ← m.setpolicy mpolPreferred
        (m.call (numaSetPreferred h.kernel (numaFindFirst mask))).checkerror "setting preferred node"
      else
        let m ← m.setpolicy mpolPreferredMany
        (m.call (numaSetPreferredMany h.kernel mask)).checkerror "setting preferred node"

def Main.preferredMany (optarg : List Char) (m : Main g) : Except (Stopped g) (Main g) := do
  let has := numaHasPreferredMany h.kernel m.task
  let m := { m with task := has.2 }
  m.stopIf (has.1 = false) (.complain "preferred-many requested without kernel support")
  m.preferred h true optarg

def Main.localalloc (m : Main g) : Except (Stopped g) (Main g) := do
  m.checknuma h.kernel
  let m ← m.setpolicy mpolLocal
  let m := { m with task := { m.task with errno := 0 } }
  let m := m.call fun t =>
    match m.region with
    | some r => numaSetlocalMemory h.kernel r.shmptr r.shmlen t
    | none => numaSetLocalalloc h.kernel t
  m.checkerror "local allocation"

/-- `-S` and `-f`, with the attach function of each. -/
def Main.attach (attached : ShmArgs → Option Region) (m : Main g) : Except (Stopped g) (Main g) := do
  m.checkCpubind m.didCpubind
  m.nopolicy
  match attached m.shmArgs with
  | none => .error ⟨.attach, m⟩
  | some r =>
      return { m with region := some r, shmArgs := { m.shmArgs with shmlen := r.shmlen }, shmattached := true }

/-- `-V`: exits unless a policy with a mask has been given, and if `verify_shm` does. -/
def Main.verify (m : Main g) : Except (Stopped g) (Main g) := do
  m.needshm "--verify"
  match m.setPolicy with
  | none => .error ⟨.complain "Need a policy first to verify", m⟩
  | some policy =>
      m.checkShmbeyond "--verify"
      match m.region, m.mask with
      | some r, some mask =>
          match verifyShm h.kernel r policy mask m.task with
          | none => .error ⟨.perror "get_mempolicy", m⟩
          | some _ => return m
      | _, _ => .error ⟨.complain "Need a mask to verify", m⟩

/-- A number that must be read to its end. -/
def Main.readNumber (base : Nat) (optarg : List Char) (m : Main g) : Except (Stopped g) Nat := do
  let r := strtoul base optarg
  m.stopIf (r.2 = optarg ∨ r.2 ≠ []) (.usage none)
  return r.1

/-- One option. -/
def Main.step (m : Main g) : Opt → Except (Stopped g) (Main g)
  | .show => .error ⟨.success, m⟩
  | .hardware => do
      m.nopolicy
      return { m with doHardware := true }
  | .balancing => do
      m.nopolicy
      return { m with numaBalancing := true }
  | .weightedInterleave optarg => { m with weightedInterleave := true }.interleave h optarg
  | .interleave optarg => m.interleave h optarg
  | .cpunodebind optarg => m.cpunodebind h optarg
  | .physcpubind optarg => m.physcpubind h optarg
  | .membind optarg => m.membind h optarg
  | .preferredMany optarg => m.preferredMany h optarg
  | .preferred optarg => m.preferred h false optarg
  | .localalloc => m.localalloc h
  | .shm optarg => m.attach (h.attachSysvshm optarg)
  | .file optarg => m.attach (h.attachShared optarg)
  | .length optarg => do
      let m ← m.noshm "--length"
      return { m with shmArgs := { m.shmArgs with shmlen := memsize optarg } }
  | .shmmode optarg => do
      let m ← m.noshm "--shmmode"
      let shmmode ← m.readNumber 8 optarg
      return { m with shmArgs := { m.shmArgs with shmmode := shmmode } }
  | .dump => do
      m.stopIf (m.region.isNone = true) (.complain "Cannot do --dump without shared memory.\n")
      return { m with doDump := true }
  | .dumpNodes => do
      m.stopIf (m.region.isNone = true) (.complain "Cannot do --dump-nodes without shared memory.\n")
      return { m with doDump := true }
  | .strict => .ok { m with didStrict := true, task := numaSetStrict true m.task }
  | .shmid optarg => do
      let shmid ← m.readNumber 0 optarg
      return { m with shmArgs := { m.shmArgs with shmid := shmid } }
  | .huge => do
      let m ← m.noshm "--huge"
      return { m with shmArgs := { m.shmArgs with huge := true } }
  | .offset optarg => do
      let m ← m.noshm "--offset"
      return { m with shmArgs := { m.shmArgs with shmoffset := memsize optarg } }
  | .touch => do
      m.needshm "--touch"
      m.checkShmbeyond "--touch"
      return m
  | .verify => m.verify h
  | .all => do
      m.checkAllParse
      return { m with parseAll := true }
  | .cpuCompress => .ok { m with cpuCompress := true }
  | .version => do
      m.nopolicy
      .error ⟨.success, m⟩
  | .unknown => .error ⟨.usage none, m⟩

/-- The loop over the options. -/
def Main.optionLoop (m : Main g) (opts : List Opt) : Except (Stopped g) (Main g) :=
  opts.foldlM (fun m opt => m.step h opt) m

end

/-- The state in which `main` starts. -/
def Main.initial (t : Task g) : Main g where
  task := t
  setPolicy := none
  region := none
  shmArgs := { shmlen := 0, shmoffset := 0, shmmode := 0o600, shmid := 0, huge := false }
  shmattached := false
  shmoption := none
  didNodeCpuParse := false
  didCpubind := false
  didStrict := false
  doShm := false
  doDump := false
  doHardware := false
  parseAll := false
  numaBalancing := false
  weightedInterleave := false
  cpuCompress := false
  mask := none
  last := none

end Numactl
