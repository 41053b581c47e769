import Numactl.Base.NumberList
import Numactl.Bitmask

/-! The node and CPU lists of the command line (`__numa_parse_nodestring`, `__numa_parse_cpustring` and
`get_nr` in `libnuma.c`, with `resolve_affinity` in `affinity.c` and `sysfs_node_read` in `sysfs.c` behind
a device item). The two parsers share their loop, which is one definition here, applied by each to its own
checks. Strings carry no terminating NUL, warnings are left out, and what sysfs and the network say about
a device is a parameter. -/

namespace Numactl

open CString (isspace isalpha isdigit strtoul strtol)

/-- What `numa_init` leaves in the globals: sizes, the highest node, the number of CPUs, the nodes with
memory, and the allowed nodes and CPUs. The words of the allowed nodes, read from a line with a digit for
four bits of their size, are clear past it. -/
structure Globals where
  nodemaskSz : Nat
  cpumaskSz : Nat
  maxconfigurednode : Nat
  numConfiguredCpus : Nat
  numprocnode : Nat
  numaMemnodePtr : Bitmask
  numaAllNodesPtr : Bitmask
  numaAllCpusPtr : Bitmask
  nodemask_lt : nodemaskSz < 2 ^ 31
  cpumask_lt : cpumaskSz < 2 ^ 31
  cpumask_pos : 0 < cpumaskSz
  maxnode_lt : maxconfigurednode < nodemaskSz
  memnode_size : numaMemnodePtr.size = nodemaskSz
  all_nodes_size : numaAllNodesPtr.size = nodemaskSz
  all_cpus_size : numaAllCpusPtr.size = cpumaskSz
  all_nodes_clear : ∀ i, nodemaskSz ≤ i → Words.bit numaAllNodesPtr.maskp i = false

namespace Globals

variable (g : Globals)

/-- Allocated with the size of a CPU mask, as the source does. -/
def numaPossibleNodesPtr : Bitmask :=
  (List.range (g.maxconfigurednode + 1)).foldl numaBitmaskSetbit (zeroBitmask g.cpumaskSz)

def numaPossibleCpusPtr : Bitmask :=
  (List.range g.numConfiguredCpus).foldl numaBitmaskSetbit (zeroBitmask g.cpumaskSz)

def numaAllocateNodemask : Bitmask := zeroBitmask g.nodemaskSz

def numaAllocateCpumask : Bitmask := zeroBitmask g.cpumaskSz

def numaNoNodesPtr : Bitmask := zeroBitmask g.nodemaskSz

/-- The number of nodes with memory, not the highest of them. -/
def numaNumConfiguredNodes : Nat :=
  (List.range (g.maxconfigurednode + 1)).countP fun i => numaBitmaskIsbitset g.numaMemnodePtr i

end Globals

/-! ### Devices -/

/-- What the system says about devices: the text of the `numa_node` file found for a device of a class or
for a PCI address, the network interface of a host and the block device of a file. -/
structure Devices where
  classNode : (cls dev : List Char) → Option (List Char)
  pciNode : List Char → Option (List Char)
  routeInterface : List Char → Option (List Char)
  blockDevice : List Char → Option (List Char)

/-- The loop of `sysfs_node_read` over the text of a `numa_node` file: what it returns, and the mask. -/
def sysfsNodeLoop (numprocnode : Nat) : Nat → List Char → Bitmask → Int × Bitmask
  | 0, _, mask => (-1, mask)
  | fuel + 1, m, mask =>
      let r := strtol 0 m
      let num := (BitVec.ofInt 32 r.1).toInt
      if r.2 = m then (-1, mask)
      else if num < 0 then (-2, mask)
      else if (numprocnode : Int) ≤ num then (-1, mask)
      else
        let mask := numaBitmaskSetbit mask num.toNat
        let rest := r.2.dropWhile fun c => isspace c || c = ','
        if rest.head?.any isdigit then sysfsNodeLoop numprocnode fuel rest mask else (0, mask)

/-- `none` stands for a file that cannot be read. -/
def sysfsNodeRead (g : Globals) (file : Option (List Char)) (mask : Bitmask) : Int × Bitmask :=
  match file with
  | none => (-1, mask)
  | some text => sysfsNodeLoop g.numprocnode (text.length + 1) text mask

/-- The result of a reading, every failure being turned into -1. -/
def nodeParse (r : Int × Bitmask) : Int × Bitmask := if r.1 < 0 then (-1, r.2) else (0, r.2)

def affinityClass (g : Globals) (dv : Devices) (mask : Bitmask) (cls dev : List Char) : Int × Bitmask :=
  let dev := dev.dropWhile isspace
  if dev.any fun c => c = '/' || c = '.' then (-1, mask)
  else nodeParse (sysfsNodeRead g (dv.classNode cls dev) mask)

def affinityFile (g : Globals) (dv : Devices) (mask : Bitmask) (file : List Char) : Int × Bitmask :=
  match dv.blockDevice file with
  | none => (-1, mask)
  | some name => affinityClass g dv mask "block".toList name

def affinityIp (g : Globals) (dv : Devices) (mask : Bitmask) (id : List Char) : Int × Bitmask :=
  match dv.routeInterface id with
  | none => (-1, mask)
  | some name => affinityClass g dv mask "net".toList name

def affinityPci (g : Globals) (dv : Devices) (mask : Bitmask) (id : List Char) : Int × Bitmask :=
  nodeParse (sysfsNodeRead g (dv.pciNode id) mask)

/-- The rows of the table `handlers`. -/
inductive Handler where
  | netdev
  | ip
  | file
  | block
  | pci
  deriving DecidableEq

def Handler.name : Handler → List Char
  | .netdev => "netdev:".toList
  | .ip => "ip:".toList
  | .file => "file:".toList
  | .block => "block:".toList
  | .pci => "pci:".toList

def Handler.handler (g : Globals) (dv : Devices) (mask : Bitmask) (desc : List Char) :
    Handler → Int × Bitmask
  | .netdev => affinityClass g dv mask "net".toList desc
  | .ip => affinityIp g dv mask desc
  | .file => affinityFile g dv mask desc
  | .block => affinityClass g dv mask "block".toList desc
  | .pci => affinityPci g dv mask desc

def handlers : List Handler := [.netdev, .ip, .file, .block, .pci]

def noIoAffinity : Int := -2

def resolveAffinity (g : Globals) (dv : Devices) (id : List Char) (mask : Bitmask) : Int × Bitmask :=
  match handlers.find? fun h => h.name.isPrefixOf id with
  | none => (noIoAffinity, mask)
  | some h => h.handler g dv mask (id.drop h.name.length)

/-! ### The list parsers -/

/-- The loop of `get_nr`: `nr` counts down at every set bit until it is negative. -/
def getNrLoop (bmp : Bitmask) : Nat → Nat → Int → Nat
  | 0, i, _ => i
  | fuel + 1, i, nr =>
      if 0 ≤ nr then getNrLoop bmp fuel (i + 1) (if numaBitmaskIsbitset bmp i then nr - 1 else nr) else i

/-- The number `get_nr` makes of what `strtoul` has read, which it holds in a `long`. The loop runs while
`i` is at most the size, and `i - 1` is returned as an `unsigned long`. -/
def translate (bmp : Bitmask) (relative : Bool) (v : Nat) : Nat :=
  if relative then
    (getNrLoop bmp (bmp.size + 1) 0 (BitVec.ofNat 64 v).toInt + (2 ^ 64 - 1)) % 2 ^ 64
  else v

/-- `none` where nothing was converted. -/
def getNr (s : List Char) (bmp : Bitmask) (relative : Bool) : Option (Nat × List Char) :=
  let r := strtoul 0 s
  if r.2 = s then none else some (translate bmp relative r.1, r.2)

/-- What the two parsers have of their own: the allowed numbers, whether numbers are relative to them,
the check of an argument, and the words an item may be. A word ends the list; it may fail. -/
structure ListArgs where
  allowed : Bitmask
  relative : Bool
  outOfRange : Nat → Bool
  word : List Char → Bitmask → Option (Option Bitmask)

/-- `while (arg <= arg2)`: sets the allowed numbers of the range. -/
def setRange (allowed : Bitmask) (arg arg2 : Nat) (mask : Bitmask) : Bitmask :=
  (List.range (arg2 + 1 - arg)).foldl
    (fun m k => if numaBitmaskIsbitset allowed (arg + k) then numaBitmaskSetbit m (arg + k) else m) mask

/-- The part of the loop body after the first argument. -/
def parseDash (A : ListArgs) (arg : Nat) (s : List Char) (mask : Bitmask) : Option (Bitmask × List Char) :=
  if s.head? = some '-' then
    match getNr s.tail A.allowed A.relative with
    | none => none
    | some (arg2, rest) =>
        if A.outOfRange arg2 then none else some (setRange A.allowed arg arg2 mask, rest)
  else some (mask, s)

/-- The loop body where the item is no word: the mask, and the text behind the item. -/
def parseItem (A : ListArgs) (s : List Char) (mask : Bitmask) : Option (Bitmask × List Char) :=
  match getNr s A.allowed A.relative with
  | none => none
  | some (arg, rest) =>
      if A.outOfRange arg then none else parseDash A arg rest (numaBitmaskSetbit mask arg)

/-- The loop over the items. It takes at least a character each time. -/
def parseItems (A : ListArgs) : Nat → List Char → Bitmask → Option Bitmask
  | 0, _, _ => none
  | fuel + 1, s, mask =>
      match A.word s mask with
      | some result => result
      | none =>
          match parseItem A s mask with
          | none => none
          | some (mask, []) => some mask
          | some (mask, c :: rest) => if c = ',' then parseItems A fuel rest mask else none

/-- `if (invert)`: every number below the count is flipped. -/
def invertMask (conf : Nat) (mask : Bitmask) : Bitmask :=
  (List.range conf).foldl
    (fun m i => if numaBitmaskIsbitset m i then numaBitmaskClearbit m i else numaBitmaskSetbit m i) mask

/-- The prefixes, the loop and the inversion, common to both parsers; `args` is given the relative
flag. -/
def parseString (args : Bool → ListArgs) (conf : Nat) (s : List Char) (mask : Bitmask) : Option Bitmask :=
  let invert := s.head? = some '!'
  let s := if invert then s.tail else s
  let relative := decide (s.head? = some '+')
  let s := if relative then s.tail else s
  (parseItems (args relative) (s.length + 1) s mask).map fun mask =>
    if invert then invertMask conf mask else mask

def all : List Char := "all".toList

def nodeArgs (g : Globals) (dv : Devices) (allowed : Bitmask) (relative : Bool) : ListArgs where
  allowed := allowed
  relative := relative
  outOfRange arg := decide (allowed.size ≤ arg) || !numaBitmaskIsbitset allowed arg
  word s mask :=
    if s.head?.any isalpha then
      if s = all then some (some (copyBitmaskToBitmask allowed mask))
      else
        let n := resolveAffinity g dv s mask
        if n.1 = noIoAffinity then none else if n.1 < 0 then some none else some (some n.2)
    else none

/-- `__numa_parse_nodestring`. -/
def parseNodestring (g : Globals) (dv : Devices) (s : List Char) (allowed : Bitmask) : Option Bitmask :=
  let mask := g.numaAllocateNodemask
  if s = [] then some (copyBitmaskToBitmask g.numaNoNodesPtr mask)
  else parseString (nodeArgs g dv allowed) g.numaNumConfiguredNodes s mask

def cpuArgs (g : Globals) (allowed : Bitmask) (relative : Bool) : ListArgs where
  allowed := allowed
  relative := relative
  outOfRange arg := decide (g.numConfiguredCpus ≤ arg)
  word s mask := if s = all then some (some (copyBitmaskToBitmask allowed mask)) else none

/-- `__numa_parse_cpustring`. -/
def parseCpustring (g : Globals) (s : List Char) (allowed : Bitmask) : Option Bitmask :=
  let mask := g.numaAllocateCpumask
  if s = [] then some mask
  else parseString (cpuArgs g allowed) g.numConfiguredCpus s mask

def numaParseNodestring (g : Globals) (dv : Devices) (s : List Char) : Option Bitmask :=
  parseNodestring g dv s g.numaAllNodesPtr

def numaParseNodestringAll (g : Globals) (dv : Devices) (s : List Char) : Option Bitmask :=
  parseNodestring g dv s g.numaPossibleNodesPtr

def numaParseCpustring (g : Globals) (s : List Char) : Option Bitmask :=
  parseCpustring g s g.numaAllCpusPtr

def numaParseCpustringAll (g : Globals) (s : List Char) : Option Bitmask :=
  parseCpustring g s g.numaPossibleCpusPtr

end Numactl
