import Numactl.Policy

/-! The shared memory regions of numactl (`shm.c`): an attached region, and `verify_shm`, which compares
the policy of its pages with the one recorded. What attaching a region involves is not modelled. -/

namespace Numactl

/-- An attached region: `shmptr`, `shmlen` and `shm_pagesize`, as `check_region` lets them pass. -/
structure Region where
  shmptr : Nat
  shmlen : Nat
  pagesize : Nat
  len_pos : 0 < shmlen
  pagesize_pos : 0 < pagesize
  pagesize_dvd : pagesize ∣ shmlen

/-- What `verify_shm` prints about the page at an address. -/
inductive VerifyReport where
  | wrongPolicy (page policy expected : Nat)
  | mismatchedMask (page : Nat) (expected real : Bitmask)
  | interleaveOutOfRange (page : Nat) (node : Int)
  | wrongInterleaveNode (page : Nat) (expected node : Int)
  | unexpectedNode (page : Nat) (node : Int) (expected : Bitmask)

/-- The `while` loop of `interleave_next`; `none` where it does not end within the fuel. -/
def interleaveNextLoop (numaNumNodes : Nat) (mask : Bitmask) : Nat → Nat → Option Nat
  | 0, _ => none
  | fuel + 1, cur =>
      if numaBitmaskIsbitset mask cur then some cur
      else interleaveNextLoop numaNumNodes mask fuel ((cur + 1) % numaNumNodes)

/-- After `numa_num_possible_nodes()` steps the loop has seen all numbers it ever sees. The argument is
unsigned. -/
def interleaveNext (g : Globals) (cur : Int) (mask : Bitmask) : Option Nat :=
  interleaveNextLoop g.nodemaskSz mask (g.nodemaskSz + 2) ((BitVec.ofInt 32 cur + 1).toNat)

/-- The `switch` over the policy, for a page on a node: what is printed, and the next `ilnode` unless the
function stops here. -/
def verifyNode (g : Globals) (policy : Nat) (page : Nat) (node ilnode : Int) (nodes2 : Bitmask) :
    List VerifyReport × Option Int :=
  if policy = mpolInterleave then
    let range := if node < 0 ∨ ¬numaBitmaskIsbitset nodes2 node.toNat then
      [.interleaveOutOfRange page node] else []
    if node ≠ ilnode then (range ++ [.wrongInterleaveNode page ilnode node], none)
    else (range, (interleaveNext g ilnode nodes2).map Int.ofNat)
  else if policy = mpolPreferredMany ∨ policy = mpolPreferred ∨ policy = mpolBind then
    (if ¬numaBitmaskIsbitset nodes2 (BitVec.ofInt 32 node).toNat then
      [.unexpectedNode page node nodes2] else [], some ilnode)
  else ([], some ilnode)

variable {g : Globals}

/-- The loop over the pages. `none` where `get_mempolicy` fails and the program exits. -/
def verifyPages (k : Kernel) (policy : Nat) (nodes : Bitmask) (t : Task g) (pagesize : Nat) :
    Nat → Nat → Int → Option (List VerifyReport)
  | 0, _, _ => some []
  | fuel + 1, p, ilnode =>
      match (k.getMempolicy (t.pages p) g.numaAllocateNodemask t).1 with
      | none => none
      | some (pol2, nodes2) =>
          if pol2 ≠ policy then some [.wrongPolicy p pol2 policy]
          else
            let mismatch :=
              if nodes2.maskp.take (longsperbits nodes.size) ≠ nodes.maskp.take (longsperbits nodes.size) then
                [.mismatchedMask p nodes nodes2] else []
            let r := verifyNode g policy p (k.nodeAt p) ilnode nodes2
            match r.2 with
            | none => some (mismatch ++ r.1)
            | some ilnode =>
                (verifyPages k policy nodes t pagesize fuel (p + pagesize) ilnode).map (mismatch ++ r.1 ++ ·)

/-- Where `interleave_next` does not return, what has been printed until then. -/
def verifyShm (k : Kernel) (region : Region) (policy : Nat) (nodes : Bitmask) (t : Task g) :
    Option (List VerifyReport) :=
  verifyPages k policy nodes t region.pagesize (region.shmlen / region.pagesize) region.shmptr
    (k.nodeAt region.shmptr)

end Numactl
