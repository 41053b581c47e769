import Numactl.OptionSteps

/-! Attaching a region (`attach_sysvshm`, `attach_shared` in `shm.c`). A function that ends the program says
how, and what the segments or the file are by then. What the system answers is a parameter: whether it
refuses a call, the addresses it maps, the page sizes. `unsigned long long` and `size_t` have 64 bits. -/

namespace Numactl

/-- The variables of `shm.c`. -/
structure ShmVars where
  shmptr : Word
  shmlen : BitVec 64
  shmmode : Nat
  shmid : Nat
  shmoffset : BitVec 64
  huge : Bool
  shmPagesize : Nat

/-- What the options have set, before anything is attached. -/
def ShmVars.ofArgs (a : ShmArgs) : ShmVars where
  shmptr := 0
  shmlen := BitVec.ofNat 64 a.shmlen
  shmmode := a.shmmode
  shmid := a.shmid
  shmoffset := BitVec.ofNat 64 a.shmoffset
  huge := a.huge
  shmPagesize := 0

/-- A message of `complain`, a message of `check_region`, or a system call that failed. -/
inductive AttachExit where
  | complain (message : String)
  | region (message : String)
  | system (message : String)
  deriving DecidableEq

/-- The request is rejected by the function itself. -/
def AttachExit.IsValidation : AttachExit → Prop
  | .system _ => False
  | _ => True

def sizeMax : BitVec 64 := BitVec.allOnes 64

variable {σ : Type}

def failIf (s : σ) (condition : Prop) [Decidable condition] (exit : AttachExit) :
    Except (AttachExit × σ) Unit :=
  if condition then .error (exit, s) else .ok ()

def checkRegion (opt : String) (s : σ) (v : ShmVars) : Except (AttachExit × σ) Unit := do
  failIf s (v.shmptr.toNat % v.shmPagesize ≠ 0 ∨ v.shmlen.toNat % v.shmPagesize ≠ 0)
    (.region "numactl: policy region not page aligned\n")
  failIf s (v.shmlen = 0) (.region ("numactl: policy region length not specified before " ++ opt ++ "\n"))

/-! ### SysV segments -/

/-- The sizes of the segments, by their keys. -/
abbrev Segments := Nat → Option (BitVec 64)

/-- The answers of the system: the key of the name before and after its key file has been created, whether
that file can be created, the error of creating a segment of a size, whether `shmctl` works, the address
of a segment, the page size, and the number on the line `Hugepagesize` of `/proc/meminfo`. -/
structure SysvSystem where
  ftok : Bool → Nat → Option Nat
  creat : Nat → Bool
  refusal : BitVec 64 → Option Errno
  shmctl : Bool
  shmat : Option Word
  getpagesize : Nat
  hugepagesize : Option Nat
  pagesize_pos : 0 < getpagesize

namespace SysvSystem

variable (sys : SysvSystem)

def hugePageSize : Nat :=
  if (sys.hugepagesize.getD 0) * 1024 ≠ 0 then (sys.hugepagesize.getD 0) * 1024 else sys.getpagesize

/-- `shmget` on a key, which stands for the segment's id. An existing segment is got when it has the size
asked for. -/
def shmget (key : Nat) (size : BitVec 64) (create : Bool) (segs : Segments) : Except Errno Nat × Segments :=
  match segs key with
  | some z => if size ≤ z then (.ok key, segs) else (.error EINVAL, segs)
  | none =>
      if create = false then (.error ENOENT, segs)
      else
        match sys.refusal size with
        | some e => (.error e, segs)
        | none => (.ok key, Function.update segs key (some size))

def sysvkey (name : String) (v : ShmVars) (segs : Segments) : Except (AttachExit × Segments) Nat :=
  match sys.ftok false v.shmid with
  | some key => .ok key
  | none => do
      failIf segs (sys.creat v.shmmode = false) (.system ("cannot create key for shm " ++ name ++ "\n"))
      match sys.ftok true v.shmid with
      | some key => .ok key
      | none => .error (.system ("cannot get key for newly created shm key file " ++ name), segs)

/-- The part of `attach_sysvshm` that sets `shmfd`; `none` is -1. -/
def openSegment (key : Nat) (v : ShmVars) (segs : Segments) :
    Except (AttachExit × Segments) (Option Nat × Segments) :=
  match sys.shmget key v.shmlen false segs with
  | (.ok shmfd, segs) => .ok (some shmfd, segs)
  | (.error e, segs) =>
      if e = ENOENT then do
        failIf segs (v.shmlen = 0) (.complain "need a --length to create a sysv shared memory segment")
        match sys.shmget key (v.shmlen + v.shmoffset) true segs with
        | (.ok shmfd, segs) => .ok (some shmfd, segs)
        | (.error _, segs) => .error (.system "cannot create shared memory segment", segs)
      else .ok (none, segs)

/-- The part that sets an omitted length. -/
def segmentLength (shmfd : Option Nat) (v : ShmVars) (segs : Segments) :
    Except (AttachExit × Segments) ShmVars :=
  if v.shmlen = 0 then
    match if sys.shmctl then shmfd.bind segs else none with
    | none => .error (.system "shmctl IPC_STAT", segs)
    | some segsz => do
        failIf segs (sizeMax - v.shmoffset < segsz) (.complain "shared memory offset/length is out of range")
        return { v with shmlen := segsz }
  else .ok v

def attachSysvshm (name opt : String) (v : ShmVars) (segs : Segments) :
    Except (AttachExit × Segments) (ShmVars × Segments) := do
  failIf segs (sizeMax < v.shmoffset ∨ sizeMax - v.shmoffset < v.shmlen)
    (.complain "shared memory offset/length is out of range")
  let key ← sys.sysvkey name v segs
  let (shmfd, segs) ← sys.openSegment key v segs
  let v ← sys.segmentLength shmfd v segs
  match shmfd.bind fun _ => sys.shmat with
  | none => .error (.system "shmat", segs)
  | some shmptr =>
      let v := { v with
        shmptr := shmptr + v.shmoffset
        shmPagesize := if v.huge then sys.hugePageSize else sys.getpagesize }
      checkRegion opt segs v
      return (v, segs)

end SysvSystem

/-! ### Files -/

/-- The answers of the system about a file, whose state is its size, `none` when it is absent: whether
opening it is refused, to create it or not; whether `fstat` fails; the sizes that cannot be had; the block
size; and the address of the mapping. -/
structure FileSystem where
  refused : Bool → Option Nat → Bool
  statFails : Bool
  truncateFails : Nat → Bool
  blksize : Nat
  mmap : Option Word
  blksize_pos : 0 < blksize

namespace FileSystem

variable (sys : FileSystem)

/-- `open` for reading and writing: whether it works, and the file. -/
def openFile (create : Bool) (file : Option Nat) : Bool × Option Nat :=
  if sys.refused create file then (false, file)
  else
    match file with
    | some size => (true, some size)
    | none => if create then (true, some 0) else (false, none)

def maxoff : BitVec 64 := (1 <<< 63) - 1

/-- The part of `attach_shared` that opens or creates the file. -/
def openOrCreate (name : String) (v : ShmVars) (file : Option Nat) :
    Except (AttachExit × Option Nat) (Option Nat) :=
  if (sys.openFile false file).1 then .ok file
  else do
    failIf file (v.shmlen = 0) (.complain "need a --length to create a shared file")
    failIf file ((sys.openFile true file).1 = false) (.system ("cannot create file " ++ name))
    return (sys.openFile true file).2

/-- The part that makes the file as large as the region needs. -/
def extend (v : ShmVars) (file : Option Nat) : Except (AttachExit × Option Nat) (Option Nat) :=
  if file.getD 0 < (v.shmlen + v.shmoffset).toNat then do
    failIf file (sys.truncateFails (v.shmlen + v.shmoffset).toNat = true) (.system "ftruncate")
    return some (v.shmlen + v.shmoffset).toNat
  else .ok file

def attachShared (name opt : String) (v : ShmVars) (file : Option Nat) :
    Except (AttachExit × Option Nat) (ShmVars × Option Nat) := do
  failIf file (sizeMax < v.shmlen ∨ maxoff < v.shmoffset ∨ maxoff - v.shmoffset < v.shmlen)
    (.complain "shared file offset/length is out of range")
  let file ← sys.openOrCreate name v file
  failIf file (sys.statFails = true) (.system "shm stat")
  let file ← sys.extend v file
  let v := { v with shmPagesize := sys.blksize }
  checkRegion opt file v
  match sys.mmap with
  | none => .error (.system "shm mmap", file)
  | some shmptr => return ({ v with shmptr := shmptr }, file)

end FileSystem

/-! ### What a region that was attached is like -/

@[simp] theorem failIf_eq_ok {s : σ} {condition : Prop} [Decidable condition] {exit : AttachExit} {u : Unit} :
    failIf s condition exit = .ok u ↔ ¬condition := by
  unfold failIf
  split
  · next h => exact iff_of_false (fun hok => by cases hok) (not_not_intro h)
  · next h => exact iff_of_true rfl h

theorem failIf_eq_error {s t : σ} {condition : Prop} [Decidable condition] {exit e : AttachExit} :
    failIf s condition exit = .error (e, t) ↔ condition ∧ exit = e ∧ s = t := by
  unfold failIf
  split
  · next h => simp [h]
  · next h => simp [h]

theorem checkRegion_eq_ok {opt : String} {s : σ} {v : ShmVars} {u : Unit} :
    checkRegion opt s v = .ok u ↔
      v.shmPagesize ∣ v.shmptr.toNat ∧ v.shmPagesize ∣ v.shmlen.toNat ∧ v.shmlen ≠ 0 := by
  unfold checkRegion
  simp only [Runs.bind_eq_ok, failIf_eq_ok, not_or, not_not, exists_const]
  rw [Nat.dvd_iff_mod_eq_zero, Nat.dvd_iff_mod_eq_zero, and_assoc]

/-- Only the region's own checks end `check_region`, with everything as it was. -/
theorem checkRegion_eq_error {opt : String} {s t : σ} {v : ShmVars} {e : AttachExit}
    (h : checkRegion opt s v = .error (e, t)) : (∃ message, e = .region message) ∧ s = t := by
  unfold checkRegion at h
  rw [Runs.bind_eq_error] at h
  rcases h with h | ⟨-, -, h⟩
  · obtain ⟨-, rfl, rfl⟩ := failIf_eq_error.mp h
    exact ⟨⟨_, rfl⟩, rfl⟩
  · obtain ⟨-, rfl, rfl⟩ := failIf_eq_error.mp h
    exact ⟨⟨_, rfl⟩, rfl⟩

/-- The region in the variables of `shm.c`, if there is one. -/
def ShmVars.region (v : ShmVars) : Option Region :=
  if h : 0 < v.shmlen.toNat ∧ 0 < v.shmPagesize ∧ v.shmPagesize ∣ v.shmlen.toNat then
    some {
      shmptr := v.shmptr.toNat
      shmlen := v.shmlen.toNat
      pagesize := v.shmPagesize
      len_pos := h.1
      pagesize_pos := h.2.1
      pagesize_dvd := h.2.2 }
  else none

theorem isSome_region_of_checkRegion {opt : String} {s : σ} {v : ShmVars} {u : Unit}
    (hpos : 0 < v.shmPagesize) (h : checkRegion opt s v = .ok u) : v.region.isSome = true := by
  obtain ⟨-, hlen, hne⟩ := checkRegion_eq_ok.mp h
  have hlenpos : 0 < v.shmlen.toNat := Nat.pos_of_ne_zero fun hzero => hne (BitVec.eq_of_toNat_eq hzero)
  rw [ShmVars.region, dif_pos ⟨hlenpos, hpos, hlen⟩]
  rfl

/-- What an attach function gives the program. -/
def attached (r : Except (AttachExit × σ) (ShmVars × σ)) : Option Region :=
  match r with
  | .error _ => none
  | .ok (v, _) => v.region

namespace SysvSystem

variable {sys : SysvSystem} {name opt : String} {v v' : ShmVars} {segs segs' : Segments}

theorem hugePageSize_pos (sys : SysvSystem) : 0 < sys.hugePageSize := by
  unfold hugePageSize
  split
  · next h => exact Nat.pos_of_ne_zero h
  · exact sys.pagesize_pos

/-- What a normal return says: the range check has passed, the key has a segment, the length is the one
given or the segment's, and the region is aligned. -/
theorem attachSysvshm_ok (h : sys.attachSysvshm name opt v segs = .ok (v', segs')) :
    ∃ key id shmptr, sys.sysvkey name v segs = .ok key ∧ sys.openSegment key v segs = .ok (some id, segs') ∧
      ¬(sizeMax < v.shmoffset ∨ sizeMax - v.shmoffset < v.shmlen) ∧
      (v.shmlen = 0 → segs' id = some v'.shmlen ∧ ¬sizeMax - v.shmoffset < v'.shmlen) ∧
      (v.shmlen ≠ 0 → v'.shmlen = v.shmlen) ∧ sys.shmat = some shmptr ∧ v'.shmptr = shmptr + v.shmoffset ∧
      v'.shmoffset = v.shmoffset ∧ 0 < v'.shmPagesize ∧ checkRegion opt segs' v' = .ok () := by
  unfold attachSysvshm at h
  simp only [Runs.bind_eq_ok, failIf_eq_ok] at h
  obtain ⟨-, hrange, key, hkey, ⟨fd, segs1⟩, hopen, w, hlen, h⟩ := h
  dsimp only at hlen h
  cases hat : (fd.bind fun _ => sys.shmat) with
  | none =>
      rw [hat] at h
      cases h
  | some shmptr =>
      obtain ⟨id, rfl, hshmat⟩ := Option.bind_eq_some_iff.mp hat
      rw [hat] at h
      simp only [Runs.bind_eq_ok, Runs.pure_eq_ok, Prod.mk.injEq] at h
      obtain ⟨u, hcheck, rfl, rfl⟩ := h
      have hw : (v.shmlen = 0 → segs1 id = some w.shmlen ∧ ¬sizeMax - v.shmoffset < w.shmlen) ∧
          (v.shmlen ≠ 0 → w.shmlen = v.shmlen) ∧ w.shmoffset = v.shmoffset := by
        unfold segmentLength at hlen
        by_cases hzero : v.shmlen = 0
        · rw [if_pos hzero] at hlen
          split at hlen
          · cases hlen
          · next segsz hsz =>
            simp only [Runs.bind_eq_ok, failIf_eq_ok, Runs.pure_eq_ok] at hlen
            obtain ⟨-, hbound, rfl⟩ := hlen
            refine ⟨fun _ => ⟨?_, hbound⟩, fun hne => absurd hzero hne, rfl⟩
            split at hsz
            · exact hsz
            · cases hsz
        · rw [if_neg hzero] at hlen
          obtain rfl := Except.ok.inj hlen
          exact ⟨fun hz => absurd hz hzero, fun _ => rfl, rfl⟩
      have hpos : 0 < if w.huge then sys.hugePageSize else sys.getpagesize := by
        split
        · exact sys.hugePageSize_pos
        · exact sys.pagesize_pos
      refine ⟨key, id, shmptr, hkey, hopen, hrange, hw.1, hw.2.1, hshmat, ?_, hw.2.2, hpos, hcheck⟩
      exact congrArg (shmptr + ·) hw.2.2

/-- An existing segment is taken as it is, and only if it has the length asked for. -/
theorem openSegment_existing {key id : Nat} {z : BitVec 64} (hseg : segs key = some z)
    (h : sys.openSegment key v segs = .ok (some id, segs')) : id = key ∧ segs' = segs ∧ v.shmlen ≤ z := by
  have hget : sys.shmget key v.shmlen false segs =
      if v.shmlen ≤ z then (.ok key, segs) else (.error EINVAL, segs) := by
    rw [shmget, hseg]
  unfold openSegment at h
  rw [hget] at h
  by_cases hle : v.shmlen ≤ z
  · rw [if_pos hle] at h
    simp only [Except.ok.injEq, Prod.mk.injEq, Option.some.injEq] at h
    exact ⟨h.1.symm, h.2.symm, hle⟩
  · rw [if_neg hle] at h
    simp [EINVAL, ENOENT] at h

/-- The region asked for with the variables `v`, and attached with `v'`, lies inside a segment of size `z`;
without a length it is what remains of the segment after the offset. -/
def RegionInside (v v' : ShmVars) (z : BitVec 64) : Prop :=
  v'.shmoffset.toNat + v'.shmlen.toNat ≤ z.toNat ∧
    (v.shmlen = 0 → v'.shmoffset.toNat + v'.shmlen.toNat = z.toNat)

/-- A region of an existing segment lies inside it exactly if it has no offset, or a length was given that
fits behind the offset. -/
theorem regionInside_iff (h : sys.attachSysvshm name opt v segs = .ok (v', segs')) {key : Nat} {z : BitVec 64}
    (hkey : sys.sysvkey name v segs = .ok key) (hseg : segs key = some z) :
    RegionInside v v' z ↔
      v.shmoffset = 0 ∨ v.shmlen ≠ 0 ∧ v.shmoffset.toNat + v.shmlen.toNat ≤ z.toNat := by
  obtain ⟨key', id, -, hkey', hopen, -, hzero, hgiven, -, -, hoffset, -, -⟩ := attachSysvshm_ok h
  rw [hkey] at hkey'
  obtain rfl := Except.ok.inj hkey'
  obtain ⟨rfl, rfl, hle⟩ := openSegment_existing hseg hopen
  rw [RegionInside, hoffset]
  by_cases hlen : v.shmlen = 0
  · -- the length is the segment's, whatever the offset
    have hz : v'.shmlen = z := Option.some.inj ((hzero hlen).1.symm.trans hseg)
    rw [hz]
    refine ⟨fun hin => Or.inl ?_, fun hcond => ?_⟩
    · apply BitVec.eq_of_toNat_eq
      have := hin.1
      change v.shmoffset.toNat = 0
      omega
    · have hoff := hcond.resolve_right fun hright => hright.1 hlen
      rw [hoff]
      simp
  · rw [hgiven hlen]
    refine ⟨fun hin => Or.inr ⟨hlen, hin.1⟩, fun hcond => ⟨?_, fun hz => absurd hz hlen⟩⟩
    rcases hcond with hoff | ⟨-, hfits⟩
    · rw [hoff]
      have hle' : v.shmlen.toNat ≤ z.toNat := hle
      simpa using hle'
    · exact hfits

/-- A machine with pages of 4096 bytes that refuses nothing. -/
def plain : SysvSystem where
  ftok _ _ := some 1
  creat _ := true
  refusal _ := none
  shmctl := true
  shmat := some 0x10000
  getpagesize := 4096
  hugepagesize := some 2048
  pagesize_pos := Nat.succ_pos 4095

/-- The variables for `--offset` and `--length`. -/
def offsetLength (shmoffset shmlen : Nat) : ShmVars :=
  ShmVars.ofArgs { shmlen := shmlen, shmoffset := shmoffset, shmmode := 0o600, shmid := 0, huge := false }

/-- Two pages after the first one, of a segment of four. -/
theorem regionInside_second_page :
    ∃ v', plain.attachSysvshm "key" "--shm" (offsetLength 4096 8192) (fun _ => some 16384) =
        .ok (v', fun _ => some 16384) ∧ RegionInside (offsetLength 4096 8192) v' 16384 := by
  have hok : plain.attachSysvshm "key" "--shm" (offsetLength 4096 8192) (fun _ => some 16384) =
      .ok (_, fun _ => some 16384) := rfl
  have hkey : plain.sysvkey "key" (offsetLength 4096 8192) (fun _ => some 16384) = .ok 1 := rfl
  exact ⟨_, hok, (regionInside_iff hok hkey rfl).mpr (Or.inr ⟨by decide, by decide⟩)⟩

/-- Without a length the region goes on past the end of the segment by the offset. -/
theorem not_regionInside_omitted_length :
    ∃ v', plain.attachSysvshm "key" "--shm" (offsetLength 4096 0) (fun _ => some 16384) =
        .ok (v', fun _ => some 16384) ∧ ¬RegionInside (offsetLength 4096 0) v' 16384 :=
  ⟨_, rfl, fun h => absurd h.1 (by decide)⟩

end SysvSystem

namespace FileSystem

variable {sys : FileSystem} {name opt : String} {v v' : ShmVars} {file file' : Option Nat} {e : AttachExit}

theorem not_isValidation_failIf {s t : σ} {condition : Prop} [Decidable condition] {message : String}
    (h : failIf s condition (.system message) = .error (e, t)) : ¬e.IsValidation := by
  obtain ⟨-, rfl, -⟩ := failIf_eq_error.mp h
  exact id

/-- The offset or the length is out of range. -/
def OutOfRange (v : ShmVars) : Prop :=
  sizeMax < v.shmlen ∨ maxoff < v.shmoffset ∨ maxoff - v.shmoffset < v.shmlen

/-- A rejection by the function's own checks: out of range, without the length of a file to be created, or
by `check_region` when the file has been opened and extended. -/
theorem attachShared_rejected (h : sys.attachShared name opt v file = .error (e, file')) (he : e.IsValidation) :
    OutOfRange v ∧ file' = file ∨
    ((sys.openFile false file).1 = false ∧ v.shmlen = 0) ∧ file' = file ∨
    ¬OutOfRange v ∧ ∃ opened, sys.openOrCreate name v file = .ok opened ∧ sys.extend v opened = .ok file' := by
  unfold attachShared at h
  rw [Runs.bind_eq_error] at h
  rcases h with h | ⟨u, hrange, h⟩
  · obtain ⟨hrange, -, rfl⟩ := failIf_eq_error.mp h
    exact Or.inl ⟨hrange, rfl⟩
  refine Or.inr ?_
  rw [Runs.bind_eq_error] at h
  rcases h with h | ⟨opened, hopen, h⟩
  · unfold openOrCreate at h
    split at h
    · cases h
    · next hfirst =>
      rw [Runs.bind_eq_error] at h
      rcases h with h | ⟨-, -, h⟩
      · obtain ⟨hzero, -, rfl⟩ := failIf_eq_error.mp h
        exact Or.inl ⟨⟨Bool.eq_false_iff.mpr hfirst, hzero⟩, rfl⟩
      · obtain ⟨-, -, h⟩ := Runs.exists_of_bind_eq_error (fun hfail => not_isValidation_failIf hfail he) h
        cases h
  have hinrange := failIf_eq_ok.mp hrange
  refine Or.inr ⟨hinrange, opened, hopen, ?_⟩
  obtain ⟨-, -, h⟩ := Runs.exists_of_bind_eq_error (fun hfail => not_isValidation_failIf hfail he) h
  rw [Runs.bind_eq_error] at h
  rcases h with h | ⟨extended, hextend, h⟩
  · unfold extend at h
    split at h
    · obtain ⟨-, -, h⟩ := Runs.exists_of_bind_eq_error (fun hfail => not_isValidation_failIf hfail he) h
      cases h
    · cases h
  dsimp only at h
  rw [Runs.bind_eq_error] at h
  rcases h with h | ⟨-, -, h⟩
  · obtain ⟨-, rfl⟩ := checkRegion_eq_error h
    exact hextend
  · cases hmmap : sys.mmap with
    | none =>
        rw [hmmap] at h
        simp only [Except.error.injEq, Prod.mk.injEq] at h
        rw [← h.1] at he
        exact absurd he id
    | some shmptr =>
        rw [hmmap] at h
        cases h

theorem openFile_fst {create : Bool} (h : (sys.openFile create file).1 = true) :
    (sys.openFile create file).2 = some (file.getD 0) ∧ (create = false → file = some (file.getD 0)) := by
  unfold openFile at h ⊢
  split
  · next hrefused =>
    rw [if_pos hrefused] at h
    cases h
  · next hrefused =>
    rw [if_neg hrefused] at h
    cases file with
    | some size => exact ⟨rfl, fun _ => rfl⟩
    | none =>
        cases create with
        | true => exact ⟨rfl, fun hfalse => by cases hfalse⟩
        | false => cases h

/-- An opened file has the size it had, a created one has size 0. -/
theorem openOrCreate_ok {opened : Option Nat} (h : sys.openOrCreate name v file = .ok opened) :
    opened = some (file.getD 0) ∧ ¬((sys.openFile false file).1 = false ∧ v.shmlen = 0) := by
  unfold openOrCreate at h
  split at h
  · next hfirst =>
    obtain rfl := Except.ok.inj h
    exact ⟨(openFile_fst hfirst).2 rfl, fun hnot => by rw [hfirst] at hnot; cases hnot.1⟩
  · simp only [Runs.bind_eq_ok, failIf_eq_ok, Runs.pure_eq_ok, Bool.not_eq_false] at h
    obtain ⟨-, hlen, -, hsecond, rfl⟩ := h
    exact ⟨(openFile_fst hsecond).1, fun hnot => hlen hnot.2⟩

theorem extend_ok (h : sys.extend v file = .ok file') :
    file' = if file.getD 0 < (v.shmlen + v.shmoffset).toNat then some (v.shmlen + v.shmoffset).toNat else file := by
  unfold extend at h
  split at h
  · next hlt =>
    simp only [Runs.bind_eq_ok, Runs.pure_eq_ok] at h
    obtain ⟨-, -, rfl⟩ := h
    rw [if_pos hlt]
  · next hlt =>
    rw [if_neg hlt]
    exact (Except.ok.inj h).symm

/-- Offset and length in range add up without wrapping. -/
theorem toNat_add_of_inRange (h : ¬OutOfRange v) :
    (v.shmlen + v.shmoffset).toNat = v.shmlen.toNat + v.shmoffset.toNat := by
  have hmax : maxoff.toNat = 2 ^ 63 - 1 := by decide
  obtain ⟨-, hoffset, hlen⟩ := not_or.mp h |>.imp_right not_or.mp
  have hoffset' : v.shmoffset.toNat ≤ 2 ^ 63 - 1 := hmax ▸ Nat.le_of_not_lt hoffset
  have hlen' : v.shmlen.toNat ≤ (maxoff - v.shmoffset).toNat := Nat.le_of_not_lt hlen
  rw [BitVec.toNat_sub_of_le (BitVec.le_def.mpr (hmax.symm ▸ hoffset')), hmax] at hlen'
  rw [BitVec.toNat_add]
  omega

/-- A request that the function rejects by its own checks leaves the file as it was exactly if it is out of
range, or the file cannot be opened and no length is given, or the file is large enough for it. -/
theorem rejected_file_kept_iff (h : sys.attachShared name opt v file = .error (e, file')) (he : e.IsValidation) :
    file' = file ↔ OutOfRange v ∨ ((sys.openFile false file).1 = false ∧ v.shmlen = 0) ∨
      ∃ size, file = some size ∧ v.shmlen.toNat + v.shmoffset.toNat ≤ size := by
  rcases attachShared_rejected h he with ⟨hrange, hkept⟩ | ⟨hlen, hkept⟩ | ⟨hrange, opened, hopen, hextend⟩
  · exact iff_of_true hkept (Or.inl hrange)
  · exact iff_of_true hkept (Or.inr (Or.inl hlen))
  · obtain ⟨rfl, hnot⟩ := openOrCreate_ok hopen
    have hfile := extend_ok hextend
    rw [toNat_add_of_inRange hrange, Option.getD_some] at hfile
    rw [or_iff_right hrange, or_iff_right hnot, hfile]
    cases file with
    | none => split <;> simp
    | some size =>
        simp only [Option.getD_some, Option.some.injEq, exists_eq_left']
        split
        · next hlt =>
          rw [Option.some.injEq]
          omega
        · next hle => simpa using hle

/-- A file system of blocks of 4096 bytes that refuses nothing. -/
def plain : FileSystem where
  refused _ _ := false
  statFails := false
  truncateFails _ := false
  blksize := 4096
  mmap := some 0x10000
  blksize_pos := Nat.succ_pos 4095

/-- A length of 100 bytes is refused, and the file was large enough for it. -/
theorem file_kept_unaligned_length :
    ∃ e file', plain.attachShared "file" "--file" (SysvSystem.offsetLength 0 100) (some 8192) = .error (e, file') ∧
      e.IsValidation ∧ file' = some 8192 := by
  have hrej : plain.attachShared "file" "--file" (SysvSystem.offsetLength 0 100) (some 8192) =
      .error (.region "numactl: policy region not page aligned\n", some 8192) := rfl
  have he : (AttachExit.region "numactl: policy region not page aligned\n").IsValidation := trivial
  exact ⟨_, _, hrej, he, (rejected_file_kept_iff hrej he).mpr (Or.inr (Or.inr ⟨8192, rfl, by decide⟩))⟩

/-- An absent file is created with the length of one byte, which is then refused. -/
theorem not_file_kept_unaligned_length :
    ∃ e file', plain.attachShared "file" "--file" (SysvSystem.offsetLength 0 1) none = .error (e, file') ∧
      e.IsValidation ∧ file' = some 1 ∧ file' ≠ none :=
  ⟨.region "numactl: policy region not page aligned\n", _, rfl, trivial, rfl, by simp⟩

end FileSystem

/-! ### The attach functions of the option loop -/

/-- A host that attaches as `shm.c` does, with the segments and the files given. -/
def attachingHost (k : Kernel) (dv : Devices) (sysv : SysvSystem) (segs : Segments)
    (fs : List Char → FileSystem) (files : List Char → Option Nat) : Host where
  kernel := k
  devices := dv
  attachSysvshm name a := attached (sysv.attachSysvshm (String.ofList name) "--shm" (.ofArgs a) segs)
  attachShared name a := attached ((fs name).attachShared (String.ofList name) "--file" (.ofArgs a) (files name))

section

variable {g : Globals} {m m' : Main g} {k : Kernel} {dv : Devices} {sysv : SysvSystem} {segs : Segments}
  {fs : List Char → FileSystem} {files : List Char → Option Nat} {optarg : List Char}

theorem attached_eq_some {r : Except (AttachExit × σ) (ShmVars × σ)} {region : Region} :
    attached r = some region ↔ ∃ v t, r = .ok (v, t) ∧ v.region = some region := by
  unfold attached
  split
  · simp
  · simp

/-- `--shm` is accepted when `attach_sysvshm` returns, and then the program has its region. -/
theorem attach_sysvshm_accepted
    (hok : m.attach ((attachingHost k dv sysv segs fs files).attachSysvshm optarg) = .ok m') :
    ∃ v segs', sysv.attachSysvshm (String.ofList optarg) "--shm" (.ofArgs m.shmArgs) segs = .ok (v, segs') ∧
      m'.region = v.region ∧ m'.shmArgs.shmlen = v.shmlen.toNat := by
  obtain ⟨-, r, hr, rfl⟩ := Main.attach_ok hok
  obtain ⟨v, segs', hattach, hregion⟩ := attached_eq_some.mp hr
  refine ⟨v, segs', hattach, hregion.symm, ?_⟩
  rw [ShmVars.region] at hregion
  split at hregion
  · obtain rfl := Option.some.inj hregion
    rfl
  · cases hregion

/-- Every region `attach_sysvshm` returns with is one the program can use. -/
theorem isSome_region_attachSysvshm {name opt : String} {v v' : ShmVars} {segs' : Segments}
    (h : sysv.attachSysvshm name opt v segs = .ok (v', segs')) : v'.region.isSome = true := by
  obtain ⟨-, -, -, -, -, -, -, -, -, -, -, hpos, hcheck⟩ := SysvSystem.attachSysvshm_ok h
  exact isSome_region_of_checkRegion hpos hcheck

end

end Numactl
