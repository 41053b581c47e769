import Numactl.Requests

/-! What the calls that set policies leave alone. A property of a task that the system calls below keep, and that
does not depend on what the library notes of them, is kept by every such call of the library. -/

namespace Numactl

variable {g : Globals} {k : Kernel}

/-! ### The policy of the task -/

/-- A property of a task that `set_mempolicy` keeps, and that does not depend on what the library notes. -/
structure SettersClosed (k : Kernel) (P : Task g → Prop) : Prop where
  setMempolicy : ∀ {policy words n} {t : Task g}, P t → P (k.setMempolicy policy words n t).2
  noted : ∀ {t : Task g} (e : Errno) (many : Option Bool) (pol : Nat) (flags : BitVec 32) (errors : List String),
    P t → P { t with errno := e, hasPreferredMany := many, bindPolicy := pol, mbindFlags := flags, errors := errors }

namespace SettersClosed

variable {P : Task g → Prop} (hP : SettersClosed k P) {t : Task g}

include hP

theorem setErrno (e : Errno) (ht : P t) : P { t with errno := e } := hP.noted e _ _ _ _ ht

theorem numaError (place : String) (ht : P t) : P (numaError place t) := hP.noted _ _ _ _ _ ht

theorem setpol (policy : Nat) (bmp : Bitmask) (ht : P t) : P (setpol k policy bmp t) := by
  have hset : P (k.setMempolicy policy bmp.maskp bmp.size t).2 := hP.setMempolicy ht
  unfold Numactl.setpol
  dsimp only
  split
  · exact hset
  · exact hP.numaError _ hset

/-- Reading a policy fails or changes nothing. -/
theorem getMempolicy (current : MemPolicy) (bmp : Bitmask) (ht : P t) : P (k.getMempolicy current bmp t).2 := by
  unfold Kernel.getMempolicy
  split
  · exact hP.setErrno _ ht
  · exact ht

theorem numaGetMemsAllowed (ht : P t) : P (numaGetMemsAllowed k t).2 := by
  have hget := hP.getMempolicy ⟨mpolDefault, k.memsAllowed t.requests⟩ g.numaAllocateNodemask ht
  unfold Numactl.numaGetMemsAllowed
  dsimp only
  split
  · exact hget
  · exact hP.numaError _ hget

theorem setPreferredMany (ht : P t) : P (setPreferredMany k t) := by
  unfold Numactl.setPreferredMany
  split
  · exact ht
  · dsimp only
    have hallowed : P (Numactl.numaGetMemsAllowed k { t with hasPreferredMany := some false }).2 :=
      hP.numaGetMemsAllowed (hP.noted _ (some false) _ _ _ ht)
    have hread := hP.getMempolicy
      (Numactl.numaGetMemsAllowed k { t with hasPreferredMany := some false }).2.policy g.numaAllocateNodemask hallowed
    split
    · exact hP.setErrno _ hread
    · split
      · exact hP.setErrno _ (hP.setMempolicy (hP.noted _ (some true) _ _ _ (hP.setMempolicy hread)))
      · exact hP.setErrno _ (hP.setMempolicy hread)

theorem numaSetBindPolicy (strict : Bool) (ht : P t) : P (numaSetBindPolicy k strict t) := by
  have hprobe := hP.setPreferredMany ht
  unfold Numactl.numaSetBindPolicy
  dsimp only
  split
  · exact hP.noted _ _ mpolBind _ _ hprobe
  · split
    · exact hP.noted _ _ mpolPreferredMany _ _ hprobe
    · exact hP.noted _ _ mpolPreferred _ _ hprobe

theorem numaSetPreferred (node : Int) (ht : P t) : P (numaSetPreferred k node t) := by
  rw [numaSetPreferred_eq]
  exact hP.setpol _ _ ht

theorem numaSetPreferredMany (bmp : Bitmask) (ht : P t) : P (numaSetPreferredMany k bmp t) := by
  have hprobe := hP.setPreferredMany ht
  unfold Numactl.numaSetPreferredMany
  dsimp only
  split
  · exact hP.setpol _ _ hprobe
  · exact hP.numaSetPreferred _ hprobe

theorem numaSetMembindBalancing (bmp : Bitmask) (ht : P t) : P (numaSetMembindBalancing k bmp t) := by
  have hset : P (k.setMempolicy balancedBind bmp.maskp (bmp.size + 1) t).2 := hP.setMempolicy ht
  unfold Numactl.numaSetMembindBalancing
  dsimp only
  split
  · exact hset
  · split
    · exact hP.setpol _ _ (hP.setErrno _ hset)
    · exact hP.numaError _ hset

/-- The setters of the task's policy keep the property. -/
theorem run (c : PolicyCall) (ht : P t) : P (c.run k t) := by
  cases c with
  | membind bmp => exact hP.setpol _ _ ht
  | membindBalancing bmp => exact hP.numaSetMembindBalancing bmp ht
  | interleaveMask bmp =>
      show P (numaSetInterleaveMaskV2 k bmp t)
      unfold numaSetInterleaveMaskV2
      split
      · exact hP.setpol _ _ ht
      · exact hP.setpol _ _ ht
  | weightedInterleaveMask bmp =>
      show P (numaSetWeightedInterleaveMask k bmp t)
      unfold numaSetWeightedInterleaveMask
      split
      · exact hP.setpol _ _ ht
      · exact hP.setpol _ _ ht
  | preferred node => exact hP.numaSetPreferred node ht
  | preferredMany bmp => exact hP.numaSetPreferredMany bmp ht
  | localalloc => exact hP.setpol _ _ ht

end SettersClosed

/-! ### The policy of memory -/

/-- The same of `mbind` as well. -/
structure PolicyClosed (k : Kernel) (P : Task g → Prop) : Prop extends SettersClosed k P where
  mbind : ∀ {start len policy words n flags} {t : Task g}, P t → P (k.mbind start len policy words n flags t).2

theorem PolicyClosed.dombind {P : Task g → Prop} (hP : PolicyClosed k P) {t : Task g} (mem size pol : Nat)
    (bmp : Option Bitmask) (ht : P t) : P (dombind k mem size pol bmp t).2 := by
  have hbind : P (k.mbind mem size pol (bmp.map Bitmask.maskp) (bmp.elim 0 Bitmask.size) t.mbindFlags t).2 := hP.mbind ht
  unfold Numactl.dombind
  dsimp only
  split
  · exact hbind
  · exact hP.numaError _ hbind

end Numactl
