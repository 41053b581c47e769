import Numactl.Base.Regions
import Numactl.PolicyFrame

/-! The memory an application allocates (`numa_alloc` and its variants, the functions that place memory, and
`numa_free` in `libnuma.c`). The memory itself and the size of its pages are the kernel's. An application keeps the
blocks it was handed and what it may conclude from the calls: over any run these are, in whole pages, the mapped
memory and its policies, so nothing is lost when an allocation fails half way, and no block is handed out twice.
`numa_realloc` is not modelled. -/

namespace Numactl

open Regions
open Runs (after Along)

variable {g : Globals}

/-! ### The functions -/

section

variable (k : Kernel)

/-- `numa_police_memory` writes back what it reads. -/
def numaAlloc (size : Nat) (t : Task g) : Option Nat × Task g :=
  let r := k.ask (.mmap size) id t
  if r.1 then (some (k.mapped r.2.requests), r.2) else (none, r.2)

/-- The allocators that bind the memory they map. -/
def allocBound (size pol : Nat) (bmp : Option Bitmask) (t : Task g) : Option Nat × Task g :=
  let r := k.ask (.mmap size) id t
  if r.1 then dombindOrFree k (k.mapped r.2.requests) size pol bmp r.2 else (none, r.2)

def numaAllocOnnode (size : Nat) (node : Int) (t : Task g) : Option Nat × Task g :=
  allocBound k size t.bindPolicy (some (numaBitmaskSetbit g.numaAllocateNodemask (BitVec.ofInt 32 node).toNat)) t

def numaAllocLocal (size : Nat) (t : Task g) : Option Nat × Task g := allocBound k size mpolLocal none t

def numaAllocInterleaved (size : Nat) (t : Task g) : Option Nat × Task g :=
  numaAllocInterleavedSubsetV2 k size g.numaAllNodesPtr t

def numaAllocWeightedInterleavedSubset (size : Nat) (bmp : Bitmask) (t : Task g) : Option Nat × Task g :=
  allocBound k size mpolWeightedInterleave (some bmp) t

def numaAllocWeightedInterleaved (size : Nat) (t : Task g) : Option Nat × Task g :=
  numaAllocWeightedInterleavedSubset k size g.numaAllNodesPtr t

def numaFree (mem size : Nat) (t : Task g) : Task g := (k.ask (.munmap mem size) id t).2

end

/-- The allocators. -/
inductive AllocCall where
  | alloc
  | onnode (node : Int)
  | «local»
  | interleavedSubset (bmp : Bitmask)
  | interleaved
  | weightedInterleavedSubset (bmp : Bitmask)
  | weightedInterleaved

namespace AllocCall

def run (k : Kernel) (size : Nat) (t : Task g) : AllocCall → Option Nat × Task g
  | alloc => numaAlloc k size t
  | onnode node => numaAllocOnnode k size node t
  | «local» => numaAllocLocal k size t
  | interleavedSubset bmp => numaAllocInterleavedSubsetV2 k size bmp t
  | interleaved => numaAllocInterleaved k size t
  | weightedInterleavedSubset bmp => numaAllocWeightedInterleavedSubset k size bmp t
  | weightedInterleaved => numaAllocWeightedInterleaved k size t

/-- The mode and the mask an allocator binds its memory with. -/
def binding (t : Task g) : AllocCall → Option (Nat × Option Bitmask)
  | alloc => none
  | onnode node => some (t.bindPolicy, some (numaBitmaskSetbit g.numaAllocateNodemask (BitVec.ofInt 32 node).toNat))
  | «local» => some (mpolLocal, none)
  | interleavedSubset bmp => some (mpolInterleave, some bmp)
  | interleaved => some (mpolInterleave, some g.numaAllNodesPtr)
  | weightedInterleavedSubset bmp => some (mpolWeightedInterleave, some bmp)
  | weightedInterleaved => some (mpolWeightedInterleave, some g.numaAllNodesPtr)

theorem run_eq (k : Kernel) (c : AllocCall) (size : Nat) (t : Task g) :
    c.run k size t = match c.binding t with
      | none => numaAlloc k size t
      | some (pol, bmp) => allocBound k size pol bmp t := by
  cases c <;> rfl

end AllocCall

/-- The functions that place memory there is. -/
inductive PlaceCall where
  | tonode (node : Int)
  | tonodemask (bmp : Bitmask)
  | interleave (bmp : Bitmask)
  | weightedInterleave (bmp : Bitmask)
  | setlocal

namespace PlaceCall

def run (k : Kernel) (mem size : Nat) (t : Task g) : PlaceCall → Task g
  | tonode node => numaTonodeMemory k mem size node t
  | tonodemask bmp => numaTonodemaskMemoryV2 k mem size bmp t
  | interleave bmp => numaInterleaveMemoryV2 k mem size bmp t
  | weightedInterleave bmp => numaWeightedInterleaveMemory k mem size bmp t
  | setlocal => numaSetlocalMemory k mem size t

def binding (t : Task g) : PlaceCall → Nat × Option Bitmask
  | tonode node => (t.bindPolicy, some (numaBitmaskSetbit g.numaAllocateNodemask (BitVec.ofInt 32 node).toNat))
  | tonodemask bmp => (t.bindPolicy, some bmp)
  | interleave bmp => (mpolInterleave, some bmp)
  | weightedInterleave bmp => (mpolWeightedInterleave, some bmp)
  | setlocal => (mpolLocal, none)

theorem run_eq (k : Kernel) (c : PlaceCall) (mem size : Nat) (t : Task g) :
    c.run k mem size t = (dombind k mem size (c.binding t).1 (c.binding t).2 t).2 := by
  cases c <;> rfl

end PlaceCall

/-! ### Memory -/

namespace Kernel

/-- The policy of memory that is bound with a mode and a mask: the mode and the nodes asked for. -/
def bound (k : Kernel) (b : Nat × Option Bitmask) : MemPolicy :=
  ⟨b.1, (b.2.map Bitmask.maskp).elim ∅ fun words => k.readNodes words (b.2.elim 0 Bitmask.size)⟩

/-- Memory that is not bound follows the policy of the task. -/
def unbound : MemPolicy := ⟨mpolDefault, ∅⟩

/-- What the manual pages of `mmap`, `mbind` and `munmap` say of a kernel with pages of a size. `space` is the memory
mapped for a task that has made some requests, each address with the policy it was bound with last. A request that is
refused changes nothing. A length of zero is not mapped, and other memory is mapped in whole pages from the start of
one on, where nothing was and not at the null pointer. Memory is bound and unmapped in whole pages, from the start of
one on. Pages that are mapped can be unmapped, as long as the task has not too many mappings. -/
structure MapsMemory (k : Kernel) (pageSize : Nat) (space : List Request → Space MemPolicy) : Prop where
  initially : space [] = fun _ => none
  refused : ∀ {reqs req e}, k.refusal (reqs ++ [req]) = some e → space (reqs ++ [req]) = space reqs
  setMempolicy : ∀ reqs policy nmask maxnode, space (reqs ++ [.setMempolicy policy nmask maxnode]) = space reqs
  mmap : ∀ {reqs length}, k.refusal (reqs ++ [.mmap length]) = none →
    let r : Block := ⟨k.mapped (reqs ++ [.mmap length]), length⟩
    (0 < length ∧ 0 < r.start ∧ pageSize ∣ r.start) ∧ Free (r.roundUp pageSize) (space reqs) ∧
      space (reqs ++ [.mmap length]) = Regions.mapped (r.roundUp pageSize) unbound (space reqs)
  mbind : ∀ {reqs start len policy nmask maxnode flags},
    k.refusal (reqs ++ [.mbind start len policy nmask maxnode flags]) = none → pageSize ∣ start ∧
      space (reqs ++ [.mbind start len policy nmask maxnode flags]) =
        coloured (Block.roundUp pageSize ⟨start, len⟩)
          ⟨policy, nmask.elim ∅ fun words => k.readNodes words maxnode⟩ (space reqs)
  munmap : ∀ {reqs addr length}, k.refusal (reqs ++ [.munmap addr length]) = none → pageSize ∣ addr ∧
    space (reqs ++ [.munmap addr length]) = unmapped (Block.roundUp pageSize ⟨addr, length⟩) (space reqs)
  unmaps : ∀ {reqs} {r : Block}, 0 < r.len → pageSize ∣ r.start →
    (∀ a, (r.roundUp pageSize).Covers a → (space reqs a).isSome = true) →
      k.refusal (reqs ++ [.munmap r.start r.len]) = none

end Kernel

/-! ### One call -/

/-- What a call may find of a task and leave: the memory mapped, and whether failing allocations are undone. -/
structure TaskMemory (space : List Request → Space MemPolicy) (s : Space MemPolicy) (fail : Bool) (t : Task g) :
    Prop where
  space_eq : space t.requests = s
  fail_eq : t.failAllocOnError = fail

variable {k : Kernel} {pageSize : Nat} {space : List Request → Space MemPolicy} {s : Space MemPolicy} {fail : Bool}
  {t : Task g}

/-- Setting the policy of the task leaves memory alone. -/
theorem settersClosed_taskMemory (hk : k.MapsMemory pageSize space) (s : Space MemPolicy) (fail : Bool) :
    SettersClosed k (TaskMemory (g := g) space s fail) where
  setMempolicy {policy words n t} ht := by
    rw [k.setMempolicy_frame]
    refine ⟨?_, ht.fail_eq⟩
    show space (k.setMempolicy policy words n t).2.requests = s
    rw [k.requests_setMempolicy, hk.setMempolicy]
    exact ht.space_eq
  noted _ _ _ _ _ ht := ⟨ht.space_eq, ht.fail_eq⟩

/-- Memory is bound, or nothing happens and an error is reported. -/
theorem dombind_cases (hk : k.MapsMemory pageSize space) (h : TaskMemory space s fail t) (mem size : Nat)
    (b : Nat × Option Bitmask) :
    ((dombind k mem size b.1 b.2 t).1 = 0 ∧ (dombind k mem size b.1 b.2 t).2.errors = t.errors ∧
      TaskMemory space (coloured (Block.roundUp pageSize ⟨mem, size⟩) (k.bound b) s) fail
        (dombind k mem size b.1 b.2 t).2) ∨
    ((dombind k mem size b.1 b.2 t).1 = -1 ∧ (dombind k mem size b.1 b.2 t).2.errors = t.errors ++ ["mbind"] ∧
      TaskMemory space s fail (dombind k mem size b.1 b.2 t).2) := by
  unfold dombind Kernel.mbind
  dsimp only
  rcases k.ask_cases (.mbind mem size b.1 (b.2.map Bitmask.maskp) (b.2.elim 0 Bitmask.size) t.mbindFlags)
    (fun t : Task g => { t with
      pages := fun a => if mem ≤ a ∧ a < mem + size then k.bound b else t.pages a }) t with
    ⟨e, he, hask⟩ | ⟨hgrant, hask⟩
  · right
    unfold Kernel.bound at hask
    rw [hask]
    exact ⟨rfl, rfl, (hk.refused he).trans h.space_eq, h.fail_eq⟩
  · left
    unfold Kernel.bound at hask
    rw [hask]
    refine ⟨rfl, rfl, ?_, h.fail_eq⟩
    rw [← h.space_eq]
    exact (hk.mbind hgrant).2

/-- A block as it is handed out: on the start of a page, not null and not empty. -/
def Placed (pageSize : Nat) (r : Block) : Prop := 0 < r.len ∧ 0 < r.start ∧ pageSize ∣ r.start

/-- An allocation maps a block that was free and hands it out with the policy asked for, or with an error
reported; or it hands out nothing and leaves memory as it was. -/
theorem allocBound_cases (hk : k.MapsMemory pageSize space) (h : TaskMemory space s fail t) (size : Nat)
    (b : Nat × Option Bitmask) :
    (∃ mem, (allocBound k size b.1 b.2 t).1 = some mem ∧ Placed pageSize ⟨mem, size⟩ ∧
      Free (Block.roundUp pageSize ⟨mem, size⟩) s ∧
      (((allocBound k size b.1 b.2 t).2.errors = t.errors ∧
          TaskMemory space (Regions.mapped (Block.roundUp pageSize ⟨mem, size⟩) (k.bound b) s) fail
            (allocBound k size b.1 b.2 t).2) ∨
        (fail = false ∧ (allocBound k size b.1 b.2 t).2.errors = t.errors ++ ["mbind"] ∧
          TaskMemory space (Regions.mapped (Block.roundUp pageSize ⟨mem, size⟩) Kernel.unbound s) fail
            (allocBound k size b.1 b.2 t).2))) ∨
    ((allocBound k size b.1 b.2 t).1 = none ∧ TaskMemory space s fail (allocBound k size b.1 b.2 t).2) := by
  unfold allocBound
  dsimp only
  rcases k.ask_cases (.mmap size) id t with ⟨e, he, hask⟩ | ⟨hgrant, hask⟩
  · rw [hask]
    exact Or.inr ⟨rfl, (hk.refused he).trans h.space_eq, h.fail_eq⟩
  · rw [hask]
    obtain ⟨hplaced, hfree, hspace⟩ := hk.mmap hgrant
    rw [h.space_eq] at hfree hspace
    generalize hmem : k.mapped (t.requests ++ [.mmap size]) = mem at hplaced hfree hspace
    have hmapped : TaskMemory space (Regions.mapped (Block.roundUp pageSize ⟨mem, size⟩) Kernel.unbound s) fail
        { t with requests := t.requests ++ [.mmap size] } := ⟨hspace, h.fail_eq⟩
    unfold dombindOrFree
    dsimp only [id]
    rw [if_pos rfl, hmem]
    rcases dombind_cases hk hmapped mem size b with ⟨hret, herrors, hmemory⟩ | ⟨hret, herrors, hmemory⟩
    · rw [if_neg fun hboth => absurd hboth.1 (by rw [hret]; decide)]
      refine Or.inl ⟨mem, rfl, hplaced, hfree, Or.inl ⟨herrors, ?_⟩⟩
      rwa [coloured_mapped] at hmemory
    · cases fail with
      | false =>
          rw [if_neg fun hboth => absurd hboth.2 (by rw [hmemory.fail_eq]; decide)]
          exact Or.inl ⟨mem, rfl, hplaced, hfree, Or.inr ⟨rfl, herrors, hmemory⟩⟩
      | true =>
          rw [if_pos ⟨by rw [hret]; decide, hmemory.fail_eq⟩]
          -- The block is mapped, so that it can be unmapped again.
          generalize (dombind k mem size b.1 b.2 { t with requests := t.requests ++ [.mmap size] }).2 = t' at hmemory
          have hunmap : k.refusal (t'.requests ++ [.munmap mem size]) = none :=
            hk.unmaps (r := ⟨mem, size⟩) hplaced.1 hplaced.2.2 fun a ha => by
              rw [hmemory.space_eq, filled_mapped _ _ _ a ha, Option.isSome_some]
          rcases k.ask_cases (.munmap mem size) id t' with ⟨e, he, -⟩ | ⟨hgrant', hask'⟩
          · rw [hunmap] at he
            cases he
          · rw [hask']
            refine Or.inr ⟨rfl, ?_, hmemory.fail_eq⟩
            rw [← unmapped_mapped hfree Kernel.unbound, ← hmemory.space_eq]
            exact (hk.munmap hgrant').2

theorem numaAlloc_cases (hk : k.MapsMemory pageSize space) (h : TaskMemory space s fail t) (size : Nat) :
    (∃ mem, (numaAlloc k size t).1 = some mem ∧ Placed pageSize ⟨mem, size⟩ ∧
      Free (Block.roundUp pageSize ⟨mem, size⟩) s ∧ (numaAlloc k size t).2.errors = t.errors ∧
      TaskMemory space (Regions.mapped (Block.roundUp pageSize ⟨mem, size⟩) Kernel.unbound s) fail
        (numaAlloc k size t).2) ∨
    ((numaAlloc k size t).1 = none ∧ TaskMemory space s fail (numaAlloc k size t).2) := by
  unfold numaAlloc
  dsimp only
  rcases k.ask_cases (.mmap size) id t with ⟨e, he, hask⟩ | ⟨hgrant, hask⟩
  · rw [hask]
    exact Or.inr ⟨rfl, (hk.refused he).trans h.space_eq, h.fail_eq⟩
  · rw [hask]
    obtain ⟨hplaced, hfree, hspace⟩ := hk.mmap hgrant
    rw [h.space_eq] at hfree hspace
    exact Or.inl ⟨_, rfl, hplaced, hfree, rfl, hspace, h.fail_eq⟩

/-- The policy an allocator asks for. -/
def AllocCall.asked (k : Kernel) (c : AllocCall) (t : Task g) : MemPolicy :=
  match c.binding t with
  | none => Kernel.unbound
  | some b => k.bound b

/-- The policy of a block that was handed out, by the errors reported. -/
def AllocCall.given (k : Kernel) (c : AllocCall) (size : Nat) (t : Task g) : MemPolicy :=
  if (c.run k size t).2.errors = t.errors then c.asked k t else Kernel.unbound

theorem append_ne_self {α : Type*} (xs : List α) (x : α) : xs ++ [x] ≠ xs := fun h =>
  List.cons_ne_nil x [] (List.append_right_eq_self.mp h)

theorem AllocCall.run_cases (hk : k.MapsMemory pageSize space) (h : TaskMemory space s fail t) (c : AllocCall)
    (size : Nat) :
    (∃ mem, (c.run k size t).1 = some mem ∧ Placed pageSize ⟨mem, size⟩ ∧
      Free (Block.roundUp pageSize ⟨mem, size⟩) s ∧
      TaskMemory space (Regions.mapped (Block.roundUp pageSize ⟨mem, size⟩) (c.given k size t) s) fail
        (c.run k size t).2 ∧
      (fail = true → (c.run k size t).2.errors = t.errors)) ∨
    ((c.run k size t).1 = none ∧ TaskMemory space s fail (c.run k size t).2) := by
  rw [AllocCall.given, AllocCall.asked, AllocCall.run_eq]
  cases c.binding t with
  | none =>
      rcases numaAlloc_cases hk h size with ⟨mem, hret, hplaced, hfree, herrors, hmemory⟩ | hnone
      · dsimp only
        rw [if_pos herrors]
        exact Or.inl ⟨mem, hret, hplaced, hfree, hmemory, fun _ => herrors⟩
      · exact Or.inr hnone
  | some b =>
      rcases allocBound_cases hk h size b with
        ⟨mem, hret, hplaced, hfree, ⟨herrors, hmemory⟩ | ⟨hfail, herrors, hmemory⟩⟩ | hnone
      · dsimp only
        rw [if_pos herrors]
        exact Or.inl ⟨mem, hret, hplaced, hfree, hmemory, fun _ => herrors⟩
      · dsimp only
        rw [if_neg (by rw [herrors]; exact append_ne_self _ _)]
        exact Or.inl ⟨mem, hret, hplaced, hfree, hmemory, fun htrue => by rw [hfail] at htrue; cases htrue⟩
      · exact Or.inr hnone

/-! ### Runs -/

/-- What an application does. -/
inductive HeapCall where
  | alloc (c : AllocCall) (size : Nat)
  | place (c : PlaceCall) (mem size : Nat)
  | free (mem size : Nat)
  | policy (c : PolicyCall)
  | setBindPolicy (strict : Bool)
  | setStrict (flag : Bool)

/-- An application: its task, the blocks it was handed and has not freed, and the policies it may conclude from what
the calls returned and reported. -/
structure Application (g : Globals) where
  task : Task g
  blocks : List Block
  seen : Space MemPolicy

namespace Application

/-- With `numa_fail_alloc_on_error` as it is set. -/
def initial (g : Globals) (fail : Bool) : Application g where
  task := { Task.initial g with failAllocOnError := fail }
  blocks := []
  seen _ := none

def step (k : Kernel) (pageSize : Nat) (app : Application g) : HeapCall → Application g
  | .alloc c size =>
      let r := c.run k size app.task
      match r.1 with
      | some mem =>
          { task := r.2
            blocks := ⟨mem, size⟩ :: app.blocks
            seen := Regions.mapped (Block.roundUp pageSize ⟨mem, size⟩) (c.given k size app.task) app.seen }
      | none => { app with task := r.2 }
  | .place c mem size =>
      let task := c.run k mem size app.task
      { app with
        task := task
        seen :=
          if task.errors = app.task.errors then
            coloured (Block.roundUp pageSize ⟨mem, size⟩) (k.bound (c.binding app.task)) app.seen
          else app.seen }
  | .free mem size =>
      { task := numaFree k mem size app.task
        blocks := app.blocks.erase ⟨mem, size⟩
        seen := unmapped (Block.roundUp pageSize ⟨mem, size⟩) app.seen }
  | .policy c => { app with task := c.run k app.task }
  | .setBindPolicy strict => { app with task := numaSetBindPolicy k strict app.task }
  | .setStrict flag => { app with task := numaSetStrict flag app.task }

/-- Only blocks handed out are freed, as a whole. -/
def Frees (app : Application g) : HeapCall → Prop
  | .free mem size => ⟨mem, size⟩ ∈ app.blocks
  | _ => True

/-- The pages of the blocks hold the memory, and the policies seen are its policies. -/
structure Knows (pageSize : Nat) (space : List Request → Space MemPolicy) (fail : Bool) (app : Application g) :
    Prop where
  holds : Holds (app.blocks.map (Block.roundUp pageSize)) app.seen
  placed : ∀ r ∈ app.blocks, Placed pageSize r
  memory : TaskMemory space app.seen fail app.task

theorem knows_initial (hk : k.MapsMemory pageSize space) (fail : Bool) :
    (initial g fail).Knows pageSize space fail where
  holds := holds_nil
  placed _ hr := absurd hr List.not_mem_nil
  memory := ⟨hk.initially, rfl⟩

theorem Knows.step (hk : k.MapsMemory pageSize space) {app : Application g} (h : app.Knows pageSize space fail)
    (call : HeapCall) (hfree : app.Frees call) : (app.step k pageSize call).Knows pageSize space fail := by
  have hsetters := settersClosed_taskMemory (g := g) hk app.seen fail
  cases call with
  | alloc c size =>
      rcases c.run_cases hk h.memory size with ⟨mem, hret, hplaced, hfresh, hmemory, -⟩ | ⟨hret, hmemory⟩
      · unfold Application.step
        dsimp only
        rw [hret]
        refine ⟨h.holds.map hfresh _, fun r hr => ?_, hmemory⟩
        rcases List.mem_cons.mp hr with rfl | hr
        · exact hplaced
        · exact h.placed r hr
      · unfold Application.step
        dsimp only
        rw [hret]
        exact ⟨h.holds, h.placed, hmemory⟩
  | place c mem size =>
      unfold Application.step
      dsimp only
      rw [PlaceCall.run_eq]
      rcases dombind_cases hk h.memory mem size (c.binding app.task) with ⟨-, herrors, hmemory⟩ | ⟨-, herrors, hmemory⟩
      · rw [if_pos herrors]
        exact ⟨h.holds.colour _ _, h.placed, hmemory⟩
      · rw [if_neg (by rw [herrors]; exact append_ne_self _ _)]
        exact ⟨h.holds, h.placed, hmemory⟩
  | free mem size =>
      have hfirst := h.holds.perm ((List.perm_cons_erase hfree).map (Block.roundUp pageSize))
      obtain ⟨hlen, -, haligned⟩ := h.placed _ hfree
      have hunmap : k.refusal (app.task.requests ++ [.munmap mem size]) = none :=
        hk.unmaps (r := ⟨mem, size⟩) hlen haligned fun a ha => by
          rw [h.memory.space_eq]
          exact hfirst.isSome List.mem_cons_self ha
      refine ⟨hfirst.unmap, fun r hr => h.placed r (List.mem_of_mem_erase hr), ?_⟩
      show TaskMemory space (unmapped (Block.roundUp pageSize ⟨mem, size⟩) app.seen) fail
        (numaFree k mem size app.task)
      unfold numaFree
      rcases k.ask_cases (.munmap mem size) id app.task with ⟨e, he, -⟩ | ⟨hgrant, hask⟩
      · rw [hunmap] at he
        cases he
      · rw [hask]
        refine ⟨?_, h.memory.fail_eq⟩
        rw [← h.memory.space_eq]
        exact (hk.munmap hgrant).2
  | policy c => exact ⟨h.holds, h.placed, hsetters.run c h.memory⟩
  | setBindPolicy strict => exact ⟨h.holds, h.placed, hsetters.numaSetBindPolicy strict h.memory⟩
  | setStrict flag => exact ⟨h.holds, h.placed, h.memory.space_eq, h.memory.fail_eq⟩

theorem knows_after (hk : k.MapsMemory pageSize space) {app : Application g} (h : app.Knows pageSize space fail)
    {calls : List HeapCall} (hfrees : Along (step k pageSize) app calls Frees) :
    (after (step k pageSize) app calls).Knows pageSize space fail :=
  Runs.guarded_rule h (fun _ call hknows hfree => hknows.step hk call hfree) hfrees

/-- Over every run of an application that frees only what it holds, the blocks it holds have pages of their own, which
are all that is mapped for it, and every address of them has the policy it may conclude from what the calls returned
and reported: an allocation that hands out nothing leaves nothing mapped, and a call that reports no error has done
what it is for. -/
theorem space_eq_seen (hk : k.MapsMemory pageSize space) {calls : List HeapCall}
    (hfrees : Along (step k pageSize) (initial g fail) calls Frees) :
    let app := after (step k pageSize) (initial g fail) calls
    (∀ r ∈ app.blocks, Placed pageSize r) ∧ (app.blocks.map (Block.roundUp pageSize)).Pairwise Apart ∧
      (∀ a, (space app.task.requests a).isSome = true ↔ ∃ r ∈ app.blocks, (r.roundUp pageSize).Covers a) ∧
        space app.task.requests = app.seen := by
  have h := knows_after hk (knows_initial hk fail) hfrees
  refine ⟨h.placed, h.holds.apart, fun a => ?_, h.memory.space_eq⟩
  rw [h.memory.space_eq, h.holds.mapped]
  simp only [List.mem_map, exists_exists_and_eq_and]

/-- The call neither frees nor places any page of the block. -/
def LeavesAlone (pageSize : Nat) (r : Block) : HeapCall → Prop
  | .place _ mem size => Apart (r.roundUp pageSize) (Block.roundUp pageSize ⟨mem, size⟩)
  | .free mem size => Apart (r.roundUp pageSize) (Block.roundUp pageSize ⟨mem, size⟩)
  | _ => True

theorem filled_step (hk : k.MapsMemory pageSize space) {app : Application g} (h : app.Knows pageSize space fail)
    {r : Block} {v : MemPolicy} (hfilled : Filled (r.roundUp pageSize) v app.seen) (call : HeapCall)
    (hleft : LeavesAlone pageSize r call) : Filled (r.roundUp pageSize) v (app.step k pageSize call).seen := by
  cases call with
  | alloc c size =>
      unfold Application.step
      dsimp only
      rcases c.run_cases hk h.memory size with ⟨mem, hret, -, hfresh, -, -⟩ | ⟨hret, -⟩
      · rw [hret]
        exact hfilled.mapped hfresh _
      · rw [hret]
        exact hfilled
  | place c mem size =>
      unfold Application.step
      dsimp only
      split
      · exact hfilled.coloured hleft _
      · exact hfilled
  | free mem size => exact hfilled.unmapped hleft
  | policy c => exact hfilled
  | setBindPolicy strict => exact hfilled
  | setStrict flag => exact hfilled

theorem filled_after (hk : k.MapsMemory pageSize space) {app : Application g} (h : app.Knows pageSize space fail)
    {r : Block} {v : MemPolicy} (hfilled : Filled (r.roundUp pageSize) v app.seen) {calls : List HeapCall}
    (hfrees : Along (step k pageSize) app calls Frees) (hleft : ∀ call ∈ calls, LeavesAlone pageSize r call) :
    Filled (r.roundUp pageSize) v (after (step k pageSize) app calls).seen := by
  induction calls generalizing app with
  | nil => exact hfilled
  | cons call calls ih =>
      obtain ⟨hfree, hrest⟩ := Runs.along_cons.mp hfrees
      rw [Runs.after_cons]
      apply ih (h.step hk call hfree)
      · exact filled_step hk h hfilled call (hleft call List.mem_cons_self)
      · exact hrest
      · exact fun call' hcall' => hleft call' (List.mem_cons_of_mem call hcall')

theorem seen_alloc {app : Application g} {c : AllocCall} {size mem : Nat} (h : (c.run k size app.task).1 = some mem) :
    (app.step k pageSize (.alloc c size)).seen =
      Regions.mapped (Block.roundUp pageSize ⟨mem, size⟩) (c.given k size app.task) app.seen := by
  unfold Application.step
  dsimp only
  rw [h]

/-- Whatever an application allocates, places and frees elsewhere, the pages of a block it was handed keep the policy
its allocator asked for, unless that one reported an error; and it cannot have if failing allocations are undone. -/
theorem policy_of_block (hk : k.MapsMemory pageSize space) {pre post : List HeapCall} {c : AllocCall} {size mem : Nat}
    (hfrees : Along (step k pageSize) (initial g fail) (pre ++ .alloc c size :: post) Frees)
    (hret : (c.run k size (after (step k pageSize) (initial g fail) pre).task).1 = some mem)
    (hleft : ∀ call ∈ post, LeavesAlone pageSize ⟨mem, size⟩ call) :
    let before := (after (step k pageSize) (initial g fail) pre).task
    Filled (Block.roundUp pageSize ⟨mem, size⟩) (c.given k size before)
        (space (after (step k pageSize) (initial g fail) (pre ++ .alloc c size :: post)).task.requests) ∧
      (fail = true → c.given k size before = c.asked k before) := by
  have hpre := knows_after hk (knows_initial hk fail) (hfrees.of_prefix (List.prefix_append pre _))
  have hall := knows_after hk (knows_initial hk fail) hfrees
  constructor
  · rw [hall.memory.space_eq, Runs.after_append, Runs.after_cons]
    apply filled_after hk (hpre.step hk (.alloc c size) trivial)
    · rw [seen_alloc hret]
      exact filled_mapped _ _ _
    · intro front a back hpost
      have hthis := hfrees (pre ++ .alloc c size :: front) a back (by rw [hpost, List.append_assoc, List.cons_append])
      rwa [Runs.after_append, Runs.after_cons] at hthis
    · exact hleft
  · intro hfail
    rcases c.run_cases hk hpre.memory size with ⟨_, -, -, -, -, herrors⟩ | ⟨hnone, -⟩
    · rw [AllocCall.given, if_pos (herrors hfail)]
    · rw [hret] at hnone
      cases hnone

end Application

/-! ### A kernel -/

/-- The pages of 4096 bytes that a request maps. -/
def Request.mapPages : Request → Nat
  | .mmap length => (length + 4096 - 1) / 4096
  | _ => 0

def mapPages (reqs : List Request) : Nat := (reqs.map Request.mapPages).sum

/-- A kernel with pages of 4096 bytes that maps one block behind the other. It refuses lengths of zero and starts
within a page, and to bind memory to none of its nodes 0 and 2. -/
def bumpKernel : Kernel where
  available := true
  nrNodeIds := 64
  readNodes := Words.bitsBelow
  refusal requests :=
    match requests.getLast? with
    | some (.mmap length) => if length = 0 then some EINVAL else none
    | some (.munmap addr length) => if length = 0 ∨ ¬4096 ∣ addr then some EINVAL else none
    | some (.mbind start _ _ (some words) n _) =>
        if ¬4096 ∣ start ∨ Disjoint (Words.bitsBelow words n) {0, 2} then some EINVAL else none
    | some (.mbind start _ _ none _ _) => if ¬4096 ∣ start then some EINVAL else none
    | _ => none
  mapped reqs := 4096 * (16 + mapPages reqs.dropLast)
  memsAllowed _ := {0, 2}
  nodeAt _ := 0
  cpumap := plainCpumap

/-- What a request it has granted makes of the memory. `reqs` are the requests up to it. -/
def bumpGranted (reqs : List Request) (s : Space MemPolicy) : Request → Space MemPolicy
  | .mmap length => Regions.mapped (Block.roundUp 4096 ⟨bumpKernel.mapped reqs, length⟩) Kernel.unbound s
  | .munmap addr length => unmapped (Block.roundUp 4096 ⟨addr, length⟩) s
  | .mbind start len policy nmask maxnode _ =>
      coloured (Block.roundUp 4096 ⟨start, len⟩)
        ⟨policy, nmask.elim ∅ fun words => bumpKernel.readNodes words maxnode⟩ s
  | .setMempolicy _ _ _ => s
  | .schedSetaffinity _ _ _ => s

def bumpSpaceFrom (done : List Request) : List Request → Space MemPolicy → Space MemPolicy
  | [], s => s
  | req :: rest, s => bumpSpaceFrom (done ++ [req]) rest
      (if bumpKernel.refusal (done ++ [req]) = none then bumpGranted (done ++ [req]) s req else s)

/-- The memory of a task that has made these requests. -/
def bumpSpace (reqs : List Request) : Space MemPolicy := bumpSpaceFrom [] reqs fun _ => none

theorem bumpSpaceFrom_concat (done rest : List Request) (req : Request) (s : Space MemPolicy) :
    bumpSpaceFrom done (rest ++ [req]) s =
      if bumpKernel.refusal (done ++ rest ++ [req]) = none then
        bumpGranted (done ++ rest ++ [req]) (bumpSpaceFrom done rest s) req
      else bumpSpaceFrom done rest s := by
  induction rest generalizing done s with
  | nil =>
      rw [List.append_nil]
      rfl
  | cons first rest ih =>
      rw [List.cons_append, bumpSpaceFrom, ih, List.append_assoc done, List.singleton_append]
      rfl

theorem bumpSpace_concat (reqs : List Request) (req : Request) :
    bumpSpace (reqs ++ [req]) =
      if bumpKernel.refusal (reqs ++ [req]) = none then bumpGranted (reqs ++ [req]) (bumpSpace reqs) req
      else bumpSpace reqs :=
  bumpSpaceFrom_concat [] reqs req _

theorem bumpSpace_granted {reqs : List Request} {req : Request} (h : bumpKernel.refusal (reqs ++ [req]) = none) :
    bumpSpace (reqs ++ [req]) = bumpGranted (reqs ++ [req]) (bumpSpace reqs) req := by
  rw [bumpSpace_concat, if_pos h]

theorem mapPages_concat (reqs : List Request) (req : Request) :
    mapPages (reqs ++ [req]) = mapPages reqs + req.mapPages := by
  rw [mapPages, List.map_append, List.sum_append]
  rfl

theorem mapped_bumpKernel (reqs : List Request) (req : Request) :
    bumpKernel.mapped (reqs ++ [req]) = 4096 * (16 + mapPages reqs) := by
  show 4096 * (16 + mapPages (reqs ++ [req]).dropLast) = _
  rw [List.dropLast_concat]

theorem refusal_bumpKernel (reqs : List Request) (req : Request) :
    bumpKernel.refusal (reqs ++ [req]) = bumpKernel.refusal [req] := by
  unfold bumpKernel
  dsimp only
  rw [List.getLast?_concat, List.getLast?_singleton]

/-- What is mapped lies below the next block. -/
theorem lt_mapPages (reqs : List Request) {a : Nat} (h : (bumpSpace reqs a).isSome = true) :
    a < 4096 * (16 + mapPages reqs) := by
  induction reqs using List.reverseRecOn with
  | nil => cases h
  | append_singleton reqs req ih =>
      have hbefore : (bumpSpace reqs a).isSome = true → a < 4096 * (16 + mapPages (reqs ++ [req])) := fun hsome => by
        have hlt := ih hsome
        rw [mapPages_concat]
        omega
      rw [bumpSpace_concat] at h
      split at h
      · cases req with
        | mmap length =>
            rw [bumpGranted, Regions.mapped] at h
            split at h
            · next hcovers =>
              have hend := hcovers.2
              rw [Block.roundUp, mapped_bumpKernel] at hend
              dsimp only at hend
              rw [mapPages_concat, Request.mapPages]
              omega
            · exact hbefore h
        | munmap addr length =>
            rw [bumpGranted, unmapped] at h
            split at h
            · cases h
            · exact hbefore h
        | mbind start len policy nmask maxnode flags =>
            rw [bumpGranted, coloured] at h
            split at h
            · rw [Option.isSome_map] at h
              exact hbefore h
            · exact hbefore h
        | setMempolicy policy nmask maxnode => exact hbefore h
        | schedSetaffinity pid len mask => exact hbefore h
      · exact hbefore h

theorem bumpKernel_mapsMemory : bumpKernel.MapsMemory 4096 bumpSpace where
  initially := rfl
  refused {reqs req e} h := by
    rw [bumpSpace_concat, if_neg]
    rw [h]
    exact Option.some_ne_none e
  setMempolicy reqs policy nmask maxnode := by
    rw [bumpSpace_concat]
    exact ite_self _
  mmap {reqs length} h := by
    refine ⟨⟨Nat.pos_of_ne_zero fun hzero => ?_, ?_, ?_⟩, fun a ha => ?_, bumpSpace_granted h⟩
    · rw [refusal_bumpKernel, hzero] at h
      cases h
    · rw [mapped_bumpKernel]
      dsimp only
      omega
    · rw [mapped_bumpKernel]
      exact Dvd.intro _ rfl
    · have hstart := ha.1
      rw [Block.roundUp, mapped_bumpKernel] at hstart
      rw [← Option.not_isSome_iff_eq_none]
      exact fun hsome => absurd (lt_mapPages reqs hsome) (Nat.not_lt_of_le hstart)
  mbind {reqs start len policy nmask maxnode flags} h := by
    refine ⟨?_, bumpSpace_granted h⟩
    rw [refusal_bumpKernel] at h
    by_contra haligned
    cases nmask with
    | none =>
        have hrefused : bumpKernel.refusal [.mbind start len policy none maxnode flags] = some EINVAL :=
          if_pos haligned
        rw [hrefused] at h
        cases h
    | some words =>
        have hrefused : bumpKernel.refusal [.mbind start len policy (some words) maxnode flags] = some EINVAL :=
          if_pos (Or.inl haligned)
        rw [hrefused] at h
        cases h
  munmap {reqs addr length} h := by
    refine ⟨?_, bumpSpace_granted h⟩
    rw [refusal_bumpKernel] at h
    by_contra haligned
    have hrefused : bumpKernel.refusal [.munmap addr length] = some EINVAL := if_pos (Or.inr haligned)
    rw [hrefused] at h
    cases h
  unmaps {reqs r} hlen haligned _ := by
    rw [refusal_bumpKernel]
    exact if_neg (not_or.mpr ⟨hlen.ne', not_not.mpr haligned⟩)

/-- One block on node 2, and one in local memory, which ends within a page, that is freed again. -/
def onnodeThenLocal : List HeapCall := [.alloc (.onnode 2) 4096, .alloc .local 8000, .free 69632 8000]

theorem frees_onnodeThenLocal (fail : Bool) :
    Along (Application.step bumpKernel 4096) (Application.initial gapGlobals fail) onnodeThenLocal
      Application.Frees := by
  simp only [onnodeThenLocal, Runs.along_cons, Runs.along_nil, Application.Frees, true_and, and_true]
  cases fail with
  | false => decide
  | true => decide

namespace Application

theorem space_eq_seen_two :
    let app := after (step bumpKernel 4096) (initial gapGlobals false) onnodeThenLocal
    app.blocks = [⟨65536, 4096⟩] ∧ bumpSpace app.task.requests 69631 = some ⟨mpolBind, {2}⟩ ∧
      bumpSpace app.task.requests 69632 = none ∧ bumpSpace app.task.requests 77823 = none := by
  have h := (space_eq_seen bumpKernel_mapsMemory (frees_onnodeThenLocal false)).2.2.2
  dsimp only at h ⊢
  rw [h]
  decide

theorem policy_of_block_onnode :
    Filled (Block.roundUp 4096 ⟨65536, 4096⟩) ⟨mpolBind, {2}⟩
      (bumpSpace (after (step bumpKernel 4096) (initial gapGlobals true) onnodeThenLocal).task.requests) := by
  have hleft : ∀ call ∈ onnodeThenLocal.tail, LeavesAlone 4096 ⟨65536, 4096⟩ call := by
    intro call hcall
    rcases List.mem_cons.mp hcall with rfl | hcall
    · trivial
    · obtain rfl := List.mem_singleton.mp hcall
      intro a hfirst hsecond
      exact absurd hfirst.2 (Nat.not_lt_of_le hsecond.1)
  have hpre : ([] : List HeapCall) ++ .alloc (.onnode 2) 4096 :: onnodeThenLocal.tail = onnodeThenLocal := rfl
  have h := policy_of_block bumpKernel_mapsMemory (hpre ▸ frees_onnodeThenLocal true) rfl hleft
  have hasked : AllocCall.asked bumpKernel (.onnode 2) (initial gapGlobals true).task = ⟨mpolBind, {2}⟩ := by decide
  have hgiven := (h.2 rfl).trans hasked
  exact hgiven ▸ h.1

end Application

end Numactl
