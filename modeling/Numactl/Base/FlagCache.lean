import Mathlib.Logic.Function.Basic
import Numactl.Base.Runs

/-! A cache with a slot for each key and one staleness flag for all of them. A query takes the flag: if
it was set, or the slot is empty, the query reads the source, else it is answered from the slot. Reading
may fail, and then hands out a substitute. A parameter says whether a failed reading fills an empty
slot; an occupied slot is overwritten by every reading, failed or not. -/

namespace FlagCache

variable {ι γ : Type*} [DecidableEq ι]

/-- The slots, the flag, and what reading each key gives now: whether it succeeds, and the content read
or substituted. -/
structure Cache (ι γ : Type*) where
  slot : ι → Option γ
  stale : Bool
  source : ι → Bool × γ

inductive Op (ι γ : Type*) where
  | query (i : ι)
  | refresh
  | change (source : ι → Bool × γ)
  | skip

namespace Cache

def reads (c : Cache ι γ) (i : ι) : Bool := c.stale || (c.slot i).isNone

/-- The answer to a query. -/
def reply (c : Cache ι γ) (i : ι) : Bool × γ :=
  match c.slot i with
  | some g => if c.stale then c.source i else (true, g)
  | none => c.source i

/-- The slot after a query. -/
def store (keepFailed : Bool) (c : Cache ι γ) (i : ι) : Option γ :=
  match c.slot i with
  | some g => if c.stale then some (c.source i).2 else some g
  | none => if (c.source i).1 || keepFailed then some (c.source i).2 else none

def step (keepFailed : Bool) (c : Cache ι γ) : Op ι γ → Cache ι γ
  | .query i =>
      { c with slot := Function.update c.slot i (c.store keepFailed i), stale := false }
  | .refresh => { c with stale := true }
  | .change source => { c with source := source }
  | .skip => c

end Cache

namespace Op

def IsQuery : Op ι γ → Prop
  | .query _ => True
  | _ => False

def IsRefresh : Op ι γ → Prop
  | .refresh => True
  | _ => False

end Op

variable {keepFailed : Bool} {c : Cache ι γ}

/-- The flag says that no query of any key came after the last refresh. -/
theorem stale_after (keepFailed : Bool) (hinit : c.stale = true) (ops : List (Op ι γ)) :
    (Runs.after (Cache.step keepFailed) c ops).stale = true ↔
      ¬Runs.Since Op.IsQuery Op.IsRefresh ops := by
  refine Runs.history_rule
    (I := fun pre (t : Cache ι γ) => t.stale = true ↔ ¬Runs.Since Op.IsQuery Op.IsRefresh pre)
    (by simpa using hinit) (fun pre op ih => ?_) ops
  rw [Runs.since_concat]
  cases op with
  | query i => simp [Cache.step, Op.IsQuery]
  | refresh => simp [Cache.step, Op.IsQuery, Op.IsRefresh]
  | change source => simpa [Cache.step, Op.IsQuery, Op.IsRefresh] using ih
  | skip => simpa [Cache.step, Op.IsQuery, Op.IsRefresh] using ih

/-- A query after any history, seen through a test that the source passes now: the answer passes it
unless another query has taken the flag since the last refresh and the slot does not pass it. -/
theorem reply_after_iff (keepFailed : Bool) (hinit : c.stale = true) (ops : List (Op ι γ)) (i : ι)
    {o : Bool × γ → Prop} (hsource : o ((Runs.after (Cache.step keepFailed) c ops).source i)) :
    o ((Runs.after (Cache.step keepFailed) c ops).reply i) ↔
      (Runs.Since Op.IsQuery Op.IsRefresh ops →
        ∀ g, (Runs.after (Cache.step keepFailed) c ops).slot i = some g → o (true, g)) := by
  have hstale := stale_after keepFailed hinit ops
  generalize Runs.after (Cache.step keepFailed) c ops = t at hstale hsource ⊢
  unfold Cache.reply
  cases hslot : t.slot i with
  | none => simp [hsource]
  | some g =>
      by_cases hflag : t.stale = true
      · have hnot := hstale.mp hflag
        simp [hflag, hsource, hnot]
      · have hsince := not_not.mp (mt hstale.mpr hflag)
        simp [hflag, hsince]

/-- A query for `i` reads a failing source and stores the substitute. -/
def Cache.Poisons (keepFailed : Bool) (c : Cache ι γ) (i : ι) : Prop :=
  c.reads i = true ∧ (c.source i).1 = false ∧ ((c.slot i).isSome = true ∨ keepFailed = true)

/-- A query of the history for `i` read `g` from the source. -/
def ReadBefore (keepFailed : Bool) (c : Cache ι γ) (ops : List (Op ι γ)) (i : ι) (g : γ) : Prop :=
  ∃ pre post, ops = pre ++ .query i :: post ∧ (Runs.after (Cache.step keepFailed) c pre).reads i = true ∧
    (Runs.after (Cache.step keepFailed) c pre).source i = (true, g)

/-- A reading of a mirrored history is the work of one of the operations mirrored. -/
theorem ReadBefore.of_map {α : Type*} {f : α → Op ι γ} {ops : List α} {i : ι} {g : γ}
    (h : ReadBefore keepFailed c (ops.map f) i g) :
    ∃ pre a post, ops = pre ++ a :: post ∧ f a = .query i ∧
      (Runs.after (Cache.step keepFailed) c (pre.map f)).reads i = true ∧
      (Runs.after (Cache.step keepFailed) c (pre.map f)).source i = (true, g) := by
  obtain ⟨pre', post', heq, hreads, hsource⟩ := h
  obtain ⟨pre, a, post, rfl, rfl, ha⟩ := Runs.exists_of_map_eq heq
  exact ⟨pre, a, post, rfl, ha, hreads, hsource⟩

theorem ReadBefore.concat {ops : List (Op ι γ)} {i : ι} {g : γ}
    (h : ReadBefore keepFailed c ops i g) (op : Op ι γ) : ReadBefore keepFailed c (ops ++ [op]) i g := by
  obtain ⟨pre, post, rfl, hreads, hsource⟩ := h
  exact ⟨pre, post ++ [op], by simp, hreads, hsource⟩

omit [DecidableEq ι] in
/-- What a query leaves in its slot was there before, or it was read just now. -/
theorem store_eq_some {t : Cache ι γ} {i : ι} (hclean : ¬t.Poisons keepFailed i) {g : γ}
    (h : t.store keepFailed i = some g) :
    t.slot i = some g ∨ t.reads i = true ∧ t.source i = (true, g) := by
  by_cases hreads : t.reads i = true
  · refine Or.inr ⟨hreads, ?_⟩
    obtain ⟨hstored, hok⟩ : (t.source i).2 = g ∧ (t.source i).1 = true := by
      cases hslot : t.slot i with
      | none =>
          simp only [Cache.store, hslot, Option.ite_none_right_eq_some, Option.some.injEq] at h
          obtain ⟨hkept, hval⟩ := h
          refine ⟨hval, eq_true_of_ne_false fun hfail => hclean ⟨hreads, hfail, Or.inr ?_⟩⟩
          rwa [hfail, Bool.false_or] at hkept
      | some g' =>
          have hflag : t.stale = true := by simpa [Cache.reads, hslot] using hreads
          simp only [Cache.store, hslot, hflag, if_true, Option.some.injEq] at h
          refine ⟨h, eq_true_of_ne_false fun hfail => hclean ⟨hreads, hfail, Or.inl ?_⟩⟩
          rw [hslot]
          rfl
    rw [← hstored, ← hok]
  · simp only [Cache.reads, Bool.or_eq_true, not_or, Bool.not_eq_true, Option.isNone_eq_false_iff] at hreads
    obtain ⟨hflag, hsome⟩ := hreads
    obtain ⟨g', hslot⟩ := Option.isSome_iff_exists.mp hsome
    simp only [Cache.store, hslot, hflag, Bool.false_eq_true, if_false] at h
    exact Or.inl (hslot.trans h)

/-- In a history without poisoning queries every slot holds what a query for its key has read. -/
theorem slot_readBefore (hempty : ∀ i, c.slot i = none) {ops : List (Op ι γ)}
    (hclean : Runs.Along (Cache.step keepFailed) c ops fun t op =>
      ∀ i, op = .query i → ¬t.Poisons keepFailed i) {i : ι} {g : γ}
    (h : (Runs.after (Cache.step keepFailed) c ops).slot i = some g) :
    ReadBefore keepFailed c ops i g := by
  induction ops using List.reverseRecOn with
  | nil => rw [Runs.after_nil, hempty i] at h; cases h
  | append_singleton pre op ih =>
      have hpre := ih (hclean.of_prefix (List.prefix_append pre [op]))
      have hlast := hclean.last
      rw [Runs.after_concat] at h
      cases op with
      | query j =>
          by_cases hij : i = j
          · subst hij
            simp only [Cache.step, Function.update_self] at h
            obtain hold | ⟨hreads, hsource⟩ := store_eq_some (hlast i rfl) h
            · exact (hpre hold).concat _
            · exact ⟨pre, [], rfl, hreads, hsource⟩
          · simp only [Cache.step, Function.update_of_ne hij] at h
            exact (hpre h).concat _
      | refresh => exact (hpre h).concat _
      | change source => exact (hpre h).concat _
      | skip => exact (hpre h).concat _

/-- In a history without poisoning queries, every answer given as a success was read by this query or
by an earlier one for the same key. -/
theorem reply_readBefore (hempty : ∀ i, c.slot i = none) {ops : List (Op ι γ)}
    (hclean : Runs.Along (Cache.step keepFailed) c ops fun t op =>
      ∀ i, op = .query i → ¬t.Poisons keepFailed i) {i : ι} {g : γ}
    (h : (Runs.after (Cache.step keepFailed) c ops).reply i = (true, g)) :
    ReadBefore keepFailed c (ops ++ [.query i]) i g := by
  unfold Cache.reply at h
  cases hslot : (Runs.after (Cache.step keepFailed) c ops).slot i with
  | none =>
      rw [hslot] at h
      exact ⟨ops, [], rfl, by simp [Cache.reads, hslot], h⟩
  | some g' =>
      rw [hslot] at h
      dsimp only at h
      by_cases hflag : (Runs.after (Cache.step keepFailed) c ops).stale = true
      · rw [if_pos hflag] at h
        exact ⟨ops, [], rfl, by simp [Cache.reads, hflag], h⟩
      · rw [if_neg hflag, Prod.mk.injEq] at h
        obtain ⟨-, rfl⟩ := h
        exact (slot_readBefore hempty hclean hslot).concat _

/-- After a poisoning query the substitute is what the same query is answered with, as a success and without
reading the source. -/
theorem reply_of_poisons {t : Cache ι γ} {i : ι} (h : t.Poisons keepFailed i) :
    (t.step keepFailed (.query i)).reads i = false ∧
      (t.step keepFailed (.query i)).reply i = (true, (t.source i).2) := by
  obtain ⟨hreads, hfail, hkept⟩ := h
  have hstore : t.store keepFailed i = some (t.source i).2 := by
    cases hslot : t.slot i with
    | none =>
        rw [hslot] at hkept
        have hkeep : keepFailed = true := hkept.resolve_left (by simp)
        simp [Cache.store, hslot, hkeep]
    | some g =>
        have hflag : t.stale = true := by simpa [Cache.reads, hslot] using hreads
        simp [Cache.store, hslot, hflag]
  simp [Cache.reads, Cache.reply, Cache.step, hstore]

/-! ### Slots that agree with the source -/

/-- What the slot of `i` holds, if anything, is what reading `i` gives now. -/
def Cache.Consistent (c : Cache ι γ) (i : ι) : Prop :=
  ∀ g, c.slot i = some g → c.source i = (true, g)

omit [DecidableEq ι] in
theorem reply_of_reads {i : ι} (h : c.reads i = true) : c.reply i = c.source i := by
  unfold Cache.reply
  cases hslot : c.slot i with
  | none => rfl
  | some g =>
      have hflag : c.stale = true := by simpa [Cache.reads, hslot] using h
      dsimp only
      rw [if_pos hflag]

omit [DecidableEq ι] in
theorem reply_of_not_reads {i : ι} (h : c.reads i = false) : ∃ g, c.slot i = some g ∧ c.reply i = (true, g) := by
  simp only [Cache.reads, Bool.or_eq_false_iff, Option.isNone_eq_false_iff] at h
  obtain ⟨hflag, hsome⟩ := h
  obtain ⟨g, hslot⟩ := Option.isSome_iff_exists.mp hsome
  exact ⟨g, hslot, by simp [Cache.reply, hslot, hflag]⟩

omit [DecidableEq ι] in
theorem reply_of_consistent {i : ι} (h : c.Consistent i) : c.reply i = c.source i := by
  cases hreads : c.reads i with
  | true => exact reply_of_reads hreads
  | false =>
      obtain ⟨g, hslot, hreply⟩ := reply_of_not_reads hreads
      rw [hreply, h g hslot]

omit [DecidableEq ι] in
/-- What a query leaves in its slot, when failed readings are not kept. -/
theorem source_of_store {i : ι} (h : c.Consistent i) {g : γ} (hg : c.store false i = some g) :
    c.source i = (true, g) := by
  cases hslot : c.slot i with
  | none =>
      simp only [Cache.store, hslot, Bool.or_false, Option.ite_none_right_eq_some, Option.some.injEq] at hg
      exact Prod.ext hg.1 hg.2
  | some g' =>
      have hsource := h g' hslot
      simp only [Cache.store, hslot, hsource, ite_self, Option.some.injEq] at hg
      rw [hsource, hg]

/-- A consistent slot stays so, as long as the source of its key does not change. -/
theorem consistent_step {i : ι} (h : c.Consistent i) {op : Op ι γ}
    (hop : ∀ source, op = .change source → source i = c.source i) :
    (c.step false op).Consistent i ∧ (c.step false op).source i = c.source i := by
  cases op with
  | query j =>
      refine ⟨fun g hg => ?_, rfl⟩
      by_cases hij : i = j
      · subst hij
        simp only [Cache.step, Function.update_self] at hg
        exact source_of_store h hg
      · simp only [Cache.step, Function.update_of_ne hij] at hg
        exact h g hg
  | refresh => exact ⟨h, rfl⟩
  | change source =>
      have hsource := hop source rfl
      exact ⟨fun g hg => hsource.trans (h g hg), hsource⟩
  | skip => exact ⟨h, rfl⟩

theorem consistent_after {i : ι} (h : c.Consistent i) {ops : List (Op ι γ)}
    (hops : ∀ source, .change source ∈ ops → source i = c.source i) :
    (Runs.after (Cache.step false) c ops).Consistent i ∧
      (Runs.after (Cache.step false) c ops).source i = c.source i := by
  refine Runs.guarded_rule (G := fun _ op => op ∈ ops)
    (I := fun t : Cache ι γ => t.Consistent i ∧ t.source i = c.source i) ⟨h, rfl⟩ (fun t op ht hop => ?_) ?_
  · have hchange : ∀ source, op = .change source → source i = t.source i := by
      rintro source rfl
      exact (hops source hop).trans ht.2.symm
    obtain ⟨hcons, hsource⟩ := consistent_step ht.1 hchange
    exact ⟨hcons, hsource.trans ht.2⟩
  · rintro pre op post rfl
    exact List.mem_append_right pre List.mem_cons_self

/-- A successful reading leaves a consistent slot behind. -/
theorem consistent_of_reads {i : ι} (hreads : c.reads i = true) (hok : (c.source i).1 = true) :
    (c.step false (.query i)).Consistent i := by
  intro g hg
  simp only [Cache.step, Function.update_self] at hg
  cases hslot : c.slot i with
  | none => exact source_of_store (fun g' h => absurd (hslot.symm.trans h) (by simp)) hg
  | some g' =>
      have hflag : c.stale = true := by simpa [Cache.reads, hslot] using hreads
      simp only [Cache.store, hslot, hflag, if_true, Option.some.injEq] at hg
      exact Prod.ext hok hg

end FlagCache
