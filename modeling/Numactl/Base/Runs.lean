import Mathlib.Data.List.Infix

/-! Runs of a deterministic machine. A machine is a step function from a state and an operation to a
state; a run applies a list of operations from the left. The rules below carry a property from one step
to a whole run: an invariant, an invariant kept only by the steps a guard allows, a relation between the
history and the state it has led to, and a simulation of two machines that breaks exactly where a step
leaves a guard. The last parts are about machines whose steps may stop them and machines with an output. -/

namespace Runs

variable {σ τ α : Type*}

/-- The state after the operations `ops`. -/
def after (step : σ → α → σ) (s : σ) (ops : List α) : σ := ops.foldl step s

/-- Every step of the run, taken in the state its predecessors lead to, satisfies `P`. -/
def Along (step : σ → α → σ) (s : σ) (ops : List α) (P : σ → α → Prop) : Prop :=
  ∀ pre a post, ops = pre ++ a :: post → P (after step s pre) a

variable {step : σ → α → σ} {s : σ}

@[simp] theorem after_nil : after step s [] = s := rfl

@[simp] theorem after_cons (a : α) (ops : List α) :
    after step s (a :: ops) = after step (step s a) ops := rfl

theorem after_append (pre post : List α) :
    after step s (pre ++ post) = after step (after step s pre) post :=
  List.foldl_append

@[simp] theorem after_concat (pre : List α) (a : α) :
    after step s (pre ++ [a]) = step (after step s pre) a := by
  rw [after_append, after_cons, after_nil]

/-- A relation between the operations so far and the state, kept by one more operation, holds after
every run. -/
theorem history_rule {I : List α → σ → Prop} (hinit : I [] s)
    (hstep : ∀ pre a, I pre (after step s pre) → I (pre ++ [a]) (step (after step s pre) a))
    (ops : List α) : I ops (after step s ops) := by
  induction ops using List.reverseRecOn with
  | nil => exact hinit
  | append_singleton pre a ih =>
      rw [after_concat]
      exact hstep pre a ih

/-- What every step keeps holds after every run. -/
theorem invariant_rule {I : σ → Prop} (hinit : I s) (hstep : ∀ t a, I t → I (step t a))
    (ops : List α) : I (after step s ops) :=
  history_rule (I := fun _ t => I t) hinit (fun _ a h => hstep _ a h) ops

theorem Along.of_prefix {pre ops : List α} {P : σ → α → Prop} (h : Along step s ops P)
    (hpre : pre <+: ops) : Along step s pre P := by
  obtain ⟨rest, rfl⟩ := hpre
  rintro front a back rfl
  exact h front a (back ++ rest) (by simp)

@[simp] theorem along_nil {P : σ → α → Prop} : Along step s [] P := by
  intro pre a post h
  simp at h

@[simp] theorem along_cons {a : α} {ops : List α} {P : σ → α → Prop} :
    Along step s (a :: ops) P ↔ P s a ∧ Along step (step s a) ops P := by
  refine ⟨fun h => ⟨h [] a ops rfl, fun pre b post heq => ?_⟩, fun h pre b post heq => ?_⟩
  · exact h (a :: pre) b post (by rw [heq, List.cons_append])
  · cases pre with
    | nil =>
        obtain ⟨rfl, rfl⟩ := List.cons.inj heq
        exact h.1
    | cons c pre =>
        obtain ⟨rfl, rfl⟩ := List.cons.inj heq
        exact h.2 pre b post rfl

theorem Along.last {pre : List α} {a : α} {P : σ → α → Prop} (h : Along step s (pre ++ [a]) P) :
    P (after step s pre) a :=
  h pre a [] rfl

/-- What every allowed step keeps holds after every run all of whose steps are allowed. -/
theorem guarded_rule {G : σ → α → Prop} {I : σ → Prop} (hinit : I s)
    (hstep : ∀ t a, I t → G t a → I (step t a)) {ops : List α} (hguard : Along step s ops G) :
    I (after step s ops) := by
  induction ops using List.reverseRecOn with
  | nil => exact hinit
  | append_singleton pre a ih =>
      rw [after_concat]
      exact hstep _ a (ih (hguard.of_prefix (List.prefix_append pre [a]))) hguard.last

/-- Two machines run in step. If related states stay related exactly over the steps the guard allows,
they are related after every prefix of a run exactly when all steps of the run are allowed. -/
theorem simulation_iff {step' : τ → α → τ} {t : τ} {R : σ → τ → Prop} {G : σ → α → Prop}
    (hstep : ∀ s t a, R s t → (R (step s a) (step' t a) ↔ G s a)) (hinit : R s t) (ops : List α) :
    (∀ pre, pre <+: ops → R (after step s pre) (after step' t pre)) ↔ Along step s ops G := by
  constructor
  · rintro h pre a post rfl
    have hpre := h pre (List.prefix_append pre (a :: post))
    have hnext := h (pre ++ [a]) ⟨post, by simp⟩
    rw [after_concat, after_concat] at hnext
    exact (hstep _ _ a hpre).mp hnext
  · intro h pre hpre
    have hguard := h.of_prefix hpre
    clear h hpre
    induction pre using List.reverseRecOn with
    | nil => exact hinit
    | append_singleton pre a ih =>
        rw [after_concat, after_concat]
        have hrel := ih (hguard.of_prefix (List.prefix_append pre [a]))
        exact (hstep _ _ a hrel).mpr hguard.last

/-! ### The last of two kinds of operations -/

/-- Some operation satisfies `P` and none after it satisfies `Q`. -/
def Since (P Q : α → Prop) (ops : List α) : Prop :=
  ∃ pre a post, ops = pre ++ a :: post ∧ P a ∧ ∀ b ∈ post, ¬Q b

@[simp] theorem not_since_nil {P Q : α → Prop} : ¬Since P Q [] := by
  rintro ⟨pre, a, post, h, -⟩
  simp at h

theorem since_concat {P Q : α → Prop} {ops : List α} {a : α} :
    Since P Q (ops ++ [a]) ↔ P a ∨ ¬Q a ∧ Since P Q ops := by
  refine ⟨fun h => ?_, fun h => ?_⟩
  · obtain ⟨pre, b, post, heq, hb, hpost⟩ := h
    obtain rfl | ⟨rest, c, rfl⟩ := List.eq_nil_or_concat post
    · obtain ⟨-, rfl⟩ := List.append_inj' heq rfl |>.imp_right List.singleton_inj.mp
      exact Or.inl hb
    · have hsplit : ops ++ [a] = (pre ++ b :: rest) ++ [c] := by rw [heq]; simp
      obtain ⟨rfl, hc⟩ := List.append_inj' hsplit rfl
      obtain rfl := List.singleton_inj.mp hc
      exact Or.inr ⟨hpost a (by simp), pre, b, rest, rfl, hb, fun d hd => hpost d (by simp [hd])⟩
  · obtain ha | ⟨ha, pre, b, post, rfl, hb, hpost⟩ := h
    · exact ⟨ops, a, [], rfl, ha, by simp⟩
    · refine ⟨pre, b, post ++ [a], by simp, hb, fun d hd => ?_⟩
      obtain hd | hd := List.mem_append.mp hd
      · exact hpost d hd
      · rw [List.mem_singleton.mp hd]
        exact ha

theorem since_map {β : Type*} (f : α → β) {P Q : β → Prop} (ops : List α) :
    Since P Q (ops.map f) ↔ Since (fun a => P (f a)) (fun a => Q (f a)) ops := by
  induction ops using List.reverseRecOn with
  | nil => simp
  | append_singleton ops a ih =>
      rw [List.map_append, List.map_singleton, since_concat, since_concat, ih]

/-- A run of one machine mirrored by another, operation by operation. -/
theorem after_map {β : Type*} {step' : τ → β → τ} (f : α → β) (abs : σ → τ)
    (hstep : ∀ s a, abs (step s a) = step' (abs s) (f a)) (s : σ) (ops : List α) :
    abs (after step s ops) = after step' (abs s) (ops.map f) := by
  induction ops generalizing s with
  | nil => rfl
  | cons a ops ih => rw [after_cons, ih, hstep, List.map_cons, after_cons]

theorem exists_of_map_eq {β : Type*} {f : α → β} {ops : List α} {pre' post' : List β} {b : β}
    (h : ops.map f = pre' ++ b :: post') :
    ∃ pre a post, ops = pre ++ a :: post ∧ pre.map f = pre' ∧ f a = b := by
  obtain ⟨pre, rest, rfl, hpre, hrest⟩ := List.map_eq_append_iff.mp h
  obtain ⟨a, post, rfl, ha, -⟩ := List.map_eq_cons_iff.mp hrest
  exact ⟨pre, a, post, rfl, hpre, ha⟩

theorem Along.map {β : Type*} {step' : τ → β → τ} {f : α → β} {abs : σ → τ}
    (hstep : ∀ s a, abs (step s a) = step' (abs s) (f a)) {ops : List α} {P : τ → β → Prop}
    (h : Along step s ops fun t a => P (abs t) (f a)) : Along step' (abs s) (ops.map f) P := by
  intro pre' b post' heq
  obtain ⟨pre, a, post, rfl, rfl, rfl⟩ := exists_of_map_eq heq
  rw [← after_map f abs hstep]
  exact h pre a post rfl

/-! ### Machines that may stop -/

section

universe u v

variable {ε : Type u} {β γ : Type v}

@[simp] theorem bind_eq_ok {x : Except ε β} {f : β → Except ε γ} {c : γ} :
    (x >>= f) = .ok c ↔ ∃ b, x = .ok b ∧ f b = .ok c := by
  cases x with
  | error e =>
      refine iff_of_false (fun h => by cases h) fun h => ?_
      obtain ⟨b, hb, -⟩ := h
      cases hb
  | ok b =>
      refine ⟨fun h => ⟨b, rfl, h⟩, fun h => ?_⟩
      obtain ⟨b', hb, h⟩ := h
      cases hb
      exact h

@[simp] theorem pure_eq_ok {b c : β} : (pure b : Except ε β) = .ok c ↔ b = c :=
  ⟨Except.ok.inj, congrArg Except.ok⟩

theorem bind_eq_error {x : Except ε β} {f : β → Except ε γ} {e : ε} :
    (x >>= f) = .error e ↔ x = .error e ∨ ∃ b, x = .ok b ∧ f b = .error e := by
  cases x with
  | error d =>
      refine ⟨fun h => Or.inl (congrArg Except.error (Except.error.inj h)), fun h => ?_⟩
      rcases h with h | ⟨b, hb, -⟩
      · exact congrArg Except.error (Except.error.inj h)
      · cases hb
  | ok b =>
      refine ⟨fun h => Or.inr ⟨b, rfl, h⟩, fun h => ?_⟩
      rcases h with h | ⟨b', hb, h⟩
      · cases h
      · cases hb
        exact h

theorem ok_bind (b : β) (f : β → Except ε γ) : ((.ok b : Except ε β) >>= f) = f b := rfl

/-- An error that the first computation does not make comes from the second. -/
theorem exists_of_bind_eq_error {x : Except ε β} {f : β → Except ε γ} {e : ε} (hx : x ≠ .error e)
    (h : (x >>= f) = .error e) : ∃ b, x = .ok b ∧ f b = .error e := (bind_eq_error.mp h).resolve_left hx

/-- A relation between the operations so far and the state, kept by one more step that does not stop the
machine, holds after every run that does not stop. -/
theorem accepted_history_rule {step : β → α → Except ε β} {I : List α → β → Prop} {b : β} (hinit : I [] b)
    (hstep : ∀ pre c a d, pre.foldlM step b = .ok c → I pre c → step c a = .ok d → I (pre ++ [a]) d)
    {ops : List α} {c : β} (h : ops.foldlM step b = .ok c) : I ops c := by
  induction ops using List.reverseRecOn generalizing c with
  | nil =>
      rw [List.foldlM_nil, pure_eq_ok] at h
      exact h ▸ hinit
  | append_singleton pre a ih =>
      rw [List.foldlM_append, bind_eq_ok] at h
      obtain ⟨d, hpre, hlast⟩ := h
      rw [List.foldlM_cons, bind_eq_ok] at hlast
      obtain ⟨d', hd', hnil⟩ := hlast
      rw [List.foldlM_nil, pure_eq_ok] at hnil
      exact hstep pre d a c hpre (ih hpre) (hnil ▸ hd')

/-- What every step that does not stop the machine keeps holds after every run that does not stop. -/
theorem accepted_rule {step : β → α → Except ε β} {I : β → Prop}
    (hstep : ∀ b a c, I b → step b a = .ok c → I c) {ops : List α} {b c : β} (hb : I b)
    (h : ops.foldlM step b = .ok c) : I c :=
  accepted_history_rule (I := fun _ c => I c) hb (fun _ c a d _ hc hd => hstep c a d hc hd) h

/-- A run gets to its end where a relation between the operations so far and the state allows every next step and
is kept by it. -/
theorem total_history_rule {step : β → α → Except ε β} {I : List α → β → Prop} {ops : List α} {b : β} (hinit : I [] b)
    (hstep : ∀ pre a post c, ops = pre ++ a :: post → I pre c → ∃ d, step c a = .ok d ∧ I (pre ++ [a]) d) :
    ∃ c, ops.foldlM step b = .ok c ∧ I ops c := by
  have hrest : ∀ post pre c, ops = pre ++ post → I pre c → ∃ d, post.foldlM step c = .ok d ∧ I ops d := by
    intro post
    induction post with
    | nil =>
        intro pre c hops hc
        rw [List.append_nil] at hops
        exact ⟨c, rfl, hops ▸ hc⟩
    | cons a post ih =>
        intro pre c hops hc
        obtain ⟨d, hd, hI⟩ := hstep pre a post c hops hc
        obtain ⟨e, he, hend⟩ := ih (pre ++ [a]) d (hops.trans (List.append_cons pre a post)) hI
        refine ⟨e, ?_, hend⟩
        rw [List.foldlM_cons, bind_eq_ok]
        exact ⟨d, hd, he⟩
  exact hrest ops [] b rfl hinit

end

/-! ### Runs with an output -/

section

variable {α σ χ : Type*}

/-- Where each step of a run adds its text to the output and keeps the invariant, the run adds the texts one after the
other. -/
theorem output_rule {I : σ → Prop} {step : List χ × σ → α → Option (List χ × σ)} {text : α → List χ} {ops : List α}
    (hstep : ∀ a ∈ ops, ∀ out s, I s → ∃ s', step (out, s) a = some (out ++ text a, s') ∧ I s')
    (out : List χ) {s : σ} (hs : I s) :
    ∃ s', ops.foldlM step (out, s) = some (out ++ ops.flatMap text, s') ∧ I s' := by
  induction ops generalizing out s with
  | nil => exact ⟨s, congrArg (fun out => some (out, s)) (List.append_nil out).symm, hs⟩
  | cons a ops ih =>
      obtain ⟨s', hfirst, hs'⟩ := hstep a List.mem_cons_self out s hs
      obtain ⟨s'', hrest, hs''⟩ := ih (fun b hb => hstep b (List.mem_cons_of_mem a hb)) (out ++ text a) hs'
      refine ⟨s'', ?_, hs''⟩
      rw [List.foldlM_cons, hfirst, List.flatMap_cons, ← List.append_assoc]
      exact hrest

/-- Where each step of a run adds one piece to the output and gets to the same state, a run of at least one step gets
there. -/
theorem output_last_rule {step : List χ × σ → α → Option (List χ × σ)} (piece : α → χ) (last : σ) {ops : List α}
    (hops : ops ≠ []) (hstep : ∀ a ∈ ops, ∀ out s, step (out, s) a = some (out ++ [piece a], last)) (out : List χ)
    (s : σ) : ops.foldlM step (out, s) = some (out ++ ops.map piece, last) := by
  obtain ⟨a, ops, rfl⟩ := List.exists_cons_of_ne_nil hops
  have hlater : ∀ b ∈ ops, ∀ out s, s = last → ∃ s', step (out, s) b = some (out ++ [piece b], s') ∧ s' = last :=
    fun b hb out s _ => ⟨last, hstep b (List.mem_cons_of_mem a hb) out s, rfl⟩
  obtain ⟨s', hrest, rfl⟩ := output_rule hlater (out ++ [piece a]) rfl
  rw [List.foldlM_cons, hstep a List.mem_cons_self, Option.bind_eq_bind, Option.bind_some, hrest,
    ← List.map_eq_flatMap, List.append_assoc, List.singleton_append, List.map_cons]

/-- A run that gets to its end has not stopped at any operation. -/
theorem exists_of_foldlM {f : α → Option χ} {next : σ → χ → σ} {ops : List α} {s s' : σ}
    (h : ops.foldlM (fun s a => (f a).map (next s)) s = some s') : ∀ a ∈ ops, ∃ b, f a = some b := by
  induction ops generalizing s with
  | nil => exact fun a ha => absurd ha List.not_mem_nil
  | cons first ops ih =>
      rw [List.foldlM_cons] at h
      obtain ⟨t, ht, h⟩ := Option.bind_eq_some_iff.mp h
      obtain ⟨b, hb, -⟩ := Option.map_eq_some_iff.mp ht
      intro a ha
      rcases List.mem_cons.mp ha with rfl | ha
      · exact ⟨b, hb⟩
      · exact ih h a ha

end

end Runs
