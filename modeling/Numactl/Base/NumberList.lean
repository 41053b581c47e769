import Numactl.Base.CString

/-! Lists of numbers such as `1,3-5,7`, written with the numerals `strtoul` reads in base 0. The grammar
is stated on texts: a numeral is a text that is read to its end. The reader takes an item from the front
of a string and stops where the numerals stop; the two agree because a numeral is still read to its end
in front of a comma or a dash. A list may end in a word, which a predicate recognises. -/

namespace NumberList

open CString (scan strtoul toUnsigned digitVal)

/-- A text `strtoul` reads to its end in base 0, and the value it makes of it. -/
def Numeral (t : List Char) (v : Nat) : Prop := t ≠ [] ∧ strtoul 0 t = (v, [])

instance (t : List Char) (v : Nat) : Decidable (Numeral t v) :=
  inferInstanceAs (Decidable (t ≠ [] ∧ strtoul 0 t = (v, [])))

inductive Item where
  | one (v : Nat)
  | range (v w : Nat)
  deriving DecidableEq

inductive ReadsItem : List Char → Item → Prop where
  | one {t v} : Numeral t v → ReadsItem t (.one v)
  | range {t u v w} : Numeral t v → Numeral u w → ReadsItem (t ++ '-' :: u) (.range v w)

/-- Items separated by commas, and possibly a final word. -/
inductive ReadsList (isWord : List Char → Bool) : List Char → List Item → Option (List Char) → Prop where
  | word {s} : isWord s = true → ReadsList isWord s [] (some s)
  | last {t it} : ReadsItem t it → ReadsList isWord t [it] none
  | cons {t it s its w} : ReadsItem t it → ReadsList isWord s its w →
      ReadsList isWord (t ++ ',' :: s) (it :: its) w

/-- A number at the front of a string, `none` where `strtoul` converts nothing. -/
def readNumber (s : List Char) : Option (Nat × List Char) :=
  if (strtoul 0 s).2 = s then none else some (strtoul 0 s)

def readItem (s : List Char) : Option (Item × List Char) :=
  match readNumber s with
  | none => none
  | some (v, rest) =>
      if rest.head? = some '-' then
        match readNumber rest.tail with
        | none => none
        | some (w, rest) => some (.range v w, rest)
      else some (.one v, rest)

def readList (isWord : List Char → Bool) : Nat → List Char → Option (List Item × Option (List Char))
  | 0, _ => none
  | fuel + 1, s =>
      if isWord s then some ([], some s)
      else
        match readItem s with
        | none => none
        | some (it, []) => some ([it], none)
        | some (it, c :: rest) =>
            if c = ',' then
              match readList isWord fuel rest with
              | none => none
              | some (its, w) => some (it :: its, w)
            else none

/-! ### Numbers -/

theorem numeral_of_readNumber {s rest : List Char} {v : Nat} (h : readNumber s = some (v, rest)) :
    ∃ t, s = t ++ rest ∧ Numeral t v := by
  unfold readNumber at h
  split at h
  · cases h
  · next hne =>
    have hread := Option.some.inj h
    cases hscan : scan 0 s with
    | none =>
        rw [strtoul, hscan] at hne
        exact absurd rfl hne
    | some r =>
        obtain ⟨neg, m, rest'⟩ := r
        obtain ⟨t, ht, hs, hnum⟩ := CString.scan_prefix hscan
        simp only [strtoul, hscan, Prod.mk.injEq] at hread
        obtain ⟨hv, rfl⟩ := hread
        exact ⟨t, hs, ht, by simp only [strtoul, hnum, hv]⟩

/-- A text that may follow a number: nothing, or something that starts with a character that is no
digit. -/
def Stops (rest : List Char) : Prop := ∀ c, rest.head? = some c → digitVal c = none

theorem readNumber_append {t rest : List Char} {v : Nat} (h : Numeral t v) (hrest : Stops rest) :
    readNumber (t ++ rest) = some (v, rest) := by
  obtain ⟨hne, hread⟩ := h
  have hstrtoul : strtoul 0 (t ++ rest) = (v, rest) := by
    cases hscan : scan 0 t with
    | none =>
        simp only [strtoul, hscan, Prod.mk.injEq] at hread
        exact absurd hread.2 hne
    | some r =>
        obtain ⟨neg, m, rest'⟩ := r
        simp only [strtoul, hscan, Prod.mk.injEq] at hread
        obtain ⟨hv, rfl⟩ := hread
        cases rest with
        | nil => simp only [List.append_nil, strtoul, hscan, hv]
        | cons c rest => simp only [strtoul, CString.scan_append hscan (hrest c rfl) rest, hv]
  have hshorter : rest ≠ t ++ rest := by
    intro heq
    have hlen := congrArg List.length heq
    rw [List.length_append] at hlen
    exact hne (List.length_eq_zero_iff.mp (by omega))
  rw [readNumber, hstrtoul, if_neg hshorter]

/-- No number starts with a letter. -/
theorem readNumber_of_isalpha {s : List Char} (h : s.head?.any CString.isalpha = true) :
    readNumber s = none := by
  cases s with
  | nil => cases h
  | cons c s =>
      rw [List.head?_cons, Option.any_some] at h
      have hscan : scan 0 (c :: s) = none := CString.scan_of_isalpha h s
      rw [readNumber, strtoul, hscan]
      exact if_pos rfl

/-- `strtoul` returns an `unsigned long`. -/
theorem Numeral.lt {t : List Char} {v : Nat} (h : Numeral t v) : v < 2 ^ 64 := by
  have hlt := CString.strtoul_lt 0 t
  rw [h.2] at hlt
  exact hlt

/-- White space before a numeral is skipped. -/
theorem Numeral.cons_space {t : List Char} {v : Nat} (h : Numeral t v) {c : Char} (hc : CString.isspace c = true) :
    Numeral (c :: t) v := by
  obtain ⟨hne, hread⟩ := h
  refine ⟨List.cons_ne_nil c t, ?_⟩
  rw [strtoul] at hread ⊢
  rw [CString.scan_cons_of_isspace 0 hc]
  cases hscan : scan 0 t with
  | none =>
      rw [hscan] at hread
      exact absurd (congrArg Prod.snd hread) hne
  | some r =>
      rw [hscan] at hread
      exact hread

/-- Printed numbers are numerals. -/
theorem numeral_decimal {n : Nat} (hn : n < 2 ^ 64) : Numeral (CString.decimal n) n := by
  have hmax : n ≤ CString.ulongMax := by
    rw [CString.ulongMax]
    omega
  have hread := @CString.strtoul_decimal n hmax [] fun c hc => by cases hc
  rw [List.append_nil] at hread
  exact ⟨CString.decimal_ne_nil n, hread⟩

/-! ### Items and lists -/

theorem readsItem_of_readItem {s rest : List Char} {it : Item} (h : readItem s = some (it, rest)) :
    ∃ t, s = t ++ rest ∧ ReadsItem t it := by
  unfold readItem at h
  cases hfirst : readNumber s with
  | none => rw [hfirst] at h; cases h
  | some r =>
      obtain ⟨v, rest1⟩ := r
      obtain ⟨t, rfl, ht⟩ := numeral_of_readNumber hfirst
      rw [hfirst] at h
      dsimp only at h
      by_cases hdash : rest1.head? = some '-'
      · rw [if_pos hdash] at h
        cases hsecond : readNumber rest1.tail with
        | none => rw [hsecond] at h; cases h
        | some r =>
            obtain ⟨w, rest2⟩ := r
            obtain ⟨u, hu, hw⟩ := numeral_of_readNumber hsecond
            rw [hsecond, Option.some.injEq, Prod.mk.injEq] at h
            obtain ⟨rfl, rfl⟩ := h
            refine ⟨t ++ '-' :: u, ?_, .range ht hw⟩
            rw [← List.cons_head?_tail hdash, hu]
            simp
      · rw [if_neg hdash, Option.some.injEq, Prod.mk.injEq] at h
        obtain ⟨rfl, rfl⟩ := h
        exact ⟨t, rfl, .one ht⟩

theorem readItem_append {t : List Char} {it : Item} (h : ReadsItem t it) (rest : List Char)
    (hrest : rest = [] ∨ rest.head? = some ',') : readItem (t ++ rest) = some (it, rest) := by
  have hstops : Stops rest := by
    intro c hc
    obtain rfl | hcomma := hrest
    · cases hc
    · rw [hcomma, Option.some.injEq] at hc
      subst hc
      decide
  have hnodash : rest.head? ≠ some '-' := by
    obtain rfl | hcomma := hrest
    · simp
    · simp [hcomma]
  cases h with
  | one ht =>
      rw [readItem, readNumber_append ht hstops]
      dsimp only
      rw [if_neg hnodash]
  | @range t u v w ht hu =>
      have hdash : Stops ('-' :: (u ++ rest)) := by
        intro c hc
        obtain rfl := Option.some.inj hc
        decide
      rw [readItem, List.append_assoc, List.cons_append, readNumber_append ht hdash]
      dsimp only
      rw [List.head?_cons, if_pos rfl, List.tail_cons, readNumber_append hu hstops]

theorem readItem_of_isalpha {s : List Char} (h : s.head?.any CString.isalpha = true) :
    readItem s = none := by
  rw [readItem, readNumber_of_isalpha h]

theorem ReadsItem.ne_nil {t : List Char} {it : Item} (h : ReadsItem t it) : t ≠ [] := by
  cases h with
  | one ht => exact ht.1
  | range ht hu => simp

theorem ReadsList.isWord {isWord : List Char → Bool} {s t : List Char} {its : List Item}
    (h : ReadsList isWord s its (some t)) : isWord t = true := by
  generalize hw : some t = w at h
  induction h with
  | word hs => rw [Option.some.inj hw]; exact hs
  | last _ => cases hw
  | cons _ _ ih => exact ih hw

/-- What follows a comma decides which words are there. -/
theorem ReadsList.imp {isWord isWord' : List Char → Bool} {s : List Char} {its : List Item} {w : Option (List Char)}
    (h : ReadsList isWord s its w)
    (hword : ∀ u, u = s ∨ (∃ pre, s = pre ++ ',' :: u) → isWord u = true → isWord' u = true) :
    ReadsList isWord' s its w := by
  induction h with
  | word hu => exact .word (hword _ (Or.inl rfl) hu)
  | last hit => exact .last hit
  | @cons t it u its w hit _ ih =>
      refine .cons hit (ih fun v hv => hword v ?_)
      obtain rfl | ⟨pre, rfl⟩ := hv
      · exact Or.inr ⟨t, rfl⟩
      · exact Or.inr ⟨t ++ ',' :: pre, by simp⟩

theorem ReadsList.ne_nil {isWord : List Char → Bool} {s : List Char} {its : List Item}
    {w : Option (List Char)} (h : ReadsList isWord s its w) (hword : isWord [] = false) : s ≠ [] := by
  cases h with
  | word hs =>
      rintro rfl
      rw [hword] at hs
      cases hs
  | last ht => exact ht.ne_nil
  | cons _ _ => simp

/-- The reader accepts exactly the grammar, where no word could be read as an item. -/
theorem readList_eq_some_iff {isWord : List Char → Bool} (hword : ∀ s, isWord s = true → readItem s = none)
    {fuel : Nat} {s : List Char} (hfuel : s.length < fuel) (its : List Item) (w : Option (List Char)) :
    readList isWord fuel s = some (its, w) ↔ ReadsList isWord s its w := by
  induction fuel generalizing s its w with
  | zero => omega
  | succ fuel ih =>
      refine ⟨fun h => ?_, fun h => ?_⟩
      · rw [readList] at h
        by_cases hw : isWord s = true
        · rw [if_pos hw, Option.some.injEq, Prod.mk.injEq] at h
          obtain ⟨rfl, rfl⟩ := h
          exact .word hw
        rw [if_neg hw] at h
        cases hitem : readItem s with
        | none => rw [hitem] at h; cases h
        | some r =>
            obtain ⟨it, rest⟩ := r
            obtain ⟨t, rfl, ht⟩ := readsItem_of_readItem hitem
            rw [hitem] at h
            cases rest with
            | nil =>
                dsimp only at h
                rw [Option.some.injEq, Prod.mk.injEq] at h
                obtain ⟨rfl, rfl⟩ := h
                rw [List.append_nil]
                exact .last ht
            | cons c rest =>
                dsimp only at h
                by_cases hcomma : c = ','
                · rw [if_pos hcomma] at h
                  have hlen : rest.length < fuel := by
                    rw [List.length_append, List.length_cons] at hfuel
                    omega
                  cases hrest : readList isWord fuel rest with
                  | none => rw [hrest] at h; cases h
                  | some r =>
                      obtain ⟨its', w'⟩ := r
                      rw [hrest] at h
                      dsimp only at h
                      rw [Option.some.injEq, Prod.mk.injEq] at h
                      obtain ⟨rfl, rfl⟩ := h
                      rw [hcomma]
                      exact .cons ht ((ih hlen its' w').mp hrest)
                · rw [if_neg hcomma] at h
                  cases h
      · rw [readList]
        cases h with
        | word hw => rw [if_pos hw]
        | last ht =>
            have hitem := readItem_append ht [] (Or.inl rfl)
            rw [List.append_nil] at hitem
            have hnot : ¬isWord s = true := by
              intro hw
              rw [hword s hw] at hitem
              cases hitem
            rw [if_neg hnot, hitem]
        | @cons t it s its w ht hs =>
            have hitem := readItem_append ht (',' :: s) (Or.inr rfl)
            have hnot : ¬isWord (t ++ ',' :: s) = true := by
              intro hw
              rw [hword _ hw] at hitem
              cases hitem
            have hlen : s.length < fuel := by
              rw [List.length_append, List.length_cons] at hfuel
              omega
            rw [if_neg hnot, hitem]
            dsimp only
            rw [if_pos rfl, (ih hlen its w).mpr hs]

theorem ReadsItem.cons_space {t : List Char} {it : Item} (h : ReadsItem t it) {c : Char}
    (hc : CString.isspace c = true) : ReadsItem (c :: t) it := by
  cases h with
  | one hv => exact .one (hv.cons_space hc)
  | range hv hw => exact .range (hv.cons_space hc) hw

/-- Items with commas between them make a list. -/
theorem readsList_intercalate {α : Type*} (isWord : List Char → Bool) {text : α → List Char} {item : α → Item}
    {xs : List α} (h : ∀ x ∈ xs, ReadsItem (text x) (item x)) (hne : xs ≠ []) :
    ReadsList isWord ([','].intercalate (xs.map text)) (xs.map item) none := by
  induction xs with
  | nil => exact absurd rfl hne
  | cons x xs ih =>
      rw [List.forall_mem_cons] at h
      cases xs with
      | nil =>
          rw [List.map_singleton, List.map_singleton, List.intercalate_singleton]
          exact .last h.1
      | cons y ys =>
          have htail := ih h.2 (List.cons_ne_nil y ys)
          rw [List.map_cons, List.map_cons, List.intercalate_cons_of_ne_nil (by simp), List.append_assoc]
          exact .cons h.1 htail

/-! ### Numbers in a row -/

/-- Numerals with white space between them. -/
inductive ReadsRow : List Char → List Nat → Prop where
  | done {s} : (∀ c ∈ s, CString.isspace c = true) → ReadsRow s []
  | number {t s v vs} : Numeral t v → (∀ c, s.head? = some c → CString.isspace c = true) → ReadsRow s vs →
      ReadsRow (t ++ s) (v :: vs)

theorem readNumber_eq_some {s : List Char} {r : Nat × List Char} :
    readNumber s = some r ↔ (strtoul 0 s).2 ≠ s ∧ strtoul 0 s = r := by
  rw [readNumber]
  split
  · next h => simp [h]
  · next h => simp [h]

theorem readNumber_eq_none {s : List Char} : readNumber s = none ↔ (strtoul 0 s).2 = s := by
  rw [readNumber]
  split
  · next h => simp [h]
  · next h => simp [h]

theorem readNumber_of_isspace {s : List Char} (h : ∀ c ∈ s, CString.isspace c = true) : readNumber s = none := by
  have hscan : scan 0 s = none := by
    rw [scan, List.dropWhile_eq_nil_iff.mpr h]
    decide
  rw [readNumber_eq_none, strtoul, hscan]

/-- The first number of a row is read, and what is left is the rest of the row. -/
theorem ReadsRow.readNumber_cons {s : List Char} {v : Nat} {vs : List Nat} (h : ReadsRow s (v :: vs)) :
    ∃ rest, readNumber s = some (v, rest) ∧ ReadsRow rest vs := by
  cases h with
  | @number t rest v vs ht hspace hrest =>
      refine ⟨rest, readNumber_append ht fun c hc => ?_, hrest⟩
      exact CString.digitVal_of_isspace (hspace c hc)

theorem ReadsRow.readNumber_nil {s : List Char} (h : ReadsRow s []) : readNumber s = none := by
  cases h with
  | done hs => exact readNumber_of_isspace hs

theorem ReadsRow.ne_nil {s : List Char} {v : Nat} {vs : List Nat} (h : ReadsRow s (v :: vs)) : s ≠ [] := by
  cases h with
  | number ht hspace hrest => simp [ht.1]

/-- White space in front of a row is skipped. -/
theorem ReadsRow.cons_space {s : List Char} {vs : List Nat} (h : ReadsRow s vs) {c : Char}
    (hc : CString.isspace c = true) : ReadsRow (c :: s) vs := by
  cases h with
  | done hs => exact .done (List.forall_mem_cons.mpr ⟨hc, hs⟩)
  | number ht hspace hrest => exact .number (ht.cons_space hc) hspace hrest

theorem ReadsRow.replicate_append {s : List Char} {vs : List Nat} (h : ReadsRow s vs) {c : Char}
    (hc : CString.isspace c = true) (k : Nat) : ReadsRow (List.replicate k c ++ s) vs := by
  induction k with
  | zero => exact h
  | succ k ih => exact ih.cons_space hc

end NumberList
