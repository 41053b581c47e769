import Mathlib.Data.List.Basic

/-! Looking up named lines of a text. A line begins with its name, and a lookup takes the first line that does; what
stands in the middle of a line is not found. -/

namespace FieldLines

variable {α : Type} [DecidableEq α]

/-- Lines, each with its end. -/
def text (eol : α) (lines : List (List α)) : List α := lines.flatMap (· ++ [eol])

/-- What is behind the name in the first of the lines that begin with it. -/
def find (name : List α) (lines : List (List α)) : Option (List α) :=
  (lines.find? name.isPrefixOf).map (·.drop name.length)

/-- A lookup in a text. -/
def field (eol : α) (name s : List α) : Option (List α) := find name (s.splitOn eol)

variable {eol : α} {name : List α}

theorem find_append (lines lines' : List (List α)) :
    find name (lines ++ lines') = (find name lines).or (find name lines') := by
  rw [find, find, find, List.find?_append]
  cases lines.find? name.isPrefixOf with
  | none => rfl
  | some line => rfl

theorem find_cons_self (value : List α) (lines : List (List α)) : find name ((name ++ value) :: lines) = some value := by
  have hname : name.isPrefixOf (name ++ value) = true := List.isPrefixOf_iff_prefix.mpr (List.prefix_append name value)
  rw [find, List.find?_cons_of_pos hname, Option.map_some, List.drop_left]

theorem find_cons_of_false {line : List α} (h : name.isPrefixOf line = false) (lines : List (List α)) :
    find name (line :: lines) = find name lines := by
  rw [find, List.find?_cons_of_neg (by rw [h]; exact Bool.false_ne_true), find]

/-- Neither of two names that differ where both have a letter begins a line that begins with the other. -/
theorem isPrefixOf_append_eq_false {name' : List α} (h : ¬name <+: name') (h' : ¬name' <+: name) (value : List α) :
    name.isPrefixOf (name' ++ value) = false := by
  rw [Bool.eq_false_iff]
  intro hprefix
  rcases List.prefix_or_prefix_of_prefix (List.isPrefixOf_iff_prefix.mp hprefix) (List.prefix_append name' value) with
    hname | hname
  · exact h hname
  · exact h' hname

/-- Where the names of the lines are the one looked for or differ from it as above, a lookup finds the value of the first
line of that name. -/
theorem find_labelled {fields : List (List α × List α)}
    (h : ∀ f ∈ fields, name = f.1 ∨ ¬name <+: f.1 ∧ ¬f.1 <+: name) :
    find name (fields.map fun f => f.1 ++ f.2) = fields.lookup name := by
  induction fields with
  | nil => rfl
  | cons f fields ih =>
      rw [List.forall_mem_cons] at h
      obtain ⟨hf, hfields⟩ := h
      obtain ⟨label, value⟩ := f
      rw [List.map_cons]
      rcases hf with rfl | ⟨hname, hlabel⟩
      · rw [find_cons_self, List.lookup_cons_self]
      · have hne : (name == label) = false := by
          rw [beq_eq_false_iff_ne]
          rintro rfl
          exact hname (List.prefix_refl name)
        rw [find_cons_of_false (isPrefixOf_append_eq_false hname hlabel value), ih hfields, List.lookup_cons, hne]

theorem splitOn_text {lines : List (List α)} (h : ∀ line ∈ lines, eol ∉ line) :
    (text eol lines).splitOn eol = lines ++ [[]] := by
  induction lines with
  | nil => rfl
  | cons line lines ih =>
      rw [List.forall_mem_cons] at h
      have happend : text eol (line :: lines) = line ++ eol :: text eol lines := by
        rw [text, List.flatMap_cons, List.append_assoc]
        rfl
      rw [happend, List.splitOn_append_cons_self_of_not_mem h.1, ih h.2]
      rfl

/-- A lookup in a text is a lookup in its lines. -/
theorem field_text {lines : List (List α)} (h : ∀ line ∈ lines, eol ∉ line) (hname : name ≠ []) :
    field eol name (text eol lines) = find name lines := by
  have hempty : find name [[]] = none := by
    rw [find_cons_of_false]
    · rfl
    · rw [Bool.eq_false_iff]
      exact fun hprefix => hname (List.prefix_nil.mp (List.isPrefixOf_iff_prefix.mp hprefix))
  rw [field, splitOn_text h, find_append, hempty, Option.or_none]

/-- A lookup in a text of named lines. -/
theorem field_labelled {fields : List (List α × List α)} (heol : ∀ f ∈ fields, eol ∉ f.1 ++ f.2) (hname : name ≠ [])
    (h : ∀ f ∈ fields, name = f.1 ∨ ¬name <+: f.1 ∧ ¬f.1 <+: name) :
    field eol name (text eol (fields.map fun f => f.1 ++ f.2)) = fields.lookup name := by
  rw [field_text _ hname, find_labelled h]
  intro line hline
  obtain ⟨f, hf, rfl⟩ := List.mem_map.mp hline
  exact heol f hf

end FieldLines
