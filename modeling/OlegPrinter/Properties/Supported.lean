/-
  When `show_supported` ends.

  The recursion is chosen by `option` being NULL, and goes on with a string from the printer's
  answer. `showSupported_null`: an element of `job-creation-attributes` that is not a string sends
  it back to where it came from, at any depth. `listsAll_iff`: without one it ends, with one entry
  for each element.
-/
import OlegPrinter.Examples.ShowSupported
import Mathlib.Logic.Relation
import Mathlib.Data.Set.List

namespace OlegPrinter.Examples

open CLib

/-- A call with the first option makes one with the second. -/
def Recurs (info : DestInfo) (option option' : Option CStr) : Prop := option' ∈ info.recursions option

/-- The options with an entry, in order. -/
def entries (lines : List Line) : List CStr :=
  lines.filterMap fun line =>
    match line with
    | .option name => some name
    | _ => none

/-- Started without an option the recursion ends, shows one entry for each listed element in order,
    and never comes back to a call without an option. -/
def ListsAll (info : DestInfo) : Prop :=
  (∃ n lines, showSupported info n none none = some lines ∧
      (entries lines).map some = info.recursions none) ∧
    ¬ Relation.TransGen (Recurs info) none none

variable {info : DestInfo}

/-- A NULL among the elements: no depth is enough. -/
theorem showSupported_null (h : none ∈ info.recursions none) (n : ℕ) :
    showSupported info n none none = none := by
  induction n with
  | zero => rfl
  | succ n ih =>
    have hloop : forEach (fun option => showSupported info n option none) (info.recursions none) =
        none := forEach_eq_none h ih
    rw [showSupported, hloop]
    rfl

theorem entries_append (lines lines' : List Line) :
    entries (lines ++ lines') = entries lines ++ entries lines' := List.filterMap_append

/-- The values of an option are no entries. -/
theorem entries_attributeLines (option : CStr) (attr : Attribute) :
    entries (attributeLines info option attr) = [] := by
  unfold entries attributeLines
  rw [List.filterMap_eq_nil_iff]
  intro line hline
  cases htag : attr.valueTag with
  | resolution =>
    rw [htag] at hline
    obtain ⟨i, -, rfl⟩ := List.mem_map.mp hline
    dsimp only
    split_ifs <;> rfl
  | boolean =>
    rw [htag] at hline
    cases hline
  | other code =>
    rw [htag] at hline
    obtain rfl := List.mem_singleton.mp hline
    rfl
  | _ =>
    rw [htag] at hline
    obtain ⟨i, -, rfl⟩ := List.mem_map.mp hline
    rfl

theorem entries_valueLines (option : CStr) : entries (valueLines info option) = [] := by
  unfold valueLines
  cases info.findSupported option with
  | none => rfl
  | some attr => exact entries_attributeLines option attr

/-- What is shown of an option. -/
def optionEntry (info : DestInfo) (option : CStr) : List Line :=
  .option option :: valueLines info option

theorem entries_optionEntry (option : CStr) : entries (optionEntry info option) = [option] := by
  show option :: entries (valueLines info option) = [option]
  rw [entries_valueLines]

theorem entries_flatMap (options : List CStr) :
    entries (options.flatMap (optionEntry info)) = options := by
  induction options with
  | nil => rfl
  | cons option options ih =>
    rw [List.flatMap_cons, entries_append, entries_optionEntry, ih]
    rfl

theorem entries_heading : entries info.heading = [] := by
  unfold DestInfo.heading
  cases info.findSupported jobCreationAttributes <;> rfl

/-- Without a NULL, two levels are enough. -/
theorem showSupported_options {options : List CStr}
    (h : info.recursions none = options.map some) :
    showSupported info 2 none none =
      some (info.heading ++ options.flatMap (optionEntry info)) := by
  have hloop : forEach (fun option => showSupported info 1 (some option) none) options =
      some (options.flatMap (optionEntry info)) := forEach_eq_some _ fun _ _ => rfl
  rw [showSupported, h, forEach_map, hloop]
  rfl

/-- No element is NULL, seen from the list of recursive calls. -/
theorem none_notMem_recursions_iff (info : DestInfo) :
    none ∉ info.recursions none ↔ ∀ attr, info.findSupported jobCreationAttributes = some attr →
      ∀ i < attr.count, attr.getString i ≠ none := by
  unfold DestInfo.recursions
  cases info.findSupported jobCreationAttributes with
  | none => simp
  | some attr => simp

/-- The recursion ends, with an entry for each element, exactly when every element of
    `job-creation-attributes` is a string. -/
theorem listsAll_iff (info : DestInfo) :
    ListsAll info ↔ ∀ attr, info.findSupported jobCreationAttributes = some attr →
      ∀ i < attr.count, attr.getString i ≠ none := by
  rw [← none_notMem_recursions_iff]
  constructor
  · rintro ⟨⟨n, lines, hlines, -⟩, -⟩ hnull
    rw [showSupported_null hnull n] at hlines
    cases hlines
  · intro hnull
    obtain ⟨options, hoptions⟩ : info.recursions none ∈ Set.range (List.map some) := by
      rw [Set.range_list_map]
      intro option hoption
      cases option with
      | none => exact absurd hoption hnull
      | some option => exact ⟨option, rfl⟩
    refine ⟨⟨2, _, showSupported_options hoptions.symm, ?_⟩, fun hback => ?_⟩
    · rw [entries_append, entries_heading, List.nil_append, entries_flatMap]
      exact hoptions
    -- the first step is to an option, and from there no step is possible
    obtain ⟨option, hfirst, hrest⟩ := Relation.TransGen.head'_iff.mp hback
    rcases hrest.cases_head with rfl | ⟨option', hnext, -⟩
    · exact hnull hfirst
    · cases option with
      | none => exact hnull hfirst
      | some option => cases hnext

/-- A printer that reports `job-creation-attributes` as one integer, and nothing else. -/
def integerPrinter : DestInfo where
  findSupported option :=
    if option = jobCreationAttributes then
      some ⟨1, .integer, fun _ => none, fun _ => 1, fun _ => (0, 0), fun _ => (0, 0, .perInch),
        fun _ => []⟩
    else none
  checkSupported _ _ := false
  enumString _ _ := CStr.lit "unknown"
  tagString _ := CStr.lit "integer"

theorem listsAll_integer_false : ¬ ∀ info, ListsAll info := by
  intro h
  obtain ⟨⟨n, lines, hlines, -⟩, -⟩ := h integerPrinter
  have hnull : none ∈ integerPrinter.recursions none := by decide
  rw [showSupported_null hnull n] at hlines
  cases hlines

end OlegPrinter.Examples
