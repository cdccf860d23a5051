/-
  Lists that are linked in place, with the last item found from the first.

  `next` and `prev` are functions on the items. `Linked next prev before l after`: the items of `l`, in order,
  are linked both ways, the first one back to `before` and the last one on to `after`.
  `Ring next prev l`: nothing comes after the last item, and before the first one is the last.

  The rules say what assignments do to a segment. An end can be linked anew (`Linked.setPrev`,
  `Linked.setNext`), an item that is not in it does not matter (`linked_update_next`,
  `linked_update_prev`), and two segments are one if they are linked to each other (`linked_append`).
  What it takes to add an item, to take one out and to put one in the place of another is put together from
  these, by where in the ring that is.
-/
import Mathlib.Data.List.Basic
import Mathlib.Logic.Function.Basic

namespace CLib

variable {α : Type}

/-! ## Segments -/

def Linked (next prev : α → Option α) : Option α → List α → Option α → Prop
  | _, [], _ => True
  | before, a :: l, after =>
    prev a = before ∧ next a = l.head?.or after ∧ Linked next prev (some a) l after

section

variable {next prev next' prev' : α → Option α} {before after before' after' : Option α} {l m : List α}
  {a : α}

theorem linked_append : Linked next prev before (l ++ m) after ↔
    Linked next prev before l (m.head?.or after) ∧ Linked next prev (l.getLast?.or before) m after := by
  induction l generalizing before with
  | nil => exact (and_iff_right trivial).symm
  | cons a l ih =>
    have hlast : (a :: l).getLast?.or before = l.getLast?.or (some a) := by
      rw [List.getLast?_cons, Option.some_or, Option.or_some]
    rw [List.cons_append, Linked, Linked, ih, hlast, List.head?_append, Option.or_assoc]
    tauto

/-- Only the items of a segment matter. -/
theorem linked_congr (hnext : ∀ a ∈ l, next a = next' a) (hprev : ∀ a ∈ l, prev a = prev' a) :
    Linked next prev before l after ↔ Linked next' prev' before l after := by
  induction l generalizing before with
  | nil => exact Iff.rfl
  | cons a l ih =>
    rw [Linked, Linked, hnext a (List.mem_cons_self ..), hprev a (List.mem_cons_self ..),
      ih (fun b hb => hnext b (List.mem_cons_of_mem _ hb))
        (fun b hb => hprev b (List.mem_cons_of_mem _ hb))]

variable [DecidableEq α]

theorem linked_update_next (ha : a ∉ l) (x : Option α) :
    Linked (Function.update next a x) prev before l after ↔ Linked next prev before l after :=
  linked_congr (fun _ hb => Function.update_of_ne (ne_of_mem_of_not_mem hb ha) ..) fun _ _ => rfl

theorem linked_update_prev (ha : a ∉ l) (x : Option α) :
    Linked next (Function.update prev a x) before l after ↔ Linked next prev before l after :=
  linked_congr (fun _ _ => rfl) fun _ hb => Function.update_of_ne (ne_of_mem_of_not_mem hb ha) ..

/-- The first item is linked back to something else. -/
theorem Linked.setPrev (h : Linked next prev before l after) (hhead : l.head? = some a)
    (hnodup : l.Nodup) (before' : Option α) :
    Linked next (Function.update prev a before') before' l after := by
  cases l with
  | nil => trivial
  | cons b l =>
    cases hhead
    obtain ⟨-, hnext, hrest⟩ := h
    have ha := (List.nodup_cons.mp hnodup).1
    exact ⟨Function.update_self .., hnext, (linked_update_prev ha _).mpr hrest⟩

/-- The last item is linked on to something else. -/
theorem Linked.setNext (h : Linked next prev before l after) (hlast : l.getLast? = some a)
    (hnodup : l.Nodup) (after' : Option α) :
    Linked (Function.update next a after') prev before l after' := by
  obtain ⟨l, rfl⟩ := List.getLast?_eq_some_iff.mp hlast
  have ha : a ∉ l := fun hmem =>
    (List.nodup_append.mp hnodup).2.2 a hmem a (List.mem_singleton_self a) rfl
  rw [linked_append] at h ⊢
  obtain ⟨hfront, hprev, -⟩ := h
  exact ⟨(linked_update_next ha _).mpr hfront, hprev, Function.update_self .., trivial⟩

end

/-! ## Rings -/

def Ring (next prev : α → Option α) (l : List α) : Prop := Linked next prev l.getLast? l none

section

variable {next prev next' prev' : α → Option α} {l u v : List α} {a b c x : α}

theorem ring_nil : Ring next prev [] := trivial

theorem ring_congr (hnext : ∀ a ∈ l, next a = next' a) (hprev : ∀ a ∈ l, prev a = prev' a) :
    Ring next prev l ↔ Ring next' prev' l := linked_congr hnext hprev

/-- A ring, cut in front of an item. -/
theorem ring_append : Ring next prev (u ++ x :: v) ↔
    Linked next prev (x :: v).getLast? u (some x) ∧
      prev x = u.getLast?.or (x :: v).getLast? ∧ next x = v.head? ∧
        Linked next prev (some x) v none := by
  have hlast : (u ++ x :: v).getLast? = (x :: v).getLast? := by
    rw [List.getLast?_append, List.getLast?_cons, Option.some_or]
  unfold Ring
  rw [linked_append, hlast, List.head?_cons, Option.some_or, Linked, Option.or_none]

theorem ring_cons : Ring next prev (x :: v) ↔
    prev x = (x :: v).getLast? ∧ next x = v.head? ∧ Linked next prev (some x) v none := by
  unfold Ring
  rw [Linked, Option.or_none]

/-- The first item leads to the last. -/
theorem Ring.prev_head (h : Ring next prev l) (hhead : l.head? = some a) : prev a = l.getLast? := by
  cases l with
  | nil => cases hhead
  | cons b l =>
    cases hhead
    exact h.1

theorem getLast?_cons_of_head? (hhead : v.head? = some b) : (x :: v).getLast? = v.getLast? :=
  List.getLast?_cons_of_ne_nil fun hnil => by
    rw [hnil] at hhead
    cases hhead

variable [DecidableEq α]

/-! ### An item more -/

theorem ring_singleton (x : α) :
    Ring (Function.update next x none) (Function.update prev x (some x)) [x] :=
  ⟨Function.update_self .., Function.update_self .., trivial⟩

/-- Behind the last item. -/
theorem Ring.push (h : Ring next prev l) (hhead : l.head? = some a) (hlast : l.getLast? = some c)
    (hnodup : l.Nodup) (hx : x ∉ l) (hnext : next x = none) :
    Ring (Function.update next c (some x))
      (Function.update (Function.update prev x (some c)) a (some x)) (l ++ [x]) := by
  have hne : ∀ {b : α}, b ∈ l → x ≠ b := fun hmem heq => hx (heq ▸ hmem)
  have ha : x ≠ a := hne (List.mem_of_mem_head? hhead)
  have hc : x ≠ c := hne (List.mem_of_getLast? hlast)
  refine ring_append.mpr ⟨?_, ?_, ?_, trivial⟩
  · have hsegment := Linked.setNext h hlast hnodup (some x)
    exact Linked.setPrev ((linked_update_prev hx _).mpr hsegment) hhead hnodup _
  · rw [Function.update_of_ne ha, Function.update_self, hlast]
    rfl
  · rw [Function.update_of_ne hc, hnext]
    rfl

/-- In front of the first item. -/
theorem Ring.insertFirst (h : Ring next prev (a :: v)) (hnodup : (a :: v).Nodup) (hx : x ∉ a :: v) :
    Ring (Function.update next x (some a))
      (Function.update (Function.update prev x (prev a)) a (some x)) (x :: a :: v) := by
  have ha : x ≠ a := fun heq => hx (heq ▸ List.mem_cons_self ..)
  refine ring_cons.mpr ⟨?_, ?_, ?_⟩
  · rw [Function.update_of_ne ha, Function.update_self, List.getLast?_cons_cons]
    exact h.1
  · exact Function.update_self ..
  · have hsegment := (linked_update_prev hx (prev a)).mpr ((linked_update_next hx (some a)).mpr h)
    exact Linked.setPrev hsegment rfl hnodup _

/-- In front of another. -/
theorem Ring.insertBefore (h : Ring next prev (u ++ a :: v)) (hlast : u.getLast? = some c)
    (hnodup : (u ++ a :: v).Nodup) (hx : x ∉ u ++ a :: v) :
    Ring (Function.update (Function.update next x (some a)) c (some x))
      (Function.update (Function.update prev x (prev a)) a (some x)) (u ++ x :: a :: v) := by
  obtain ⟨hnodupU, hnodupV, hdisjoint⟩ := List.nodup_append.mp hnodup
  have hxU : x ∉ u := fun hmem => hx (List.mem_append_left _ hmem)
  have hxV : x ∉ a :: v := fun hmem => hx (List.mem_append_right _ hmem)
  have hcV : c ∉ a :: v := fun hmem => hdisjoint c (List.mem_of_getLast? hlast) c hmem rfl
  have haU : a ∉ u := fun hmem => hdisjoint a hmem a (List.mem_cons_self ..) rfl
  have hxa : x ≠ a := fun heq => hxV (heq ▸ List.mem_cons_self ..)
  have hxc : x ≠ c := fun heq => hxU (heq ▸ List.mem_of_getLast? hlast)
  have hprev : prev a = some c := by
    rw [(ring_append.mp h).2.1, hlast]
    rfl
  unfold Ring at h
  rw [linked_append] at h
  obtain ⟨hU, hV⟩ := h
  refine ring_append.mpr ⟨?_, ?_, ?_, ?_⟩
  · rw [linked_update_prev haU, linked_update_prev hxU, List.getLast?_cons_cons]
    rw [List.getLast?_append, List.getLast?_cons, Option.some_or, ← List.getLast?_cons] at hU
    exact Linked.setNext ((linked_update_next hxU _).mpr hU) hlast hnodupU _
  · rw [Function.update_of_ne hxa, Function.update_self, hprev, hlast]
    rfl
  · rw [Function.update_of_ne hxc, Function.update_self]
    rfl
  · have hsegment := (linked_update_next hcV (some x)).mpr ((linked_update_next hxV (some a)).mpr hV)
    exact Linked.setPrev ((linked_update_prev hxV _).mpr hsegment) rfl hnodupV _

/-! ### An item less -/

theorem Ring.removeFirst (h : Ring next prev (x :: v)) (hhead : v.head? = some b)
    (hnodup : (x :: v).Nodup) : Ring next (Function.update prev b (prev x)) v := by
  obtain ⟨hprev, -, hrest⟩ := ring_cons.mp h
  rw [hprev, getLast?_cons_of_head? hhead]
  exact Linked.setPrev hrest hhead (List.nodup_cons.mp hnodup).2 _

theorem Ring.removeLast (h : Ring next prev (u ++ [x])) (hhead : u.head? = some a)
    (hlast : u.getLast? = some c) (hnodup : (u ++ [x]).Nodup) :
    Ring (Function.update next c (next x)) (Function.update prev a (prev x)) u := by
  obtain ⟨hfront, hprev, hnext, -⟩ := ring_append.mp h
  have hnodupU := (List.nodup_append.mp hnodup).1
  rw [hlast, Option.some_or] at hprev
  rw [hprev, hnext, ← hlast]
  exact Linked.setPrev (Linked.setNext hfront hlast hnodupU _) hhead hnodupU _

theorem Ring.removeBetween (h : Ring next prev (u ++ x :: v)) (hlast : u.getLast? = some c)
    (hhead : v.head? = some b) (hnodup : (u ++ x :: v).Nodup) :
    Ring (Function.update next c (next x)) (Function.update prev b (prev x)) (u ++ v) := by
  obtain ⟨hU, hprev, hnext, hV⟩ := ring_append.mp h
  obtain ⟨hnodupU, hnodupV, hdisjoint⟩ := List.nodup_append.mp hnodup
  have hbU : b ∉ u := fun hmem =>
    hdisjoint b hmem b (List.mem_cons_of_mem _ (List.mem_of_mem_head? hhead)) rfl
  have hcV : c ∉ v := fun hmem =>
    hdisjoint c (List.mem_of_getLast? hlast) c (List.mem_cons_of_mem _ hmem) rfl
  have hlastV : (u ++ v).getLast? = (x :: v).getLast? := by
    rw [getLast?_cons_of_head? hhead, List.getLast?_append]
    cases hv : v.getLast? with
    | some d => rfl
    | none => rw [List.getLast?_eq_none_iff.mp hv] at hhead; cases hhead
  unfold Ring
  rw [linked_append, hlastV, hlast, Option.some_or, hhead, Option.some_or]
  rw [hlast, Option.some_or] at hprev
  rw [hprev, hnext, hhead]
  constructor
  · exact (linked_update_prev hbU _).mpr (Linked.setNext hU hlast hnodupU _)
  · exact Linked.setPrev ((linked_update_next hcV _).mpr hV) hhead (List.nodup_cons.mp hnodupV).2 _

/-! ### An item for another -/

theorem Ring.replaceFirst (h : Ring next prev (x :: v)) (hhead : v.head? = some b)
    (hnodup : (x :: v).Nodup) {r : α} (hr : r ∉ x :: v) :
    Ring (Function.update next r (next x))
      (Function.update (Function.update prev r (prev x)) b (some r)) (r :: v) := by
  obtain ⟨hprev, hnext, hrest⟩ := ring_cons.mp h
  have hrV : r ∉ v := fun hmem => hr (List.mem_cons_of_mem _ hmem)
  have hrb : r ≠ b := fun heq => hrV (heq ▸ List.mem_of_mem_head? hhead)
  refine ring_cons.mpr ⟨?_, ?_, ?_⟩
  · rw [Function.update_of_ne hrb, Function.update_self, hprev, getLast?_cons_of_head? hhead,
      getLast?_cons_of_head? hhead]
  · rw [Function.update_self, hnext]
  · have hsegment := (linked_update_prev hrV (prev x)).mpr ((linked_update_next hrV (next x)).mpr hrest)
    exact Linked.setPrev hsegment hhead (List.nodup_cons.mp hnodup).2 _

end

end CLib
