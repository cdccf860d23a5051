/-
  A `do … while (1)` loop left by `break`. `step` is the body: it leaves the loop with
  a result, or goes on in a new state. `loop step n s` is the result if the loop is
  left within `n` turns.

  Rules: a loop that is left keeps its result under more turns (`loop_mono`,
  `loop_unique`), and a loop whose state stays inside a set from which `step` never
  leaves is not left at all (`loop_eq_none_of_invariant`).

  `forEach` is a `for` loop over a list, for turns that write output.
-/
import Mathlib.Data.Nat.Notation

namespace CLib

variable {σ ρ : Type}

/-- At most `n` turns of a loop with body `step`. -/
def loop (step : σ → ρ ⊕ σ) : ℕ → σ → Option ρ
  | 0, _ => none
  | n + 1, s =>
    match step s with
    | .inl r => some r
    | .inr s' => loop step n s'

variable {step : σ → ρ ⊕ σ}

theorem loop_succ_left {s : σ} {r : ρ} (h : step s = .inl r) (n : ℕ) :
    loop step (n + 1) s = some r := by
  simp only [loop, h]

theorem loop_succ_right {s s' : σ} (h : step s = .inr s') (n : ℕ) :
    loop step (n + 1) s = loop step n s' := by
  simp only [loop, h]

/-- More turns do not change a result. -/
theorem loop_mono {n m : ℕ} {s : σ} {r : ρ} (hnm : n ≤ m) (h : loop step n s = some r) :
    loop step m s = some r := by
  induction n generalizing m s with
  | zero => simp [loop] at h
  | succ n ih =>
    obtain ⟨m, rfl⟩ : ∃ k, m = k + 1 := ⟨m - 1, by omega⟩
    cases hs : step s with
    | inl r' => rw [loop_succ_left hs] at h ⊢; exact h
    | inr s' =>
      rw [loop_succ_right hs] at h ⊢
      exact ih (by omega) h

theorem loop_unique {n m : ℕ} {s : σ} {r r' : ρ} (h : loop step n s = some r)
    (h' : loop step m s = some r') : r = r' := by
  have h1 := loop_mono (Nat.le_max_left n m) h
  have h2 := loop_mono (Nat.le_max_right n m) h'
  exact Option.some.inj (h1.symm.trans h2)

/-- A loop that stays inside a set without an exit is never left. -/
theorem loop_eq_none_of_invariant (I : σ → Prop)
    (hI : ∀ s, I s → ∃ s', step s = .inr s' ∧ I s') (n : ℕ) {s : σ} (hs : I s) :
    loop step n s = none := by
  induction n generalizing s with
  | zero => rfl
  | succ n ih =>
    obtain ⟨s', h, hs'⟩ := hI s hs
    rw [loop_succ_right h]
    exact ih hs'

/-! ## Loops over a list -/

section

variable {α β : Type} {body : α → Option (List β)}

/-- A `for` loop whose turns write output, and may not come back. -/
def forEach (body : α → Option (List β)) : List α → Option (List β)
  | [] => some []
  | a :: as => do
    let out ← body a
    let rest ← forEach body as
    pure (out ++ rest)

theorem forEach_map {γ : Type} (f : γ → α) (cs : List γ) :
    forEach body (cs.map f) = forEach (fun c => body (f c)) cs := by
  induction cs with
  | nil => rfl
  | cons c cs ih => rw [List.map_cons, forEach, forEach, ih]

/-- If all turns come back, the loop has written what they write. -/
theorem forEach_eq_some (g : α → List β) {as : List α} (h : ∀ a ∈ as, body a = some (g a)) :
    forEach body as = some (as.flatMap g) := by
  induction as with
  | nil => rfl
  | cons a as ih =>
    have ih' := ih fun b hb => h b (List.mem_cons_of_mem _ hb)
    simp [forEach, h a (List.mem_cons_self ..), ih']

/-- One turn that does not come back is enough. -/
theorem forEach_eq_none {a : α} {as : List α} (ha : a ∈ as) (h : body a = none) :
    forEach body as = none := by
  induction as with
  | nil => cases ha
  | cons b as ih =>
    rcases List.mem_cons.mp ha with rfl | ha
    · simp [forEach, h]
    · simp [forEach, ih ha]

end

end CLib
