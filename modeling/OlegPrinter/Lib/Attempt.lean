/-
  Functions that work on a state and say whether they succeeded.

  `Attempt σ α` runs from a state: it accepts with a value, it rejects, and both leave a state
  behind; or it faults, by reading or writing outside an object, by the use of a pointer to none,
  or by a loop that goes on longer than the turns it is given. A fault is never a result: it ends whatever it is part of.

  `p.Meets Q R s`: from `s`, `p` does not fault, what it accepts satisfies `Q`, and where it
  rejects the state satisfies `R`. The rules follow the way attempts are built: `meets_bind` for
  sequences, `meets_onReject` for cleaning up behind a failure, `meets_turns` for loops (with
  an invariant indexed by the turns that are left).

  `Yields r Q R` is the same for a result that may be missing, with `yields_bind` and `yields_mono`.
-/
import Mathlib.Data.Nat.Notation

namespace CLib

/-- What must not happen. -/
inductive Fault where
  | outOfBounds
  | badPointer
  | outOfTurns
  deriving DecidableEq

inductive Attempted (σ α : Type) where
  | accept (a : α) (s : σ)
  | reject (s : σ)
  | fault (f : Fault)
  deriving DecidableEq

def Attempt (σ α : Type) : Type := σ → Attempted σ α

namespace Attempt

variable {σ τ ρ α β : Type}

def bind (p : Attempt σ α) (f : α → Attempt σ β) : Attempt σ β := fun s =>
  match p s with
  | .accept a s' => f a s'
  | .reject s' => .reject s'
  | .fault e => .fault e

instance : Monad (Attempt σ) where
  pure a := fun s => .accept a s
  bind := Attempt.bind

/-- The state. -/
def get : Attempt σ σ := fun s => .accept s s

def modify (f : σ → σ) : Attempt σ Unit := fun s => .accept () (f s)

def reject : Attempt σ α := fun s => .reject s

def fault (f : Fault) : Attempt σ α := fun _ => .fault f

/-- Only if `c`. -/
def when (c : Prop) [Decidable c] (p : Attempt σ Unit) : Attempt σ Unit := if c then p else pure ()

/-- Clean up if `p` rejects. -/
def onReject (p : Attempt σ α) (g : σ → σ) : Attempt σ α := fun s =>
  match p s with
  | .accept a s' => .accept a s'
  | .reject s' => .reject (g s')
  | .fault e => .fault e

/-- Repeat `body`, in at most `n` turns. A turn leaves the loop with a result, or goes on with new
    values of its variables. -/
def turns (body : τ → Attempt σ (ρ ⊕ τ)) : ℕ → τ → Attempt σ ρ
  | 0, _ => fault .outOfTurns
  | n + 1, t => body t >>= fun r =>
    match r with
    | .inl x => pure x
    | .inr t' => turns body n t'

/-- The first part of a sequence has accepted. -/
theorem bind_accept {p : Attempt σ α} {f : α → Attempt σ β} {s s' : σ} {a : α} (h : p s = .accept a s') :
    (p >>= f) s = f a s' := by
  show p.bind f s = f a s'
  rw [bind, h]

theorem bind_fault {p : Attempt σ α} {f : α → Attempt σ β} {s : σ} {e : Fault} (h : p s = .fault e) :
    (p >>= f) s = .fault e := by
  show p.bind f s = .fault e
  rw [bind, h]

/-! ## What an attempt meets -/

/-- From `s` on, no fault; `Q` if it accepts, `R` if it rejects. -/
def Meets (p : Attempt σ α) (Q : α → σ → Prop) (R : σ → Prop) (s : σ) : Prop :=
  match p s with
  | .accept a s' => Q a s'
  | .reject s' => R s'
  | .fault _ => False

variable {p : Attempt σ α} {f : α → Attempt σ β} {Q Q' : α → σ → Prop} {R R' : σ → Prop} {s : σ}

theorem meets_accept {a : α} {s' : σ} (h : p s = .accept a s') : p.Meets Q R s ↔ Q a s' := by
  rw [Meets, h]

theorem meets_rejected {s' : σ} (h : p s = .reject s') : p.Meets Q R s ↔ R s' := by
  rw [Meets, h]

/-- Only what `p` does in this state matters. -/
theorem meets_congr {q : Attempt σ α} (h : p s = q s) : p.Meets Q R s ↔ q.Meets Q R s := by
  unfold Meets
  rw [h]

@[simp] theorem meets_pure {a : α} : (pure a : Attempt σ α).Meets Q R s ↔ Q a s := Iff.rfl

@[simp] theorem meets_get {Q : σ → σ → Prop} : (get : Attempt σ σ).Meets Q R s ↔ Q s s := Iff.rfl

@[simp] theorem meets_modify {g : σ → σ} {Q : Unit → σ → Prop} :
    (modify g).Meets Q R s ↔ Q () (g s) := Iff.rfl

@[simp] theorem meets_reject : (reject : Attempt σ α).Meets Q R s ↔ R s := Iff.rfl

@[simp] theorem not_meets_fault {e : Fault} : ¬ (fault e : Attempt σ α).Meets Q R s := id

/-- A sequence rejects where its first part does, or else its second. -/
@[simp] theorem meets_bind {Q : β → σ → Prop} :
    (p >>= f).Meets Q R s ↔ p.Meets (fun a => (f a).Meets Q R) R s := by
  show (p.bind f).Meets Q R s ↔ _
  unfold Meets bind
  cases p s with
  | accept a s' => rfl
  | reject s' => rfl
  | fault e => rfl

@[simp] theorem meets_onReject {g : σ → σ} :
    (p.onReject g).Meets Q R s ↔ p.Meets Q (fun s' => R (g s')) s := by
  unfold Meets onReject
  cases p s with
  | accept a s' => rfl
  | reject s' => rfl
  | fault e => rfl

section

variable {c : Prop} [Decidable c] {p : Attempt σ Unit} {f : Unit → Attempt σ α}

theorem meets_when (hc : c) (h : p.Meets (fun a s' => (f a).Meets Q R s') R s) :
    (when c p >>= f).Meets Q R s := by
  rw [meets_bind, when, if_pos hc]
  exact h

theorem meets_unless (hc : ¬ c) (h : (f ()).Meets Q R s) : (when c p >>= f).Meets Q R s := by
  rw [meets_bind, when, if_neg hc]
  exact h

end

section

variable {c : Prop} [Decidable c] {p : Attempt σ Unit} {Q : Unit → σ → Prop}

end

theorem meets_mono (hQ : ∀ a s', Q a s' → Q' a s') (hR : ∀ s', R s' → R' s')
    (h : p.Meets Q R s) : p.Meets Q' R' s := by
  unfold Meets at h ⊢
  cases hp : p s with
  | accept a s' => rw [hp] at h; exact hQ a s' h
  | reject s' => rw [hp] at h; exact hR s' h
  | fault e => rw [hp] at h; exact h

/-- An attempt that cannot reject accepts. -/
theorem accepts_of_meets (h : p.Meets Q (fun _ => False) s) : ∃ a s', p s = .accept a s' ∧ Q a s' := by
  unfold Meets at h
  cases hp : p s with
  | accept a s' => rw [hp] at h; exact ⟨a, s', rfl, h⟩
  | reject s' => rw [hp] at h; exact h.elim
  | fault e => rw [hp] at h; exact h.elim

theorem meets_turns_succ {body : τ → Attempt σ (ρ ⊕ τ)} {Q : ρ → σ → Prop} {n : ℕ} {t : τ} :
    (turns body (n + 1) t).Meets Q R s ↔
      (body t).Meets (fun r s' => match r with
        | .inl x => Q x s'
        | .inr t' => (turns body n t').Meets Q R s') R s := by
  rw [turns, meets_bind]
  constructor
  · refine meets_mono (fun r s' h => ?_) fun _ h => h
    cases r with
    | inl x => exact h
    | inr t' => exact h
  · refine meets_mono (fun r s' h => ?_) fun _ h => h
    cases r with
    | inl x => exact h
    | inr t' => exact h

/-- Loops: an invariant that a turn keeps until it leaves, and that does not hold when there are
    no turns left. -/
theorem meets_turns {body : τ → Attempt σ (ρ ⊕ τ)} {Q : ρ → σ → Prop} (Inv : ℕ → τ → σ → Prop)
    (hzero : ∀ t s, ¬ Inv 0 t s)
    (hturn : ∀ n t s, Inv (n + 1) t s → (body t).Meets (fun r s' => match r with
      | .inl x => Q x s'
      | .inr t' => Inv n t' s') R s)
    (n : ℕ) {t : τ} (h : Inv n t s) : (turns body n t).Meets Q R s := by
  induction n generalizing t s with
  | zero => exact absurd h (hzero t s)
  | succ n ih =>
    rw [meets_turns_succ]
    refine meets_mono (fun r s' hr => ?_) (fun _ h => h) (hturn n t s h)
    cases r with
    | inl x => exact hr
    | inr t' => exact ih hr

end Attempt

/-! ## Results that may be missing -/

/-- A result that satisfies `Q`, or `R` and none. -/
def Yields {α : Type} (r : Option α) (Q : α → Prop) (R : Prop) : Prop :=
  match r with
  | some a => Q a
  | none => R

section

variable {α β : Type} {r : Option α} {Q Q' : α → Prop} {R R' : Prop}

@[simp] theorem yields_some {a : α} : Yields (some a) Q R ↔ Q a := Iff.rfl

@[simp] theorem yields_pure {a : α} : Yields (pure a) Q R ↔ Q a := Iff.rfl

@[simp] theorem yields_none : Yields (none : Option α) Q R ↔ R := Iff.rfl

@[simp] theorem yields_bind {f : α → Option β} {Q : β → Prop} :
    Yields (r >>= f) Q R ↔ Yields r (fun a => Yields (f a) Q R) R := by
  cases r with
  | some a => rfl
  | none => rfl

theorem yields_mono (hQ : ∀ a, Q a → Q' a) (hR : R → R') (h : Yields r Q R) : Yields r Q' R' := by
  cases r with
  | some a => exact hQ a h
  | none => exact hR h

end

end CLib
