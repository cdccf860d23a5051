/-
  Programs that make calls. `Prog C A S α` is a tree over a call signature: at each
  node the program makes a call `c : C` and goes on with the answer `a : A c`, or it
  returns a value, or it stops for a reason in `S` (an exit status, an undefined
  operation). The tree is what the source text fixes; the answers are not part of it.

  Two readings of the same tree:
  * `Prog.Step`: one call with any answer (the environment is another party, and
    its steps interleave with ours).
  * `Prog.run`: every call answered by a `Handler` with a state of its own (the
    environment is a script), with the trace of the calls made.

  `Prog.runEach` repeats a body, once for each state of a list, and hands the result
  of one turn to the next: a `while (1)` loop seen at its loop head. Its rules split a run
  into its first turn and the rest, by how that turn ends.
-/
import Mathlib.Logic.Relation
import Mathlib.Data.List.Infix

namespace CLib

/-- A program over the calls `C` (a call `c` is answered in `A c`) that returns an `α`
    or stops for a reason in `S`. -/
inductive Prog (C : Type) (A : C → Type) (S α : Type) where
  | ret (a : α)
  | stop (s : S)
  | call (c : C) (k : A c → Prog C A S α)

/-- A call together with the answer it got. -/
abbrev Event {C : Type} (A : C → Type) := (c : C) × A c

namespace Prog

variable {C : Type} {A : C → Type} {S α β : Type}

/-- Sequencing: the calls of `p`, then those of `f` at the value `p` returns. -/
def bind : Prog C A S α → (α → Prog C A S β) → Prog C A S β
  | .ret a, f => f a
  | .stop s, _ => .stop s
  | .call c k, f => .call c fun a => (k a).bind f

instance : Monad (Prog C A S) where
  pure := Prog.ret
  bind := Prog.bind

/-- Make one call and return its answer. -/
def perform (c : C) : Prog C A S (A c) := .call c .ret

@[simp] theorem pure_eq (a : α) : (pure a : Prog C A S α) = .ret a := rfl

@[simp] theorem ret_bind (a : α) (f : α → Prog C A S β) : (Prog.ret a >>= f) = f a := rfl

@[simp] theorem call_bind (c : C) (k : A c → Prog C A S α) (f : α → Prog C A S β) :
    (Prog.call c k >>= f) = .call c fun a => k a >>= f := rfl

theorem perform_eq (c : C) : (perform c : Prog C A S (A c)) = .call c .ret := rfl

@[simp] theorem perform_bind (c : C) (f : A c → Prog C A S β) :
    (perform c >>= f) = .call c f := rfl

/-! ## Small steps -/

/-- One call, with any answer. -/
inductive Step : Prog C A S α → Event A → Prog C A S α → Prop
  | call (c : C) (k : A c → Prog C A S α) (a : A c) : Step (.call c k) ⟨c, a⟩ (k a)

theorem step_call_iff {c : C} {k : A c → Prog C A S α} {e : Event A} {q : Prog C A S α} :
    Step (.call c k) e q ↔ ∃ a, e = ⟨c, a⟩ ∧ k a = q := by
  constructor
  · intro h
    cases h with
    | call _ _ a => exact ⟨a, rfl, rfl⟩
  · rintro ⟨a, rfl, rfl⟩
    exact .call c k a

theorem not_step_stop {s : S} {e : Event A} {q : Prog C A S α} : ¬ Step (.stop s) e q := by
  intro h; cases h

/-- Every call the program can ever make, whatever it is answered, satisfies `P`. -/
inductive AllCalls (P : C → Prop) : Prog C A S α → Prop
  | ret (a : α) : AllCalls P (.ret a)
  | stop (s : S) : AllCalls P (.stop s)
  | call {c : C} {k : A c → Prog C A S α} (hc : P c) (hk : ∀ a, AllCalls P (k a)) :
      AllCalls P (.call c k)

theorem AllCalls.bind {P : C → Prop} {p : Prog C A S α} {f : α → Prog C A S β}
    (h : p.AllCalls P) (hf : ∀ a, (f a).AllCalls P) : (p >>= f).AllCalls P := by
  induction h with
  | ret a => exact hf a
  | stop s => exact .stop s
  | call hc _ ih => exact .call hc ih

/-- A step makes one of those calls, and what is left makes only such calls. -/
theorem AllCalls.step {P : C → Prop} {p q : Prog C A S α} {e : Event A} (h : p.AllCalls P)
    (hs : Step p e q) : P e.1 ∧ q.AllCalls P := by
  cases hs with
  | call c k a =>
    cases h with
    | call hc hk => exact ⟨hc, hk a⟩

end Prog

/-! ## Runs against a handler -/

/-- An environment with state `σ`. A call is answered, or ends the run (the process is
    killed, or it waits for ever) for a reason in `H`. -/
structure Handler (C : Type) (A : C → Type) (H σ : Type) where
  answer : σ → (c : C) → Except H (A c × σ)

/-- An environment that answers every call. -/
def Handler.total {C : Type} {A : C → Type} {σ : Type} (f : σ → (c : C) → A c × σ) :
    Handler C A Empty σ :=
  ⟨fun s c => .ok (f s c)⟩

/-- An environment that answers a call the same way every time. -/
def Handler.answering {C : Type} {A : C → Type} (f : (c : C) → A c) : Handler C A Empty Unit :=
  ⟨fun _ c => .ok (f c, ())⟩

/-- How a run ends: with a value, by a `stop` of the program, or in a call that never
    came back. -/
inductive Outcome (C S H α : Type) where
  | returned (a : α)
  | stopped (s : S)
  | halted (c : C) (h : H)
  deriving DecidableEq

/-- A finished run: how it ended, the calls that were answered, the state left behind. -/
structure Run {C : Type} (A : C → Type) (S H σ α : Type) where
  outcome : Outcome C S H α
  trace : List (Event A)
  state : σ

namespace Run

variable {C : Type} {A : C → Type} {S H σ α β : Type}

/-- Put answered calls in front of a run. -/
def after (tr : List (Event A)) (r : Run A S H σ α) : Run A S H σ α :=
  { r with trace := tr ++ r.trace }

@[simp] theorem after_outcome (tr : List (Event A)) (r : Run A S H σ α) :
    (r.after tr).outcome = r.outcome := rfl

@[simp] theorem after_trace (tr : List (Event A)) (r : Run A S H σ α) :
    (r.after tr).trace = tr ++ r.trace := rfl

@[simp] theorem after_after (tr tr' : List (Event A)) (r : Run A S H σ α) :
    (r.after tr').after tr = r.after (tr ++ tr') := by
  simp [after]

/-- Go on from where a run left off, if it returned. -/
def andThen (k : α → σ → Run A S H σ β) : Run A S H σ α → Run A S H σ β
  | ⟨.returned a, tr, s⟩ => (k a s).after tr
  | ⟨.stopped x, tr, s⟩ => ⟨.stopped x, tr, s⟩
  | ⟨.halted c e, tr, s⟩ => ⟨.halted c e, tr, s⟩

@[simp] theorem andThen_returned (a : α) (tr : List (Event A)) (s : σ)
    (k : α → σ → Run A S H σ β) : andThen k ⟨.returned a, tr, s⟩ = (k a s).after tr := rfl

@[simp] theorem andThen_stopped (x : S) (tr : List (Event A)) (s : σ)
    (k : α → σ → Run A S H σ β) : andThen k ⟨.stopped x, tr, s⟩ = ⟨.stopped x, tr, s⟩ := rfl

@[simp] theorem after_mk (tr tr' : List (Event A)) (o : Outcome C S H α) (s : σ) :
    after tr ⟨o, tr', s⟩ = ⟨o, tr ++ tr', s⟩ := rfl

theorem andThen_after (tr : List (Event A)) (r : Run A S H σ α) (k : α → σ → Run A S H σ β) :
    (r.after tr).andThen k = (r.andThen k).after tr := by
  obtain ⟨o, tr', s⟩ := r
  cases o with
  | returned a => simp [after, andThen]
  | stopped x => rfl
  | halted c e => rfl

/-- Every call the program made: the answered ones, and the one it was halted in. -/
def calls (r : Run A S H σ α) : List C :=
  r.trace.map Sigma.fst ++
    match r.outcome with
    | .halted c _ => [c]
    | _ => []

end Run

namespace Prog

variable {C : Type} {A : C → Type} {S H σ α β : Type}

/-- Run a program, `h` answering from state `s`. -/
def run (h : Handler C A H σ) : Prog C A S α → σ → Run A S H σ α
  | .ret a, s => ⟨.returned a, [], s⟩
  | .stop x, s => ⟨.stopped x, [], s⟩
  | .call c k, s =>
    match h.answer s c with
    | .error e => ⟨.halted c e, [], s⟩
    | .ok (a, s') => ((k a).run h s').after [⟨c, a⟩]

@[simp] theorem run_ret (h : Handler C A H σ) (a : α) (s : σ) :
    (Prog.ret a : Prog C A S α).run h s = ⟨.returned a, [], s⟩ := rfl

@[simp] theorem run_stop (h : Handler C A H σ) (x : S) (s : σ) :
    (Prog.stop x : Prog C A S α).run h s = ⟨.stopped x, [], s⟩ := rfl

theorem run_call_ok {h : Handler C A H σ} {c : C} {k : A c → Prog C A S α} {s t : σ}
    {a : A c} (ha : h.answer s c = .ok (a, t)) :
    (Prog.call c k).run h s = ((k a).run h t).after [⟨c, a⟩] := by
  simp only [run, ha]

theorem run_call_error {h : Handler C A H σ} {c : C} {k : A c → Prog C A S α} {s : σ}
    {e : H} (he : h.answer s c = .error e) :
    (Prog.call c k).run h s = ⟨.halted c e, [], s⟩ := by
  simp only [run, he]

@[simp] theorem run_total_call (f : σ → (c : C) → A c × σ) (c : C) (k : A c → Prog C A S α)
    (s : σ) : (Prog.call c k).run (Handler.total f) s =
      ((k (f s c).1).run (Handler.total f) (f s c).2).after [⟨c, (f s c).1⟩] := rfl

@[simp] theorem run_answering_call (f : (c : C) → A c) (c : C) (k : A c → Prog C A S α) :
    (Prog.call c k).run (Handler.answering f) () =
      ((k (f c)).run (Handler.answering f) ()).after [⟨c, f c⟩] := rfl

/-- A sequence runs its second part where the first one left off. -/
theorem run_bind (h : Handler C A H σ) (p : Prog C A S α) (f : α → Prog C A S β) (s : σ) :
    (p >>= f).run h s = (p.run h s).andThen fun a t => (f a).run h t := by
  induction p generalizing s with
  | ret a => rfl
  | stop x => rfl
  | call c k ih =>
    cases hc : h.answer s c with
    | error e =>
      rw [call_bind, run_call_error hc, run_call_error hc]
      rfl
    | ok as =>
      obtain ⟨b, t⟩ := as
      rw [call_bind, run_call_ok hc, run_call_ok hc, ih b, Run.andThen_after]

/-- Sequencing, when the first part returns. -/
theorem run_bind_returned {h : Handler C A H σ} {p : Prog C A S α} {s s' : σ} {a : α}
    {tr : List (Event A)} (hp : p.run h s = ⟨.returned a, tr, s'⟩)
    (f : α → Prog C A S β) :
    (p >>= f).run h s = ((f a).run h s').after tr := by
  rw [run_bind, hp, Run.andThen]

/-- Sequencing, when the first part stops: the rest is never reached. -/
theorem run_bind_stopped {h : Handler C A H σ} {p : Prog C A S α} {s s' : σ} {x : S}
    {tr : List (Event A)} (hp : p.run h s = ⟨.stopped x, tr, s'⟩)
    (f : α → Prog C A S β) :
    (p >>= f).run h s = ⟨.stopped x, tr, s'⟩ := by
  rw [run_bind, hp, Run.andThen]

/-- Sequencing, when the first part never comes back from a call. -/
theorem run_bind_halted {h : Handler C A H σ} {p : Prog C A S α} {s s' : σ} {c : C} {e : H}
    {tr : List (Event A)} (hp : p.run h s = ⟨.halted c e, tr, s'⟩)
    (f : α → Prog C A S β) :
    (p >>= f).run h s = ⟨.halted c e, tr, s'⟩ := by
  rw [run_bind, hp, Run.andThen]

/-- A sequence that returns is two parts that return. -/
theorem run_bind_returned_inv {h : Handler C A H σ} {p : Prog C A S α} {f : α → Prog C A S β}
    {s t : σ} {b : β} {tr : List (Event A)} (hp : (p >>= f).run h s = ⟨.returned b, tr, t⟩) :
    ∃ a tr₁ s₁ tr₂, p.run h s = ⟨.returned a, tr₁, s₁⟩ ∧
      (f a).run h s₁ = ⟨.returned b, tr₂, t⟩ ∧ tr = tr₁ ++ tr₂ := by
  cases hr : p.run h s with
  | mk o tr₁ s₁ =>
    cases o with
    | returned a =>
      rw [run_bind_returned hr] at hp
      generalize hq : (f a).run h s₁ = q at hp
      obtain ⟨o, tr₂, s₂⟩ := q
      cases hp
      exact ⟨a, tr₁, s₁, tr₂, rfl, hq, rfl⟩
    | stopped x => rw [run_bind_stopped hr] at hp; cases hp
    | halted c e => rw [run_bind_halted hr] at hp; cases hp

/-! ## A loop, one turn for each environment state -/

/-- Repeat `body`, handing the value of one turn to the next; turn `i` runs against the
    `i`-th state of the list. The run ends early when a turn does not return. -/
def runEach (h : Handler C A H σ) (body : β → Prog C A S β) (b : β) :
    List σ → Outcome C S H β × List (Event A)
  | [] => (.returned b, [])
  | s :: ss =>
    match (body b).run h s with
    | ⟨.returned b', tr, _⟩ =>
      ((runEach h body b' ss).1, tr ++ (runEach h body b' ss).2)
    | ⟨.stopped x, tr, _⟩ => (.stopped x, tr)
    | ⟨.halted c e, tr, _⟩ => (.halted c e, tr)

variable {h : Handler C A H σ} {body : β → Prog C A S β}

theorem runEach_cons_returned {b b' : β} {s s' : σ} {tr : List (Event A)}
    (hb : (body b).run h s = ⟨.returned b', tr, s'⟩) (ss : List σ) :
    runEach h body b (s :: ss) =
      ((runEach h body b' ss).1, tr ++ (runEach h body b' ss).2) := by
  simp only [runEach, hb]

theorem runEach_cons_stopped {b : β} {s s' : σ} {x : S} {tr : List (Event A)}
    (hb : (body b).run h s = ⟨.stopped x, tr, s'⟩) (ss : List σ) :
    runEach h body b (s :: ss) = (.stopped x, tr) := by
  simp only [runEach, hb]

theorem runEach_cons_halted {b : β} {s s' : σ} {c : C} {e : H} {tr : List (Event A)}
    (hb : (body b).run h s = ⟨.halted c e, tr, s'⟩) (ss : List σ) :
    runEach h body b (s :: ss) = (.halted c e, tr) := by
  simp only [runEach, hb]

/-- A run that comes back had a first turn that came back. -/
theorem runEach_cons_inv {b b' : β} {s : σ} {ss : List σ} {tr : List (Event A)}
    (hb : runEach h body b (s :: ss) = (.returned b', tr)) :
    ∃ b₁ s₁ tr₁ tr₂, (body b).run h s = ⟨.returned b₁, tr₁, s₁⟩ ∧
      runEach h body b₁ ss = (.returned b', tr₂) ∧ tr = tr₁ ++ tr₂ := by
  cases hr : (body b).run h s with
  | mk o tr₁ s₁ =>
    cases o with
    | returned b₁ =>
      rw [runEach_cons_returned hr] at hb
      obtain ⟨ho, ht⟩ := Prod.mk.inj hb
      exact ⟨b₁, s₁, tr₁, _, rfl, Prod.ext ho rfl, ht.symm⟩
    | stopped x => rw [runEach_cons_stopped hr] at hb; cases hb
    | halted c e => rw [runEach_cons_halted hr] at hb; cases hb

end Prog

end CLib
